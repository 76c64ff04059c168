import Dialogue.Text.Basic

/-! # Notices

What the reading of a script file puts on record and does not stop at. -/

namespace Dialogue.Script

inductive Notice where
  /-- The phrase at `line` has a rule already and gets no other. -/
  | duplicateKeyword (line : Nat) (keyword : Text)
  /-- The block closed at `line` has this many replies and no keywords. -/
  | repliesWithoutKeywords (line : Nat) (replies : Nat)
  | loaded (rules replies blocks : Nat)
deriving DecidableEq, Repr

def Notice.message : Notice → Text
  | .duplicateKeyword .. => "duplicate keyword ignored".toList
  | .repliesWithoutKeywords .. => "block has replies but no keywords".toList
  | .loaded .. => "loaded rule set".toList

end Dialogue.Script
