import Dialogue.Text.Blank

/-! # Lines of a script file

A file is a sequence of blocks: keywords, a line with `!`, replies, a line with `.`. Only the first
character of a line tells a marker. -/

namespace Dialogue.Script
open Text

inductive Line where
  /-- A blank line or a comment. -/
  | skipped
  /-- From here on the block lists replies. -/
  | turn
  | close
  | entry (text : Text)
deriving DecidableEq, Repr

def Line.ofText (raw : Text) : Line :=
  match raw.trim with
  | [] => .skipped
  | '/' :: '/' :: _ => .skipped
  | '!' :: _ => .turn
  | '.' :: _ => .close
  | text => .entry text

end Dialogue.Script
