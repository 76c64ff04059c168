import Dialogue.Text.Blank

/-! # Scripts

A script holds the rules of a conversation in search order and one pool of replies. The rules of a block
share its stretch of the pool. -/

namespace Dialogue
open Text

/-- A stretch of the reply pool, both ends included. -/
structure ReplyRange where
  first : Nat
  last : Nat
deriving DecidableEq, Repr

namespace ReplyRange

def size (r : ReplyRange) : Nat := r.last - r.first + 1

def contains (r : ReplyRange) (i : Nat) : Bool := r.first ≤ i && i ≤ r.last

end ReplyRange

/-- A phrase to look for, where its replies are, and the line of the file that it was read from. -/
structure Rule where
  phrase : Text
  range : ReplyRange
  line : Nat
deriving DecidableEq, Repr

/-- The phrase as it is looked for in a query. -/
def Rule.keyword (r : Rule) : Text := pad r.phrase

structure Script where
  rules : List Rule
  replies : List Text
  /-- The place of the rule that answers when no keyword occurs. -/
  fallback : Nat
deriving DecidableEq, Repr

namespace Script

/-- The phrase of the fallback rule, where a file does not use another. -/
def fallbackPhrase : Text := "NOKEYFOUND".toList

/-- At the end of a reply, stands for the rest of the query. -/
def wildcard : Char := '*'

def repliesOf (s : Script) (r : Rule) : List Text := (s.replies.drop r.range.first).take r.range.size

/-- The place of the rule for a phrase, with or without white space around it. -/
def position? (s : Script) (phrase : Text) : Option Nat := s.rules.findIdx? (·.phrase = phrase.trim)

def rule? (s : Script) (phrase : Text) : Option Rule := s.rules.find? (·.phrase = phrase.trim)

end Script

end Dialogue
