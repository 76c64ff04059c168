import Dialogue.Conjugation.Basic
import Dialogue.Query
import Dialogue.Script.Basic

/-! # Options and templates

The options fix what is said to a repeated line and to one that no rule knows, and how a template becomes
a reply. -/

namespace Dialogue
open Text

structure Options where
  repeatReply : Text
  /-- What is said instead from the second repeat in a row on. -/
  repeatLimitReply : Option Text
  /-- What is said instead of the fallback rule's reply. -/
  noMatchReply : Option Text
  /-- Whether a wildcard goes when nothing can stand for it. -/
  dropUnfilledWildcard : Bool
  conjugation : Conjugation

namespace Options

def repeatReplyText : Text := "PLEASE DON'T REPEAT YOURSELF!".toList

def classic : Options := ⟨repeatReplyText, none, none, false, .standard⟩

def repeatReplyAt (o : Options) (count : Nat) : Text :=
  match o.repeatLimitReply with
  | some reply => if 2 ≤ count then reply else o.repeatReply
  | none => o.repeatReply

end Options

structure Filling where
  reply : Text
  conjugated : Option Text
deriving DecidableEq, Repr

namespace Template

/-- Whether a template wants the rest of the query. -/
def isOpen (template : Text) : Bool := template.getLast? = some Script.wildcard

/-- A question mark in place of a closing space, or after a text without one. -/
def ask (t : Text) : Text := (if t.getLast? = some ' ' then t.dropLast else t) ++ ['?']

end Template

def Options.fill (o : Options) (template rest : Text) : Filling :=
  if Template.isOpen template then
    if Query.isBare rest then
      ⟨Template.ask (if o.dropUnfilledWildcard then template.dropLast else template), none⟩
    else
      let conjugated := o.conjugation.apply rest
      ⟨Template.ask (template.dropLast ++ conjugated), some conjugated⟩
  else ⟨template, none⟩

end Dialogue
