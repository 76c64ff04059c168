import Dialogue.Conversation.Flag
import Dialogue.Conversation.Options
import Dialogue.Selection

/-! # Answers

An answer tells, beside the reply, how it came about. What does not apply to a course has no value in its
views. -/

namespace Dialogue

structure Choice where
  selection : Selection
  phrase : Text
  isFallback : Bool
deriving DecidableEq, Repr

/-- A template that was filled, and the rotation of its rule before and after. -/
structure Telling where
  template : Text
  conjugated : Option Text
  before : Nat
  after : Nat
  /-- How many other rules share the rotation. -/
  synced : Nat
deriving DecidableEq, Repr

inductive Course where
  /-- The line repeats the one before, for the `count`th time in a row. -/
  | repeated (count : Nat)
  /-- The options' reply stands for the fallback rule's. -/
  | fixed (choice : Choice)
  | told (choice : Choice) (telling : Telling)
deriving DecidableEq, Repr

structure Answer where
  query : Text
  reply : Text
  course : Course
deriving DecidableEq, Repr

namespace Answer

def choice? (a : Answer) : Option Choice :=
  match a.course with
  | .repeated _ => none
  | .fixed choice => some choice
  | .told choice _ => some choice

def telling? (a : Answer) : Option Telling :=
  match a.course with
  | .told _ telling => some telling
  | _ => none

def flags (a : Answer) : Flags :=
  match a.course with
  | .repeated _ => fun f => f = .repeated
  | .fixed _ => fun f => f = .fallback || f = .overridden
  | .told choice telling => fun
    | .fallback => choice.isFallback
    | .wildcard => Template.isOpen telling.template
    | .spliced => telling.conjugated.isSome
    | _ => false

def rule? (a : Answer) : Option Nat := a.choice?.map (·.selection.rule)

def phrase? (a : Answer) : Option Text := a.choice?.map (·.phrase)

/-- Where the keyword occurs in the query, in bytes. -/
def matchOffset? (a : Answer) : Option Nat := a.choice?.bind fun c => c.selection.hit.map (·.offset)

/-- The rest of the query before its persons were changed. -/
def remainder (a : Answer) : Text := (a.choice?.map (·.selection.remainder)).getD []

def template? (a : Answer) : Option Text := a.telling?.map (·.template)

def conjugated? (a : Answer) : Option Text := a.telling?.bind (·.conjugated)

def rotationBefore (a : Answer) : Nat := (a.telling?.map (·.before)).getD 0

def rotationAfter (a : Answer) : Nat := (a.telling?.map (·.after)).getD 0

def synced (a : Answer) : Nat := (a.telling?.map (·.synced)).getD 0

end Answer

inductive Event where
  | repeated (query : Text) (repeats : Nat)
  | fixed (query : Text)
  | told (query keyword remainder reply : Text) (rotation : Nat)
deriving DecidableEq, Repr

def Event.message : Event → Text
  | .repeated .. => "repeated input".toList
  | .fixed .. => "no keyword matched, fixed reply".toList
  | .told .. => "answered".toList

def Answer.event (a : Answer) : Event :=
  match a.course with
  | .repeated count => .repeated a.query count
  | .fixed _ => .fixed a.query
  | .told choice telling => .told a.query choice.phrase choice.selection.remainder a.reply telling.after

end Dialogue
