import Dialogue.Conversation.Answer

/-! # Conversations

A conversation keeps, for each rule, how far its replies have rotated, and the last query. The rules of a
block rotate together. -/

namespace Dialogue

/-- The offset after `offset` in a stretch of replies, back to its first after its last. -/
def ReplyRange.next (r : ReplyRange) (offset : Nat) : Nat :=
  if r.last < r.first + (offset + 1) then 0 else offset + 1

structure Conversation where
  script : Script
  options : Options
  /-- For each rule, the offset of its next reply in its range. -/
  rotations : List Nat
  previous : Option Text
  /-- How often in a row that query was repeated. -/
  repeats : Nat

namespace Conversation

def start (script : Script) (options : Options) : Conversation :=
  ⟨script, options, List.replicate script.rules.length 0, none, 0⟩

def reset (c : Conversation) : Conversation := start c.script c.options

def rotation? (c : Conversation) (i : Nat) : Option Nat := c.rotations[i]?

def rotationOf? (c : Conversation) (phrase : Text) : Option Nat := (c.script.position? phrase).bind c.rotation?

/-- Gives all rules with this first reply a new offset. -/
def rotate (c : Conversation) (first offset : Nat) : Conversation :=
  { c with rotations :=
      List.zipWith (fun r o => if r.range.first = first then offset else o) c.script.rules c.rotations }

/-- How many rules beside one of them have this first reply. -/
def companions (c : Conversation) (first : Nat) : Nat :=
  c.script.rules.countP (fun r => r.range.first = first) - 1

/-- The answer of the rule chosen for a query. There is none where the choice, its offset or its reply
    lies outside the script. -/
def tell? (c : Conversation) (query : Text) (choice : Choice) (range : ReplyRange) :
    Option (Conversation × Answer) := do
  let before ← c.rotations[choice.selection.rule]?
  let template ← c.script.replies[range.first + before]?
  let filling := c.options.fill template choice.selection.remainder
  let after := range.next before
  let telling : Telling := ⟨template, filling.conjugated, before, after, c.companions range.first⟩
  return (c.rotate range.first after, ⟨query, filling.reply, .told choice telling⟩)

/-- The answer to a line of input, and the conversation after it. -/
def answer? (c : Conversation) (input : Text) : Option (Conversation × Answer) :=
  let query := Query.normalize input
  if c.previous = some query then
    let count := c.repeats + 1
    some ({ c with repeats := count }, ⟨query, c.options.repeatReplyAt count, .repeated count⟩)
  else do
    let c := { c with previous := some query, repeats := 0 }
    let selection := c.script.select query
    let rule ← c.script.rules[selection.rule]?
    let choice : Choice := ⟨selection, rule.phrase, selection.isFallback c.script⟩
    match choice.isFallback, c.options.noMatchReply with
    | true, some reply => return (c, ⟨query, reply, .fixed choice⟩)
    | _, _ => c.tell? query choice rule.range

end Conversation

end Dialogue
