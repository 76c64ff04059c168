import Dialogue.Script.Basic
import Dialogue.Script.Defect
import Dialogue.Script.Line
import Dialogue.Script.Notice

/-! # Reading a script file

A draft is what is known of a script after some lines of its file: the closed blocks, and the block that
is still open. -/

namespace Dialogue.Script

structure Entry where
  line : Nat
  text : Text
deriving DecidableEq, Repr

/-- Which entries a block lists at the moment. -/
inductive Part where
  | keywords
  | replies
deriving DecidableEq, Repr

structure Block where
  keywords : List Entry
  replies : List Entry
deriving DecidableEq, Repr

namespace Block

def empty : Block := ⟨[], []⟩

def add (b : Block) (part : Part) (e : Entry) : Block :=
  match part with
  | .keywords => { b with keywords := b.keywords ++ [e] }
  | .replies => { b with replies := b.replies ++ [e] }

def line? (b : Block) : Option Nat := (b.keywords ++ b.replies).head?.map (·.line)

end Block

structure Draft where
  lines : Nat
  part : Part
  block : Block
  rules : List Rule
  replies : List Text
  blocks : Nat
  notices : List Notice
deriving DecidableEq, Repr

/-- A script file read to its end or to its first defect, with the notices up to there. -/
structure Reading where
  notices : List Notice
  result : Except Defect Script

namespace Draft

def empty : Draft := ⟨0, .keywords, .empty, [], [], 0, []⟩

/-- Adds the rule for a keyword, unless its phrase has one. -/
def enroll (range : ReplyRange) (d : Draft) (k : Entry) : Draft :=
  if d.rules.any (·.phrase = k.text) then
    { d with notices := d.notices ++ [.duplicateKeyword k.line k.text] }
  else { d with rules := d.rules ++ [⟨k.text, range, k.line⟩] }

/-- The draft with nothing in its open block and one more block closed. -/
def reopen (d : Draft) : Draft := { d with part := .keywords, block := .empty, blocks := d.blocks + 1 }

def close (d : Draft) : Except Defect Draft :=
  match d.block.keywords, d.block.replies with
  | [], [] => .ok d.reopen
  | k :: _, [] => .error (.emptyReplies d.lines k.text)
  | [], replies => .ok { d.reopen with
      replies := d.replies ++ replies.map (·.text)
      notices := d.notices ++ [.repliesWithoutKeywords d.lines replies.length] }
  | keywords, replies =>
    let range : ReplyRange := ⟨d.replies.length, d.replies.length + replies.length - 1⟩
    .ok (keywords.foldl (enroll range) { d.reopen with replies := d.replies ++ replies.map (·.text) })

def push (d : Draft) (raw : Text) : Except Defect Draft :=
  let d := { d with lines := d.lines + 1 }
  match Line.ofText raw with
  | .skipped => .ok d
  | .turn => .ok { d with part := .replies }
  | .close => d.close
  | .entry text => .ok { d with block := d.block.add d.part ⟨d.lines, text⟩ }

/-- The script of a file that has no more lines. -/
def script (d : Draft) (fallback : Text) : Except Defect Script :=
  if d.blocks = 0 then .error .noBlocks
  else
    match d.block.line?, d.rules.findIdx? (·.phrase = fallback) with
    | some line, _ => .error (.unterminatedBlock line)
    | none, none => .error (.missingFallback fallback)
    | none, some i => .ok ⟨d.rules, d.replies, i⟩

def finish (d : Draft) (fallback : Text) : Reading :=
  match d.script fallback with
  | .ok s => ⟨d.notices ++ [.loaded s.rules.length s.replies.length d.blocks], .ok s⟩
  | .error e => ⟨d.notices, .error e⟩

/-- Reads the lines that are left; `none` is a line that is not text. -/
def read (fallback : Text) (d : Draft) : List (Option Text) → Reading
  | [] => d.finish fallback
  | none :: _ => ⟨d.notices, .error (.unreadable .notUtf8)⟩
  | some raw :: lines =>
    match d.push raw with
    | .ok d => d.read fallback lines
    | .error e => ⟨d.notices, .error e⟩

end Draft

end Dialogue.Script
