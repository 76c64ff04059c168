import Dialogue.Conversation.Answer
import Dialogue.Report.Style

/-! # Reports

A report shows an answer line by line: the reply, then indented how it came about. -/

namespace Dialogue.Report
open Style

def field (colour : Bool) (label : String) (value : Text) : Text :=
  "  ".toList ++ paint colour .dim label.toList ++ [' '] ++ value

def quote (t : Text) : Text := ['"'] ++ t ++ ['"']

/-- The names of the flags that are set, in lower case. -/
def flagNames (s : Flags) : Text :=
  if s.toList = [] then ['-'] else Text.join [','] (s.toList.map fun f => f.name.map Char.toLower)

def ruleLine (colour : Bool) (c : Choice) : Text :=
  let place := match c.selection.hit with
    | some hit => '@' :: Text.ofNat hit.offset
    | none => "no match".toList
  field colour "rule:" (paint colour .blue c.phrase ++ [' '] ++ paint colour .dim ['│'] ++ [' '] ++
    paint colour .yellow place)

def rotationLine (colour : Bool) (t : Telling) : Text :=
  field colour "rotation:" (Text.ofNat t.before ++ " → ".toList ++ paint colour .green (Text.ofNat t.after) ++
    [' '] ++ paint colour .dim ("(+".toList ++ Text.ofNat t.synced ++ " synced)".toList))

def courseLines (colour : Bool) (a : Answer) : List Text :=
  match a.choice? with
  | none => ["  ".toList ++ paint colour .yellow "repeated input, rotation unchanged".toList]
  | some choice =>
    [ruleLine colour choice] ++
    (a.template?.map (field colour "template:")).toList ++
    (if a.remainder = [] then [] else [field colour "remainder:" (quote a.remainder)]) ++
    (a.conjugated?.map fun t => field colour "conjugated:" (quote t)).toList ++
    (a.telling?.map (rotationLine colour)).toList

def footer (colour : Bool) (took : Text) (s : Flags) : Text :=
  field colour "flags:" (paint colour .gray (flagNames s) ++ "  ".toList ++
    paint colour .dim "│ took:".toList ++ [' '] ++ paint colour .dim took)

def lines (colour : Bool) (took : Text) (a : Answer) : List Text :=
  [paint colour .bold (paint colour .green a.reply),
    field colour "query:" (paint colour .cyan (quote a.query))] ++
  courseLines colour a ++ [footer colour took a.flags]

end Dialogue.Report
