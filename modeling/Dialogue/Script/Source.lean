import Dialogue.Text.Lines
import Dialogue.Script.Draft

/-! # Sources of scripts

A script is read from lines, from a text, from bytes or from a file. -/

namespace Dialogue

inductive File where
  | contents (bytes : Bytes)
  | unreadable (reason : Script.Unreadable)
deriving DecidableEq, Repr

namespace Script

def ofLines (fallback : Text) (lines : List Text) : Reading := Draft.empty.read fallback (lines.map some)

def ofText (fallback : Text) (source : Text) : Reading := ofLines fallback source.lines

def ofBytes (fallback : Text) (source : Bytes) : Reading := Draft.empty.read fallback source.lines

def ofFile (fallback : Text) : File → Reading
  | .contents bytes => ofBytes fallback bytes
  | .unreadable reason => ⟨[], .error (.unreadable reason)⟩

end Script

end Dialogue
