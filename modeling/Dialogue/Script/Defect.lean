import Dialogue.Text.Basic

/-! # Defects

What stops the reading of a script file. -/

namespace Dialogue.Script

inductive Unreadable where
  | notUtf8
  | notFound
  | isDirectory
  | other (reason : Text)
deriving DecidableEq, Repr

def Unreadable.message : Unreadable → Text
  | .notUtf8 => "stream did not contain valid UTF-8".toList
  | .notFound => "No such file or directory (os error 2)".toList
  | .isDirectory => "Is a directory (os error 21)".toList
  | .other reason => reason

inductive Defect where
  | noBlocks
  /-- Keywords or replies, the first of them at `line`, follow the last closed block. -/
  | unterminatedBlock (line : Nat)
  /-- The block closed at `line` has keywords, `keyword` first, and no replies. -/
  | emptyReplies (line : Nat) (keyword : Text)
  | missingFallback (keyword : Text)
  | unreadable (reason : Unreadable)
deriving DecidableEq, Repr

def Defect.message : Defect → Text
  | .noBlocks => "rule file contains no closed keyword/reply block".toList
  | .unterminatedBlock line =>
    "line ".toList ++ Text.ofNat line ++ ": block is never closed (missing terminating '.')".toList
  | .emptyReplies line keyword =>
    "line ".toList ++ Text.ofNat line ++ ": block for keyword '".toList ++ keyword ++ "' has no replies".toList
  | .missingFallback keyword => "fallback keyword '".toList ++ keyword ++ "' is not defined".toList
  | .unreadable reason => "failed to read rule file: ".toList ++ reason.message

end Dialogue.Script
