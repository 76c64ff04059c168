import Dialogue.Text.Basic

/-! # Lines

A line ends with a line feed, or at the end of the input. The cut is the same for characters and for
bytes; bytes are read as UTF-8 one line at a time. -/

namespace Dialogue

section Cut
variable {α : Type} [DecidableEq α]

/-- The pieces of a sequence, cut after every `stop`. What follows the last one is a piece unless it is
    empty. -/
def cutAfter (stop : α) : List α → List (List α)
  | [] => []
  | c :: rest =>
    if c = stop then [c] :: cutAfter stop rest
    else
      match cutAfter stop rest with
      | [] => [[c]]
      | piece :: pieces => (c :: piece) :: pieces

/-- A piece less its line feed and one carriage return before it; a piece without a line feed stays as
    it is. -/
def dropLineEnd (feed carriage : α) (piece : List α) : List α :=
  if piece.getLast? = some feed then
    if piece.dropLast.getLast? = some carriage then piece.dropLast.dropLast else piece.dropLast
  else piece

theorem flatten_cutAfter (stop : α) (s : List α) : (cutAfter stop s).flatten = s := by
  induction s with
  | nil => rfl
  | cons c rest ih =>
    rw [cutAfter]
    split
    · simp [ih]
    · split <;> simp_all

end Cut

def Text.lines (t : Text) : List Text := (cutAfter '\n' t).map (dropLineEnd '\n' '\r')

abbrev Bytes := List UInt8

namespace Bytes

/-- The text that the bytes are the UTF-8 form of. -/
def text? (b : Bytes) : Option Text := (String.fromUTF8? b.toByteArray).map String.toList

/-- The pieces of a byte stream, each up to and with its line feed. -/
def pieces (b : Bytes) : List Bytes := cutAfter 10 b

/-- The lines of a byte stream; a line that is not UTF-8 has no text. -/
def lines (b : Bytes) : List (Option Text) := b.pieces.map fun piece => text? (dropLineEnd 10 13 piece)

end Bytes

end Dialogue
