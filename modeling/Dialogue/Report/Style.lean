import Dialogue.Text.Basic

/-! # Styles

A painted text stands between a select-graphic-rendition sequence and the sequence that resets it. -/

namespace Dialogue

inductive Style where
  | bold
  | dim
  | green
  | yellow
  | blue
  | cyan
  | gray
deriving DecidableEq, Repr

namespace Style

def code : Style → Text
  | bold => ['1']
  | dim => ['2']
  | green => ['3', '2']
  | yellow => ['3', '3']
  | blue => ['3', '4']
  | cyan => ['3', '6']
  | gray => ['9', '0']

def sequence (code : Text) : Text := ['\x1b', '['] ++ code ++ ['m']

/-- The text in a style, or as it is where there is no colour. -/
def paint (colour : Bool) (style : Style) (t : Text) : Text :=
  if colour then sequence style.code ++ t ++ sequence ['0'] else t

end Style

end Dialogue
