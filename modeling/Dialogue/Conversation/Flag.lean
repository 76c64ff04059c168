import Dialogue.Text.Basic

/-! # Flags

What happened while a reply was made. A set of flags has a number, with one bit for each flag. -/

namespace Dialogue

inductive Flag where
  | repeated
  | fallback
  /-- The template wants the rest of the query. -/
  | wildcard
  /-- The rest of the query went into the template. -/
  | spliced
  /-- A fixed reply stands for the fallback rule's. -/
  | overridden
deriving DecidableEq, Repr

abbrev Flags := Flag → Bool

namespace Flag

def all : List Flag := [repeated, fallback, wildcard, spliced, overridden]

def bit : Flag → Nat
  | repeated => 0
  | fallback => 1
  | wildcard => 2
  | spliced => 3
  | overridden => 4

def name : Flag → Text
  | repeated => "REPEAT".toList
  | fallback => "FALLBACK".toList
  | wildcard => "WILDCARD".toList
  | spliced => "SPLICED".toList
  | overridden => "OVERRIDE".toList

end Flag

namespace Flags

/-- The flags that are set, by rising bit. -/
def toList (s : Flags) : List Flag := Flag.all.filter s

def complement (s : Flags) : Flags := fun f => !s f

def toBits (s : Flags) : Nat := s.toList.foldr (fun f bits => 1 <<< f.bit ||| bits) 0

/-- The flags of the bits that have one. -/
def truncate (bits : Nat) : Flags := fun f => bits.testBit f.bit

/-- The flags of a number whose bits all have one. -/
def ofBits? (bits : Nat) : Option Flags := if bits < 1 <<< Flag.all.length then some (truncate bits) else none

end Flags

end Dialogue
