import Dialogue.Text.Blank
import Dialogue.Conjugation.Swap

/-! # Conjugation

Before the rest of a query goes into a reply, first and second person change places. The swaps run one
after another. A mark ends what a swap wrote, so that a later swap does not take its last word for one of
the query; the marks go once all swaps have run. -/

namespace Dialogue
open Text

structure Conjugation where
  swaps : List Swap

namespace Conjugation

/-- The mark that ends a written text while the swaps run. -/
def mark : Char := '+'

/-- A replacement with the mark before its closing spaces. -/
def withMark (replacement : Text) : Text := replacement.body ++ [mark] ++ replacement.padding

/-- The swap that writes `replacement` with the mark. -/
def marked (subject replacement : Text) (h : ∃ c ∈ subject, c ≠ ' ') : Swap where
  subject := subject
  replacement := withMark replacement
  progress := ⟨fun hn => by simp [hn] at h, Or.inr h⟩

def ofWords (word replacement : String) (h : (pad word.toList).any (· ≠ ' ') = true := by decide) : Swap :=
  marked (pad word.toList) (pad replacement.toList) (by simpa using h)

def standard : Conjugation where
  swaps := [
    ofWords "ARE" "AM", ofWords "AM" "ARE", ofWords "WERE" "WAS", ofWords "WAS" "WERE",
    ofWords "YOU" "I", ofWords "I" "YOU", ofWords "YOUR" "MY", ofWords "MY" "YOUR",
    ofWords "IVE" "YOUVE", ofWords "YOUVE" "IVE", ofWords "IM" "YOURE", ofWords "ME" "YOU",
    ofWords "US" "YOU", ofWords "WE" "YOU", ofWords "YOURSELF" "MYSELF", ofWords "MYSELF" "YOURSELF"]

def empty : Conjugation := ⟨[]⟩

structure Unmatchable where
  index : Nat
  subject : Text
deriving DecidableEq, Repr

def Unmatchable.message (u : Unmatchable) : Text :=
  "conjugation pair ".toList ++ Text.ofNat u.index ++ ": subject '".toList ++ u.subject ++
    "' has no matchable text".toList

theorem exists_ne_space {t : Text} (h : t.trim ≠ []) : ∃ c ∈ t, c ≠ ' ' := by
  refine Decidable.byContradiction fun hn => h (trim_eq_nil_of_blank fun c hc => ?_)
  have : c = ' ' := Decidable.byContradiction fun hs => hn ⟨c, hc, hs⟩
  subst this
  decide

/-- The swaps of subjects and plain replacements. `index` is the place of the first pair. -/
def swapsOf (index : Nat) : List (Text × Text) → Except Unmatchable (List Swap)
  | [] => .ok []
  | (subject, replacement) :: pairs =>
    if h : subject.trim = [] then .error ⟨index, subject⟩
    else (swapsOf (index + 1) pairs).map (marked subject replacement (exists_ne_space h) :: ·)

/-- A conjugation of subjects and plain replacements. It fails at the first subject of white space
    alone. -/
def ofPairs (pairs : List (Text × Text)) : Except Unmatchable Conjugation := (swapsOf 0 pairs).map (⟨·⟩)

/-- Subjects and marked replacements, in order. -/
def pairs (c : Conjugation) : List (Text × Text) := c.swaps.map fun s => (s.subject, s.replacement)

def size (c : Conjugation) : Nat := c.swaps.length

def isEmpty (c : Conjugation) : Bool := c.swaps.isEmpty

/-- A closing `I` is the object of its sentence. -/
def closeWithMe (t : Text) : Text :=
  match stripEnd? (pad ['I']) t with
  | some head => head ++ pad ['M', 'E']
  | none => t

/-- The text with persons changed: every swap in order, then the marks go, then a closing `I` becomes
    `ME`. -/
def apply (c : Conjugation) (t : Text) : Text :=
  closeWithMe ((c.swaps.foldl (fun t s => s.apply t) t).filter (· ≠ mark))

end Conjugation

end Dialogue
