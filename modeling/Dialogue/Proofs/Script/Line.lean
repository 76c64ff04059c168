import Dialogue.Script.Draft
import Mathlib.Data.List.DropRight

/-! # What a line of a script file holds

A line is judged by its text without the white space around it. A text that a block lists is not
blank, is no comment and no marker (`Listed`). -/

namespace Dialogue

namespace Text

theorem head?_trim {t : Text} {c : Char} (h : t.trim.head? = some c) : isBlank c = false := by
  have hpre : t.trim <+: t.dropWhile isBlank := List.rdropWhile_prefix isBlank _
  have hhead : (t.dropWhile isBlank).head? = some c := by
    obtain ⟨rest, hrest⟩ := hpre
    rw [← hrest, List.head?_append, h, Option.some_or]
  have := List.head?_dropWhile_not isBlank t
  simpa [hhead] using this

theorem getLast?_trim {t : Text} {c : Char} (h : t.trim.getLast? = some c) : isBlank c = false := by
  rw [trim, dropEnd, List.getLast?_reverse] at h
  have := List.head?_dropWhile_not isBlank (t.dropWhile isBlank).reverse
  simpa [h] using this

end Text

namespace Script
open Text

/-- A text that a block can list as a keyword or as a reply. -/
structure Listed (t : Text) : Prop where
  ne_nil : t ≠ []
  head : ∀ c, t.head? = some c → isBlank c = false
  last : ∀ c, t.getLast? = some c → isBlank c = false
  comment : ¬['/', '/'] <+: t
  turn : t.head? ≠ some '!'
  close : t.head? ≠ some '.'

def Blank (t : Text) : Prop := t = [] ∨ ['/', '/'] <+: t

instance (t : Text) : Decidable (Blank t) := inferInstanceAs (Decidable (_ ∨ _))

namespace Line

/-- The four kinds of line, in the order of the tests. -/
theorem ofText_eq (raw : Text) : ofText raw =
    if Blank raw.trim then skipped
    else if raw.trim.head? = some '!' then turn
    else if raw.trim.head? = some '.' then close
    else entry raw.trim := by
  unfold ofText
  split
  case h_5 hnil hcomment hturn hclose =>
    have hblank : ¬Blank raw.trim := by
      rintro (h | ⟨rest, h⟩)
      · exact hnil h
      · exact hcomment rest h.symm
    have hhead : ∀ c, (∀ rest, raw.trim ≠ c :: rest) → raw.trim.head? ≠ some c := fun c hc h => by
      obtain ⟨rest, hrest⟩ := List.head?_eq_some_iff.mp h
      exact hc rest hrest
    rw [if_neg hblank, if_neg (hhead '!' hturn), if_neg (hhead '.' hclose)]
  all_goals simp_all [Blank]

theorem ofText_skipped_iff {raw : Text} : ofText raw = skipped ↔ Blank raw.trim := by
  rw [ofText_eq]
  split_ifs <;> simp_all

theorem ofText_turn_iff {raw : Text} : ofText raw = turn ↔ ¬Blank raw.trim ∧ raw.trim.head? = some '!' := by
  rw [ofText_eq]
  split_ifs <;> simp_all

theorem ofText_close_iff {raw : Text} : ofText raw = close ↔ ¬Blank raw.trim ∧ raw.trim.head? = some '.' := by
  rw [ofText_eq]
  split_ifs <;> simp_all

theorem ofText_entry_iff {raw t : Text} : ofText raw = entry t ↔
    ¬Blank raw.trim ∧ raw.trim.head? ≠ some '!' ∧ raw.trim.head? ≠ some '.' ∧ raw.trim = t := by
  rw [ofText_eq]
  split_ifs <;> simp_all

theorem listed_of_entry {raw t : Text} (h : ofText raw = entry t) : Listed t := by
  obtain ⟨hb, hturn, hclose, rfl⟩ := ofText_entry_iff.mp h
  exact ⟨fun hn => hb (Or.inl hn), fun _ => head?_trim, fun _ => getLast?_trim, fun hc => hb (Or.inr hc), hturn,
    hclose⟩

end Line

end Script

end Dialogue
