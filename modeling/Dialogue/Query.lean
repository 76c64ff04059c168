import Dialogue.Text.Basic

/-! # Queries

A line of input becomes a query before keywords are looked for: ASCII letters in upper case, digits and
spaces stay, all else goes, and one space stands on either side. -/

namespace Dialogue.Query

def keeps (c : Char) : Bool := c.isUpper || c.isDigit || c = ' '

def normalize (input : Text) : Text := Text.pad ((input.map Char.toUpper).filter keeps)

/-- Whether the rest of a query holds nothing to put into a reply. -/
def isBare (rest : Text) : Bool := rest = [] || rest = [' ']

theorem keeps_of_mem_normalize {c : Char} {input : Text} (h : c ∈ normalize input) : keeps c = true := by
  simp only [normalize, Text.pad, List.cons_append, List.mem_cons, List.mem_append, List.mem_filter,
    List.not_mem_nil, or_false] at h
  rcases h with rfl | ⟨-, h⟩ | rfl
  · decide
  · exact h
  · decide

/-- Queries are made of ASCII letters in upper case, digits and spaces. -/
theorem keeps_iff {c : Char} : keeps c = true ↔ ('A' ≤ c ∧ c ≤ 'Z') ∨ ('0' ≤ c ∧ c ≤ '9') ∨ c = ' ' := by
  have hupper : c.isUpper = true ↔ 'A' ≤ c ∧ c ≤ 'Z' := decide_eq_true_iff
  have hdigit : c.isDigit = true ↔ '0' ≤ c ∧ c ≤ '9' :=
    Bool.and_eq_true_iff.trans (and_congr decide_eq_true_iff decide_eq_true_iff)
  rw [keeps, Bool.or_eq_true, Bool.or_eq_true, hupper, hdigit, decide_eq_true_eq, or_assoc]

theorem toUpper_of_keeps {c : Char} (h : keeps c = true) : c.toUpper = c := by
  refine dif_neg ?_
  rintro ⟨ha, -⟩
  rcases keeps_iff.mp h with ⟨-, hle⟩ | ⟨-, hle⟩ | rfl
  · exact absurd (UInt32.le_trans ha hle) (by decide)
  · exact absurd (UInt32.le_trans ha hle) (by decide)
  · exact absurd ha (by decide)

/-- A text of what queries are made of is only padded. -/
theorem normalize_of_keeps {t : Text} (h : ∀ c ∈ t, keeps c = true) : normalize t = Text.pad t := by
  have hupper : t.map Char.toUpper = t :=
    (List.map_congr_left fun c hc => toUpper_of_keeps (h c hc)).trans t.map_id
  rw [normalize, hupper, List.filter_eq_self.mpr h]

end Dialogue.Query
