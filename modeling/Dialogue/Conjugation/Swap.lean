import Dialogue.Text.Occurrence

/-! # Swaps

A swap writes one text wherever another occurs. Neighbouring words share the space between them, so the
search goes on at the closing spaces of what was just written: `" ARE ARE "` holds two occurrences of
`" ARE "`. What stands before those spaces is never searched again. -/

namespace Dialogue
open Text

/-- Write `replacement` wherever `subject` occurs. -/
structure Swap where
  subject : Text
  replacement : Text
  /-- The replacement cannot give back all that it uses up. -/
  progress : subject ≠ [] ∧ (replacement.padding = [] ∨ ∃ c ∈ subject, c ≠ ' ')

namespace Swap

/-- The size of a text in what each replacement uses up. -/
def measure (s : Swap) (t : Text) : Nat :=
  if s.replacement.padding = [] then t.length else t.countP (· ≠ ' ')

theorem measure_lt (s : Swap) {t : Text} {o : Occurrence} (h : occurrence? s.subject t = some o) :
    s.measure (s.replacement.padding ++ o.after) < s.measure t := by
  obtain ⟨hne, hp⟩ := s.progress
  rw [eq_of_occurrence? h]
  unfold measure
  split
  · rename_i h0
    have := List.length_pos_iff.mpr hne
    rw [h0]
    simp only [List.nil_append, List.length_append]
    omega
  · rename_i h0
    have : 0 < s.subject.countP (· ≠ ' ') := by
      obtain ⟨c, hc, hcs⟩ := hp.resolve_left h0
      exact List.countP_pos_iff.mpr ⟨c, hc, by simpa using hcs⟩
    rw [List.countP_append, List.countP_append, List.countP_append, countP_padding]
    omega

/-- Replaces every occurrence from the left. -/
def apply (s : Swap) (t : Text) : Text :=
  match h : occurrence? s.subject t with
  | none => t
  | some o =>
    have := s.measure_lt h
    o.before ++ s.replacement.body ++ s.apply (s.replacement.padding ++ o.after)
termination_by s.measure t

theorem apply_of_none {s : Swap} {t : Text} (h : occurrence? s.subject t = none) : s.apply t = t := by
  rw [apply]
  split
  · rfl
  · simp_all

theorem apply_of_some {s : Swap} {t : Text} {o : Occurrence} (h : occurrence? s.subject t = some o) :
    s.apply t = o.before ++ s.replacement.body ++ s.apply (s.replacement.padding ++ o.after) := by
  rw [apply]
  split
  · simp_all
  · rename_i o' h'
    cases h.symm.trans h'
    rfl

end Swap

end Dialogue
