import Dialogue.Proofs.Conjugation.LastWord

/-! # Texts without a subject

Of the three stages of a conjugation, only the swaps read the table. Where none of its subjects occurs, every
swap gives its text back and so leaves it for the next; what is left is to drop the marks and to close with
`ME`. A text without marks therefore stays as it is, unless it closes with `I`. -/

namespace Dialogue
open Text

namespace Conjugation
variable {c : Conjugation} {t : Text}

/-- No subject of the conjugation occurs in the text. -/
def Absent (c : Conjugation) (t : Text) : Prop := ∀ p ∈ c.pairs, ¬ p.1 <:+: t

instance (c : Conjugation) (t : Text) : Decidable (c.Absent t) :=
  inferInstanceAs (Decidable (∀ p ∈ c.pairs, ¬ p.1 <:+: t))

theorem absent_iff : c.Absent t ↔ ∀ s ∈ c.swaps, occurrence? s.subject t = none := by
  simp [Absent, pairs, occurrence?_eq_none_iff]

theorem empty_absent (t : Text) : empty.Absent t := by simp [absent_iff, empty]

/-- Swaps that find nothing leave the text for the next ones. -/
theorem foldl_apply_of_none {swaps : List Swap} (h : ∀ s ∈ swaps, occurrence? s.subject t = none) :
    swaps.foldl (fun t s => s.apply t) t = t := by
  induction swaps with
  | nil => rfl
  | cons s swaps ih =>
    rw [List.forall_mem_cons] at h
    rw [List.foldl_cons, Swap.apply_of_none h.1]
    exact ih h.2

/-- Without a subject, the text goes by the table. -/
theorem Absent.apply_eq_filter (h : c.Absent t) : c.apply t = closeWithMe (t.filter (· ≠ mark)) := by
  rw [apply, foldl_apply_of_none (absent_iff.mp h)]

theorem Absent.apply_eq_closeWithMe (h : c.Absent t) (hmark : mark ∉ t) : c.apply t = closeWithMe t := by
  rw [h.apply_eq_filter, filter_mark_of_plain hmark]

theorem Absent.apply_eq_self (h : c.Absent t) (hmark : mark ∉ t) (hclose : ¬ pad ['I'] <:+ t) :
    c.apply t = t := by
  rw [h.apply_eq_closeWithMe hmark, closeWithMe_of_not_suffix hclose]

/-- The standard conjugation has `I` among its subjects. -/
theorem not_suffix_of_standard_absent (h : standard.Absent t) : ¬ pad ['I'] <:+ t := by
  have hsubject : (pad ['I'], withMark (pad "YOU".toList)) ∈ standard.pairs := by decide
  exact mt List.IsSuffix.isInfix (h _ hsubject)

/-- In a text without marks and without a subject of the table, nothing changes but a closing `I`, which becomes
    `ME` whatever the pairs are. So the standard table keeps every such text, and the table without pairs keeps
    what is left of a query, where that does not close with `I`. -/
theorem apply_of_absent :
    (∀ {c : Conjugation} {t : Text}, mark ∉ t → c.Absent t →
      (¬ pad ['I'] <:+ t → c.apply t = t) ∧
      (c.isEmpty = false → ∀ head, t = head ++ pad ['I'] → c.apply t = head ++ pad ['M', 'E'])) ∧
    (∀ {t : Text}, mark ∉ t → standard.Absent t → standard.apply t = t) ∧
    ∀ (s : Script) (input : Text),
      let rest := (s.select (Query.normalize input)).remainder
      ¬ pad ['I'] <:+ rest → empty.apply rest = rest := by
  refine ⟨fun hmark h => ⟨h.apply_eq_self hmark, ?_⟩, fun hmark h => ?_, ?_⟩
  · rintro - head rfl
    rw [h.apply_eq_closeWithMe hmark, closeWithMe_append]
  · exact h.apply_eq_self hmark (not_suffix_of_standard_absent h)
  · intro s input rest hclose
    exact (empty_absent rest).apply_eq_self (Script.mark_notMem_remainder s input) hclose

/-- A subject that occurs only in part, a closing `I` behind another one, and a rest that closes with two
    spaces. -/
theorem apply_of_absent_my :
    let s : Script := ⟨[⟨"LOVE".toList, ⟨0, 0⟩, 1⟩, ⟨['N'], ⟨1, 1⟩, 5⟩], [['X', '*'], ['Z']], 1⟩
    let rest := (s.select (Query.normalize "love you and I ".toList)).remainder
    (∃ c, ofPairs [(" MY ".toList, " YOUR ".toList)] = .ok c ∧ c.apply " MYSELF ".toList = " MYSELF ".toList ∧
      c.apply " I AND I ".toList = " I AND ME ".toList) ∧
    standard.apply " THEY ARENT ".toList = " THEY ARENT ".toList ∧
    rest = " YOU AND I  ".toList ∧ empty.apply rest = rest := by
  intro s rest
  obtain ⟨c, hc⟩ : ∃ c, ofPairs [(" MY ".toList, " YOUR ".toList)] = .ok c := ⟨_, rfl⟩
  have habsent : c.Absent " MYSELF ".toList ∧ c.Absent " I AND I ".toList := by
    rw [Absent, Absent, pairs_ofPairs hc]
    decide
  refine ⟨⟨c, hc, ?_, ?_⟩, ?_, by decide, ?_⟩
  · exact (apply_of_absent.1 (by decide) habsent.1).1 (by decide)
  · refine (apply_of_absent.1 (by decide) habsent.2).2 ?_ " I AND".toList rfl
    cases hc
    rfl
  · exact apply_of_absent.2.1 (by decide) (by decide)
  · exact apply_of_absent.2.2 s "love you and I ".toList (by decide)

/-- A closing `I` that no pair names. -/
theorem apply_of_absent_closing : ∃ c, ofPairs [(" MY ".toList, " YOUR ".toList)] = .ok c ∧
    mark ∉ " TRUST I ".toList ∧ c.Absent " TRUST I ".toList ∧
    c.apply " TRUST I ".toList = " TRUST ME ".toList ∧ c.apply " TRUST I ".toList ≠ " TRUST I ".toList := by
  obtain ⟨c, hc⟩ : ∃ c, ofPairs [(" MY ".toList, " YOUR ".toList)] = .ok c := ⟨_, rfl⟩
  have hmark : mark ∉ " TRUST I ".toList := by decide
  have habsent : c.Absent " TRUST I ".toList := by
    rw [Absent, pairs_ofPairs hc]
    decide
  have happly : c.apply " TRUST I ".toList = " TRUST ME ".toList := by
    rw [habsent.apply_eq_closeWithMe hmark]
    decide
  refine ⟨c, hc, hmark, habsent, happly, ?_⟩
  rw [happly]
  decide

end Conjugation

end Dialogue
