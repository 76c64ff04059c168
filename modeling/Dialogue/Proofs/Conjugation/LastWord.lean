import Dialogue.Proofs.Conjugation.Table
import Dialogue.Proofs.Selection.Cut

/-! # The last word

A query keeps the spaces of its line, so its rest may close with several of them. A conjugation changes the
last word as it changes any other, and keeps the spaces behind it. A last `I` becomes `ME` where one space
follows it, and stays where more do. -/

namespace Dialogue
open Text

namespace Text
variable {t w : Text} {ws : List Text}

/-- The last run of characters other than the space; nothing in a text of spaces. -/
def lastWord (t : Text) : Text := takeEnd (· ≠ ' ') t.body

theorem takeEnd_append {p : Char → Bool} {e : Text} (ht : ∀ c ∈ t.getLast?, p c = false) (he : ∀ c ∈ e, p c = true) :
    takeEnd p (t ++ e) = e := by
  have h := dropEnd_append_takeEnd p (t ++ e)
  rw [dropEnd_append ht he] at h
  exact List.append_cancel_left h

/-- Every row of words ends in a word, with empty pieces behind it, or it has empty pieces only. -/
theorem exists_last (ws : List Text) :
    (∃ k, ws = List.replicate k []) ∨ ∃ vs w k, w ≠ [] ∧ ws = vs ++ w :: List.replicate k [] := by
  induction ws using List.reverseRecOn with
  | nil => exact Or.inl ⟨0, rfl⟩
  | append_singleton ws v ih =>
    by_cases hv : v = []
    · subst hv
      rcases ih with ⟨k, rfl⟩ | ⟨vs, w, k, hw, rfl⟩
      · exact Or.inl ⟨k + 1, List.replicate_succ'.symm⟩
      · exact Or.inr ⟨vs, w, k + 1, hw, by rw [List.replicate_succ', List.append_assoc, List.cons_append]⟩
    · exact Or.inr ⟨ws, v, 0, hv, rfl⟩

theorem spaced_replicate_nil (k : Nat) : spaced (List.replicate k []) = List.replicate (k + 1) ' ' := by
  induction k with
  | zero => rfl
  | succ k ih =>
    rw [List.replicate_succ, spaced_cons, ih, List.replicate_succ (n := k + 1)]
    rfl

theorem spaced_append (vs ws : List Text) : spaced (vs ++ ws) = opened vs ++ spaced ws := by
  induction vs with
  | nil => rfl
  | cons v vs ih => rw [List.cons_append, spaced_cons, opened_cons, ih, List.append_assoc]

section Last
variable (vs : List Text) (k : Nat)

theorem spaced_last (w : Text) :
    spaced (vs ++ w :: List.replicate k []) = (opened vs ++ ' ' :: w) ++ List.replicate (k + 1) ' ' := by
  rw [spaced_append, spaced_cons, spaced_replicate_nil, List.append_assoc]

theorem getLast?_opened (hw : ' ' ∉ w) (hne : w ≠ []) :
    ∀ c ∈ (opened vs ++ ' ' :: w).getLast?, decide (c = ' ') = false := by
  intro c hc
  rw [List.append_cons, List.getLast?_append_of_ne_nil _ hne] at hc
  exact decide_eq_false fun h => hw (h ▸ List.mem_of_getLast? hc)

theorem padding_spaced_last (hw : ' ' ∉ w) (hne : w ≠ []) :
    padding (spaced (vs ++ w :: List.replicate k [])) = List.replicate (k + 1) ' ' := by
  rw [spaced_last, padding]
  exact takeEnd_append (getLast?_opened vs hw hne) (by simp)

theorem lastWord_spaced_last (hw : ' ' ∉ w) (hne : w ≠ []) :
    lastWord (spaced (vs ++ w :: List.replicate k [])) = w := by
  have hbody : (spaced (vs ++ w :: List.replicate k [])).body = (opened vs ++ [' ']) ++ w := by
    rw [spaced_last, body, dropEnd_append (getLast?_opened vs hw hne) (by simp)]
    simp
  rw [lastWord, hbody]
  refine takeEnd_append (by simp) fun c hc => ?_
  exact decide_eq_true fun h => hw (h ▸ hc)

theorem lastWord_spaced_replicate : lastWord (spaced (List.replicate k [])) = [] := by
  have hbody : (spaced (List.replicate k [])).body = [] := by
    rw [spaced_replicate_nil]
    exact dropEnd_append (t := []) (by simp) (by simp)
  rw [lastWord, hbody]
  rfl

end Last

end Text

/-! ### The last word of a conjugated text -/

namespace Conjugation
variable {c : Conjugation} {ps : List (Text × Text)} {t w : Text}

theorem closing_replicate_nil (k : Nat) : closing (List.replicate k []) = List.replicate k [] := by
  refine if_neg fun h => ?_
  have hnil := List.eq_of_mem_replicate (List.mem_of_getLast? h)
  cases hnil

/-- Only a word at the very end of a row is a closing one. -/
theorem closing_last (vs : List Text) (w : Text) (k : Nat) : closing (vs ++ w :: List.replicate k []) =
    vs ++ (if k = 0 ∧ w = ['I'] then ['M', 'E'] else w) :: List.replicate k [] := by
  cases k with
  | zero => simp [closing_concat, closeWord]
  | succ k =>
    have hend : (vs ++ w :: List.replicate (k + 1) []).getLast? = some [] := by
      rw [List.replicate_succ', ← List.cons_append, ← List.append_assoc, List.getLast?_concat]
    rw [closing, hend, if_neg (by simp), if_neg (by simp)]

/-- The last word changes as every word does. Where it becomes `I`, it becomes `ME` if one space follows. -/
theorem lastWord_apply (h : c.OfWords ps) (hmark : mark ∉ t) (hstart : t.head? = some ' ')
    (hend : t.getLast? = some ' ') : lastWord (c.apply t) =
      if t.padding = [' '] ∧ substitute ps (lastWord t) = ['I'] then ['M', 'E'] else substitute ps (lastWord t) := by
  obtain ⟨ws, hplain, rfl⟩ := exists_plain hmark hstart hend
  have hnil : substitute ps [] = [] := substitute_nil h.words
  rw [apply_spaced h.wordwise hplain]
  rcases exists_last ws with ⟨k, rfl⟩ | ⟨vs, w, k, hne, rfl⟩
  · rw [List.map_replicate, hnil, closing_replicate_nil, lastWord_spaced_replicate, hnil]
    simp
  · have hw : Plain w := hplain w (by simp)
    have hword : Word (substitute ps w) := substitute_cases (fun p hp => (h.words p hp).2) ⟨hne, hw⟩
    have hpadding : List.replicate (k + 1) ' ' = [' '] ↔ k = 0 := by simp [List.replicate_succ]
    rw [List.map_append, List.map_cons, List.map_replicate, hnil, closing_last, lastWord_spaced_last vs k hw.space hne,
      padding_spaced_last vs k hw.space hne]
    simp only [hpadding]
    split
    · exact lastWord_spaced_last _ _ (by decide) (by decide)
    · exact lastWord_spaced_last _ _ hword.plain.space hword.ne_nil

/-- No word but `YOU` becomes `I`. -/
theorem substitute_standardWords_eq_iff : substitute standardWords w = ['I'] ↔ w = "YOU".toList := by
  constructor
  · intro h
    have hyou : ∀ p ∈ standardWords, p.2 = ['I'] → p.1 = "YOU".toList := by decide
    rcases substitute_eq_or_mem standardWords w with hsame | hmem
    · rw [hsame.symm.trans h] at h
      exact absurd h (by decide)
    · exact hyou _ hmem h
  · rintro rfl
    decide

end Conjugation

/-! ### The rest of a query -/

namespace Script
variable {s : Script} {input : Text}

/-- What is left of a query has no marks, also where no rule wins and nothing is left. -/
theorem mark_notMem_remainder (s : Script) (input : Text) :
    Conjugation.mark ∉ (s.select (Query.normalize input)).remainder := by
  by_cases h : (s.select (Query.normalize input)).rule = s.fallback
  · rw [remainder_eq_nil_iff.mpr h]
    exact List.not_mem_nil
  · intro hm
    have hkeeps := Query.keeps_of_mem_normalize ((remainder_suffix h).1.subset hm)
    exact absurd hkeeps (by decide)

/-- What a rule leaves of a query starts and ends with a space and has no marks. -/
theorem remainder_normalize (h : (s.select (Query.normalize input)).rule ≠ s.fallback) :
    (s.select (Query.normalize input)).remainder.head? = some ' ' ∧
    (s.select (Query.normalize input)).remainder.getLast? = some ' ' ∧
    Conjugation.mark ∉ (s.select (Query.normalize input)).remainder :=
  ⟨(remainder_ends h).1, (remainder_ends h).2, mark_notMem_remainder s input⟩

/-- Where the rest of a query closes with `YOU`, its standard conjugation closes with `ME` if one space
    follows, and with `I` if more do. In no other case does it close with `I`. -/
theorem lastWord_conjugated (h : (s.select (Query.normalize input)).rule ≠ s.fallback) :
    let rest := (s.select (Query.normalize input)).remainder
    (lastWord rest = "YOU".toList →
      lastWord (Conjugation.standard.apply rest) = if rest.padding = [' '] then ['M', 'E'] else ['I']) ∧
    (lastWord (Conjugation.standard.apply rest) = ['I'] ↔ lastWord rest = "YOU".toList ∧ rest.padding ≠ [' ']) := by
  intro rest
  obtain ⟨hstart, hend, hmark⟩ := remainder_normalize h
  have hlast : lastWord (Conjugation.standard.apply rest) =
      if rest.padding = [' '] ∧ lastWord rest = "YOU".toList then ['M', 'E']
      else Conjugation.substitute Conjugation.standardWords (lastWord rest) := by
    rw [Conjugation.lastWord_apply Conjugation.standard_ofWords hmark hstart hend]
    simp only [Conjugation.substitute_standardWords_eq_iff]
    rfl
  rw [hlast]
  constructor
  · intro hyou
    by_cases hone : rest.padding = [' ']
    · rw [if_pos ⟨hone, hyou⟩, if_pos hone]
    · rw [if_neg fun h => hone h.1, if_neg hone]
      exact Conjugation.substitute_standardWords_eq_iff.mpr hyou
  · split
    · rename_i hme
      exact iff_of_false (by decide) fun h => h.2 hme.1
    · rename_i hme
      rw [Conjugation.substitute_standardWords_eq_iff]
      exact ⟨fun hyou => ⟨hyou, fun hone => hme ⟨hone, hyou⟩⟩, And.left⟩

/-- A rest with spaces in front and between its words. -/
theorem lastWord_conjugated_me :
    let s : Script := ⟨[⟨"LOVE".toList, ⟨0, 0⟩, 1⟩, ⟨['N'], ⟨1, 1⟩, 5⟩], [['X', '*'], ['Z']], 1⟩
    let x := s.select (Query.normalize "I do love -  me and  YOU!".toList)
    s.Loaded ∧ x.rule ≠ s.fallback ∧ lastWord (Conjugation.standard.apply x.remainder) = ['M', 'E'] := by
  intro s x
  have hs : s.Loaded := ⟨['N'], ["LOVE", "!", "X*", ".", "N", "!", "Z", "."].map String.toList, by rfl⟩
  have hrule : x.rule ≠ s.fallback := by decide
  exact ⟨hs, hrule, ((lastWord_conjugated hrule).1 (by decide)).trans (if_pos (by decide))⟩

/-- A space at the end of the line keeps a closing `I`. -/
theorem lastWord_conjugated_i :
    let s : Script := ⟨[⟨"LOVE".toList, ⟨0, 0⟩, 1⟩, ⟨['N'], ⟨1, 1⟩, 5⟩], [['X', '*'], ['Z']], 1⟩
    let x := s.select (Query.normalize "love you ".toList)
    s.Loaded ∧ x.rule ≠ s.fallback ∧ lastWord x.remainder = "YOU".toList ∧
      lastWord (Conjugation.standard.apply x.remainder) = ['I'] := by
  intro s x
  have hs : s.Loaded := ⟨['N'], ["LOVE", "!", "X*", ".", "N", "!", "Z", "."].map String.toList, by rfl⟩
  have hrest : x.remainder = " YOU  ".toList := by decide
  refine ⟨hs, by decide, by decide, ?_⟩
  rw [hrest, Conjugation.lastWord_apply Conjugation.standard_ofWords (by decide) (by decide) (by decide)]
  decide

end Script

end Dialogue
