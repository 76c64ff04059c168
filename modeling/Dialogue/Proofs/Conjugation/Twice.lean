import Dialogue.Proofs.Conjugation.Table

/-! # Conjugating twice

Twelve of the standard pairs are six words and their mirror images: a word that one of them writes, another
takes back. So a second conjugation undoes the first, word by word, but for `IM`, `ME`, `US` and `WE`, which no
pair writes. A closing word may take another way: `YOU` goes through `ME`, and `ME` comes back through `YOU` and
`I`, while `I` ends as `ME` (`standard_apply_apply_spaced_iff`). -/

namespace Dialogue
open Text

namespace Conjugation
variable {ws : List Text} {t w : Text}

/-- The words that two conjugations change. -/
def oneWay : List Text := ["IM", "ME", "US", "WE"].map String.toList

/-- The closing words that two conjugations change. -/
def oneWayLast : List Text := ["IM", "I", "US", "WE"].map String.toList

theorem substitute_substitute_eq_iff :
    substitute standardWords (substitute standardWords w) = w ↔ w ∉ oneWay := by
  constructor
  · intro h hw
    have hleaves : ∀ v ∈ oneWay, substitute standardWords (substitute standardWords v) ≠ v := by decide
    exact hleaves w hw h
  · intro hw
    have hback : ∀ p ∈ standardWords, p.1 ∉ oneWay → substitute standardWords p.2 = p.1 := by decide
    rcases substitute_eq_or_mem standardWords w with hsame | hmem
    · rw [hsame, hsame]
    · exact hback _ hmem hw

/-- What a closing word becomes is a closing word again. -/
theorem closeWord_substitute_eq_iff :
    closeWord (substitute standardWords (closeWord (substitute standardWords w))) = w ↔ w ∉ oneWayLast := by
  constructor
  · intro h hw
    have hleaves : ∀ v ∈ oneWayLast,
        closeWord (substitute standardWords (closeWord (substitute standardWords v))) ≠ v := by decide
    exact hleaves w hw h
  · intro hw
    have hback : ∀ p ∈ standardWords, p.1 ∉ oneWayLast →
        closeWord (substitute standardWords (closeWord p.2)) = p.1 := by decide
    rcases substitute_eq_or_mem standardWords w with hsame | hmem
    · have hI : w ≠ ['I'] := by
        rintro rfl
        exact hw (by decide)
      have hclose : closeWord w = w := if_neg hI
      rw [hsame, hclose, hsame, hclose]
    · exact hback _ hmem hw

theorem standard_apply_apply_spaced (hws : ∀ w ∈ ws, Plain w) : standard.apply (standard.apply (spaced ws)) =
    spaced (closing ((closing (ws.map (substitute standardWords))).map (substitute standardWords))) := by
  have hout := plain_closing (plain_map_substitute standard_wordwise.plain hws)
  rw [apply_spaced standard_wordwise hws, apply_spaced standard_wordwise hout]

/-- A row of words comes back from two conjugations just when each of its words does. -/
theorem standard_apply_apply_spaced_iff (hws : ∀ w ∈ ws, Plain w) :
    standard.apply (standard.apply (spaced ws)) = spaced ws ↔
      (∀ w ∈ ws.dropLast, w ∉ oneWay) ∧ ∀ w ∈ ws.getLast?, w ∉ oneWayLast := by
  have hplain := standard_wordwise.plain
  have hout := plain_closing (plain_map_substitute hplain (plain_closing (plain_map_substitute hplain hws)))
  rw [standard_apply_apply_spaced hws, spaced_inj (unspaced_of_plain hout) (unspaced_of_plain hws)]
  rcases List.eq_nil_or_concat' ws with rfl | ⟨vs, w, rfl⟩
  · exact iff_of_true rfl ⟨by simp, by simp⟩
  · have hback : (vs.map (substitute standardWords)).map (substitute standardWords) = vs ↔ ∀ v ∈ vs, v ∉ oneWay := by
      have hfixed := List.map_inj_left (l := vs) (f := substitute standardWords ∘ substitute standardWords) (g := id)
      rw [List.map_id] at hfixed
      rw [List.map_map, hfixed]
      exact forall₂_congr fun v _ => substitute_substitute_eq_iff
    rw [List.map_append, List.map_singleton, closing_concat, List.map_append, List.map_singleton, closing_concat,
      List.append_singleton_inj, hback, closeWord_substitute_eq_iff, List.dropLast_concat, List.getLast?_concat]
    simp

/-- The standard conjugation undoes itself on a text without marks that starts and ends with a space, has none
    of the four words that no pair writes, and does not close with `I`. -/
theorem standard_apply_apply (hmark : mark ∉ t) (hstart : t.head? = some ' ') (hend : t.getLast? = some ' ')
    (hwords : ∀ w ∈ oneWay, w ∉ words t) (hclose : ¬ pad ['I'] <:+ t) :
    standard.apply (standard.apply t) = t := by
  obtain ⟨ws, hws, rfl⟩ := exists_plain hmark hstart hend
  have hfree : ∀ w ∈ ws, w ∉ oneWay := fun w hw hone => by
    refine hwords w hone ?_
    rw [words_spaced (unspaced_of_plain hws)]
    exact List.mem_cons_of_mem _ (List.mem_append_left _ hw)
  refine (standard_apply_apply_spaced_iff hws).mpr ⟨fun w hw => hfree w (List.mem_of_mem_dropLast hw), ?_⟩
  intro w hw hlast
  obtain ⟨vs, rfl⟩ := List.getLast?_eq_some_iff.mp hw
  have hcases : ∀ v ∈ oneWayLast, v = ['I'] ∨ v ∈ oneWay := by decide
  rcases hcases w hlast with rfl | hone
  · exact hclose ⟨opened vs, (spaced_concat vs ['I']).symm⟩
  · exact hfree w List.mem_concat_self hone

/-- Words of both kinds, a run of spaces, and a closing `YOU`, which goes through `ME`. -/
theorem standard_apply_apply_you :
    standard.apply " I AM  SURE MYSELF WAS YOU ".toList = " YOU ARE  SURE YOURSELF WERE ME ".toList ∧
    standard.apply (standard.apply " I AM  SURE MYSELF WAS YOU ".toList) = " I AM  SURE MYSELF WAS YOU ".toList := by
  let ws := ["I", "AM", "", "SURE", "MYSELF", "WAS", "YOU"].map String.toList
  have hws : ∀ w ∈ ws, Plain w := by decide
  have ht : " I AM  SURE MYSELF WAS YOU ".toList = spaced ws := by decide
  refine ⟨?_, standard_apply_apply (by decide) rfl rfl (by decide) (by decide)⟩
  rw [ht, apply_spaced standard_wordwise hws]
  decide

end Conjugation

end Dialogue
