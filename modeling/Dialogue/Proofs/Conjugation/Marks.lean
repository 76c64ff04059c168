import Dialogue.Proofs.Conjugation.Table
import Mathlib.Data.List.DropRight

/-! # How far a mark protects

A swap writes its mark behind the last word of its replacement. The subject of a later swap has no mark in
it, so it never takes in that last word; but it may end at a word of the replacement before the last. A pair
at the end of a table therefore changes no text without its subject, unless the last word of the subject
stands in an earlier replacement before the last word there (`apply_concat`). Replacements of one word leave
no room for that. -/

namespace Dialogue
open Text

namespace Text
variable {u v before after : Text}

theorem trim_ne_nil_of_mem {c : Char} (hc : c ∈ u) (hvisible : isBlank c = false) : u.trim ≠ [] := by
  intro h
  have hrest : ∀ d ∈ u.dropWhile isBlank, isBlank d = true := List.rdropWhile_eq_nil_iff.mp h
  have hall : u.dropWhile isBlank = [] := by
    rw [← List.dropWhile_idempotent isBlank u]
    exact List.dropWhile_eq_nil_iff.mpr hrest
  rw [List.dropWhile_eq_nil_iff.mp hall c hc] at hvisible
  cases hvisible

theorem infix_append_cons_of_notMem {c : Char} (hc : c ∉ u) (h : u <:+: before ++ c :: after) :
    u <:+: before ∨ u <:+: after := by
  rcases List.infix_append_iff.mp h with h | h | ⟨l, r, rfl, hl, hr⟩
  · exact Or.inl h
  · refine Or.inr ((List.infix_cons_iff.mp h).elim (fun hp => ?_) id)
    cases u with
    | nil => exact List.nil_infix
    | cons d u => exact absurd ((List.cons_prefix_cons.mp hp).1 ▸ List.mem_cons_self) hc
  · cases r with
    | nil => exact Or.inl (by simpa using hl.isInfix)
    | cons d r => exact absurd ((List.cons_prefix_cons.mp hr).1 ▸ by simp) hc

/-- A phrase that ends together with `v` ends at a word of `v ++ ' ' :: after` before the last. -/
theorem exists_mem_dropLast_words {stem : Text} (h : stem ++ ' ' :: u = before ++ ' ' :: v) (after : Text) :
    ∃ l ∈ (words u).getLast?, l ∈ (words (v ++ ' ' :: after)).dropLast := by
  have hwords : words stem ++ words u = words before ++ words v := by
    rw [← words_append_space, h, words_append_space]
  have hend : (words u).getLast? = (words v).getLast? := by
    rw [← List.getLast?_append_of_ne_nil (words stem) (words_ne_nil u), hwords,
      List.getLast?_append_of_ne_nil (words before) (words_ne_nil v)]
  obtain ⟨l, hl⟩ := Option.ne_none_iff_exists'.mp (mt List.getLast?_eq_none_iff.mp (words_ne_nil u))
  refine ⟨l, hl, ?_⟩
  rw [words_append_space, List.dropLast_append_of_ne_nil (words_ne_nil after)]
  exact List.mem_append_left _ (List.mem_of_getLast? (hend ▸ hl))

/-- A padded phrase that occurs in a text followed by the words `v` occurs in the text itself, unless it ends
    at a word of `v` before the last. -/
theorem pad_infix_append (hlast : ∀ l ∈ (words u).getLast?, l ∉ (words v).dropLast)
    (h : pad u <:+: before ++ ' ' :: v) : pad u <:+: before ++ [' '] := by
  obtain ⟨a, b, hab⟩ := h
  have hcut : (a ++ ' ' :: u) ++ (' ' :: b) = before ++ ' ' :: v := by simpa [pad] using hab
  have hmeet : a ++ ' ' :: u = before → pad u <:+: before ++ [' '] := fun h => ⟨a, [], by simp [← h, pad]⟩
  rcases List.append_eq_append_iff.mp hcut with ⟨rest, hbefore, hb⟩ | ⟨rest, ha, hv⟩
  · cases rest with
    | nil => exact hmeet (hbefore.trans (List.append_nil _)).symm
    | cons c rest =>
      obtain ⟨rfl, rfl⟩ := List.cons.inj hb
      exact ⟨a, rest ++ [' '], by simp [hbefore, pad]⟩
  · cases rest with
    | nil => exact hmeet (ha.trans (List.append_nil _))
    | cons c rest =>
      -- The phrase ends among the words, where a space follows.
      obtain ⟨rfl, rfl⟩ := List.cons.inj hv
      obtain ⟨l, hl, hmem⟩ := exists_mem_dropLast_words ha b
      exact absurd hmem (hlast l hl)

end Text

/-! ### What the swaps write -/

namespace Swap
variable {s : Swap} {t u v w : Text}

/-- A phrase without a mark that occurs after a swap occurred before it, unless it ends at a word of the
    replacement before the last. -/
theorem infix_of_infix_apply (hsubject : s.subject = pad w)
    (hreplacement : s.replacement = pad (v ++ [Conjugation.mark])) (hmark : Conjugation.mark ∉ u)
    (hlast : ∀ l ∈ (words u).getLast?, l ∉ (words v).dropLast) (h : pad u <:+: s.apply t) : pad u <:+: t := by
  have hbody : s.replacement.body = ' ' :: (v ++ [Conjugation.mark]) := hreplacement ▸ body_pad_concat v (by decide)
  have hpadding : s.replacement.padding = [' '] := hreplacement ▸ padding_pad_concat v (by decide)
  have hpad : Conjugation.mark ∉ pad u := by simpa [pad, Conjugation.mark] using hmark
  induction t using Swap.apply.induct (s := s) with
  | case1 t ho => rwa [apply_of_none ho] at h
  | case2 t o ho _ ih =>
    have ht : t = o.before ++ [' '] ++ (w ++ [' ']) ++ o.after := by
      rw [eq_of_occurrence? ho, hsubject, pad]
      simp
    have hsplit : s.apply t = (o.before ++ ' ' :: v) ++ Conjugation.mark :: s.apply (' ' :: o.after) := by
      rw [apply_of_some ho, hbody, hpadding]
      simp
    rw [hsplit] at h
    rcases infix_append_cons_of_notMem hpad h with h | h
    · refine (pad_infix_append hlast h).trans ⟨[], w ++ [' '] ++ o.after, ?_⟩
      rw [ht]
      simp
    · rw [hpadding] at ih
      refine (ih h).trans ⟨o.before ++ [' '] ++ w, [], ?_⟩
      rw [ht]
      simp

end Swap

namespace Conjugation
variable {c c' : Conjugation} {ps : List (Text × Text)} {p : Text × Text} {t u : Text}

/-- A phrase that a pair may name: it has a visible character, no mark and no space at either end. -/
structure Phrase (p : Text) : Prop where
  visible : ∃ c ∈ p, isBlank c = false
  mark : mark ∉ p
  start : p.head? ≠ some ' '
  stop : p.getLast? ≠ some ' '

theorem any_visible_iff {p : Text} : p.any (fun c => !isBlank c) = true ↔ ∃ c ∈ p, isBlank c = false := by
  simp [List.any_eq_true]

instance (p : Text) : Decidable (Phrase p) :=
  decidable_of_iff (p.any (fun c => !isBlank c) = true ∧ mark ∉ p ∧ p.head? ≠ some ' ' ∧ p.getLast? ≠ some ' ')
    ⟨fun ⟨h, hm, hs, he⟩ => ⟨any_visible_iff.mp h, hm, hs, he⟩,
      fun h => ⟨any_visible_iff.mpr h.visible, h.mark, h.start, h.stop⟩⟩

/-- Pairs of padded phrases. -/
def padded (ps : List (Text × Text)) : List (Text × Text) := ps.map fun p => (pad p.1, pad p.2)

theorem Phrase.ne_nil (h : Phrase u) : u ≠ [] := by
  obtain ⟨c, hc, -⟩ := h.visible
  exact List.ne_nil_of_mem hc

theorem Phrase.trim_pad (h : Phrase u) : (pad u).trim ≠ [] := by
  obtain ⟨c, hc, hvisible⟩ := h.visible
  exact trim_ne_nil_of_mem (List.mem_append_left _ (List.mem_cons_of_mem _ hc)) hvisible

theorem exists_ofPairs_padded (h : ∀ p ∈ ps, Phrase p.1) : ∃ c, ofPairs (padded ps) = .ok c := by
  refine exists_ofPairs_iff.mpr fun q hq => ?_
  obtain ⟨p, hp, rfl⟩ := List.mem_map.mp hq
  exact (h p hp).trim_pad

theorem pairs_padded (h : ofPairs (padded ps) = .ok c) (hps : ∀ p ∈ ps, Phrase p.2) :
    c.pairs = ps.map fun p => (pad p.1, pad (p.2 ++ [mark])) := by
  rw [pairs_ofPairs h, padded, List.map_map]
  refine List.map_congr_left fun p hp => ?_
  simp [withMark_pad (hps p hp).ne_nil (hps p hp).stop]

/-- One more pair is one more swap. -/
theorem swaps_concat (hpairs : c'.pairs = c.pairs ++ [p]) : ∃ s, c'.swaps = c.swaps ++ [s] ∧ s.subject = p.1 := by
  obtain ⟨swaps, last, hswaps, hinit, hlast⟩ := List.map_eq_append_iff.mp hpairs
  -- The third field of a swap is a proof, so its pair determines it.
  have hinj : Function.Injective fun s : Swap => (s.subject, s.replacement) := by
    rintro ⟨_, _, _⟩ ⟨_, _, _⟩ h
    cases h
    rfl
  obtain ⟨s, rfl, rfl⟩ := List.map_eq_singleton_iff.mp hlast
  exact ⟨s, hswaps.trans (by rw [List.map_injective_iff.mpr hinj hinit]), rfl⟩

/-- A phrase without a mark that occurs after the passes of a table occurred before them, unless it ends at a
    word of some replacement before the last. -/
theorem infix_of_infix_foldl {swaps : List Swap}
    (hpairs : swaps.map (fun s => (s.subject, s.replacement)) = ps.map fun p => (pad p.1, pad (p.2 ++ [mark])))
    (hmark : mark ∉ u) (hlast : ∀ p ∈ ps, ∀ l ∈ (words u).getLast?, l ∉ (words p.2).dropLast)
    (h : pad u <:+: swaps.foldl (fun t s => s.apply t) t) : pad u <:+: t := by
  induction ps generalizing swaps t with
  | nil =>
    rw [List.map_eq_nil_iff.mp hpairs] at h
    exact h
  | cons p ps ih =>
    obtain ⟨s, swaps, rfl, hs, hrest⟩ := List.map_eq_cons_iff.mp hpairs
    obtain ⟨hsubject, hreplacement⟩ := Prod.mk.inj hs
    rw [List.forall_mem_cons] at hlast
    exact Swap.infix_of_infix_apply hsubject hreplacement hmark hlast.1 (ih hrest hlast.2 h)

/-- In a text without its subject, a pair at the end of a table changes nothing, unless the last word of the
    subject stands in an earlier replacement before the last word there. So it never changes anything where
    the earlier replacements are single words. -/
theorem apply_concat (hps : ∀ q ∈ ps, Phrase q.1 ∧ Phrase q.2) (hp : Phrase p.1 ∧ Phrase p.2)
    (hlast : ∀ q ∈ ps, ∀ l ∈ (words p.1).getLast?, l ∉ (words q.2).dropLast) (ht : ¬ pad p.1 <:+: t) :
    ∃ c c', ofPairs (padded ps) = .ok c ∧ ofPairs (padded (ps ++ [p])) = .ok c' ∧ c'.apply t = c.apply t := by
  have hconcat : ∀ q ∈ ps ++ [p], Phrase q.1 ∧ Phrase q.2 := fun q hq =>
    (List.mem_append.mp hq).elim (hps q) fun hq => List.mem_singleton.mp hq ▸ hp
  obtain ⟨c, hc⟩ := exists_ofPairs_padded fun q hq => (hps q hq).1
  obtain ⟨c', hc'⟩ := exists_ofPairs_padded fun q hq => (hconcat q hq).1
  refine ⟨c, c', hc, hc', ?_⟩
  have hpairs := pairs_padded hc fun q hq => (hps q hq).2
  have hpairs' : c'.pairs = c.pairs ++ [(pad p.1, pad (p.2 ++ [mark]))] := by
    rw [pairs_padded hc' fun q hq => (hconcat q hq).2, hpairs, List.map_append, List.map_singleton]
  obtain ⟨s, hswaps, hsubject⟩ := swaps_concat hpairs'
  have hidle : ¬ s.subject <:+: c.swaps.foldl (fun t s => s.apply t) t := by
    rw [hsubject]
    exact mt (infix_of_infix_foldl hpairs hp.1.mark hlast) ht
  rw [apply, apply, hswaps, List.foldl_append, List.foldl_cons, List.foldl_nil,
    Swap.apply_of_none (occurrence?_eq_none_iff.mpr hidle)]

/-- The subject is the last word of an earlier replacement of two words. -/
theorem apply_concat_last : ∃ c c', ofPairs (padded [(['A'], "B D".toList)]) = .ok c ∧
    ofPairs (padded [(['A'], "B D".toList), (['D'], ['C'])]) = .ok c' ∧
    c'.apply " A X A ".toList = c.apply " A X A ".toList := by
  have hps : ∀ q ∈ [(['A'], "B D".toList)], Phrase q.1 ∧ Phrase q.2 := by decide
  have hlast : ∀ q ∈ [(['A'], "B D".toList)], ∀ l ∈ (words ['D']).getLast?, l ∉ (words q.2).dropLast := by decide
  exact apply_concat hps (p := (['D'], ['C'])) (by decide) hlast (by decide)

/-- The first word of a replacement of two words is written over by a later pair. -/
theorem apply_concat_inner : ∃ c c', ofPairs (padded [(['A'], "B D".toList)]) = .ok c ∧
    ofPairs (padded [(['A'], "B D".toList), (['B'], ['C'])]) = .ok c' ∧
    (∀ w ∈ [['A'], "B D".toList, ['B'], ['C']], Phrase w) ∧ mark ∉ " A ".toList ∧ ¬ pad ['B'] <:+: " A ".toList ∧
    c.apply " A ".toList = " B D ".toList ∧ c'.apply " A ".toList = " C D ".toList := by
  let s := marked (pad ['A']) (pad "B D".toList) ⟨'A', by decide, by decide⟩
  let s' := marked (pad ['B']) (pad ['C']) ⟨'B', by decide, by decide⟩
  have hs : s.apply " A ".toList = " B D+ ".toList := by
    rw [Swap.apply_of_some (o := ⟨[], []⟩) (by decide), Swap.apply_of_none (by decide)]
    decide
  have hs' : s'.apply " B D+ ".toList = " C+ D+ ".toList := by
    rw [Swap.apply_of_some (o := ⟨[], "D+ ".toList⟩) (by decide), Swap.apply_of_none (by decide)]
    decide
  refine ⟨⟨[s]⟩, ⟨[s, s']⟩, rfl, rfl, by decide, by decide, by decide, ?_, ?_⟩
  · rw [apply, List.foldl_cons, List.foldl_nil, hs]
    decide
  · rw [apply, List.foldl_cons, List.foldl_cons, List.foldl_nil, hs, hs']
    decide

end Conjugation

end Dialogue
