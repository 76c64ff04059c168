import Dialogue.Conjugation.Basic
import Dialogue.Proofs.Text.Words

/-! # Persons change word by word

The swaps of one word for another, run in order over a row of words, do to each word what one look-up in
the list of pairs does: a word that was written has the mark and is no subject of a later swap. -/

namespace Dialogue
open Text

namespace Text

theorem body_pad_concat (t : Text) {c : Char} (hc : c ≠ ' ') : (pad (t ++ [c])).body = ' ' :: (t ++ [c]) := by
  simp [body, dropEnd, pad, hc]

theorem padding_pad_concat (t : Text) {c : Char} (hc : c ≠ ' ') : (pad (t ++ [c])).padding = [' '] := by
  simp [padding, takeEnd, pad, hc]

theorem filter_spaced {p : Char → Bool} (hp : p ' ' = true) (ws : List Text) :
    (spaced ws).filter p = spaced (ws.map (·.filter p)) := by
  induction ws with
  | nil => simp [spaced, closed, hp]
  | cons w ws ih => rw [List.map_cons, spaced_cons, spaced_cons, List.filter_append, List.filter_cons_of_pos hp, ih]

theorem stripEnd?_append (t ending : Text) : stripEnd? ending (t ++ ending) = some t := by
  rw [stripEnd?, if_pos (List.suffix_append t ending), List.length_append, Nat.add_sub_cancel, List.take_left]

/-- A row of words that ends in a padded word ends in that word. -/
theorem eq_of_pad_suffix {v w t : Text} (hv : ' ' ∉ v) (hw : ' ' ∉ w) (h : pad v <:+ t ++ pad w) : v = w := by
  obtain ⟨s, hs⟩ := h
  have hback := congrArg List.reverse hs
  simp only [pad, List.reverse_append, List.reverse_cons, List.reverse_nil, List.nil_append, List.cons_append,
    List.append_assoc, List.cons.injEq, true_and] at hback
  have := append_space_inj (mt List.mem_reverse.mp hv) (mt List.mem_reverse.mp hw) hback
  exact List.reverse_injective this.1

end Text

namespace Conjugation

def replace (w v x : Text) : Text := if x = w then v else x

/-- The second of the first pair with a word, or else the word. -/
def substitute (ps : List (Text × Text)) (w : Text) : Text := (ps.lookup w).getD w

/-- A closing `I` is the object of its sentence. -/
def closing (ws : List Text) : List Text :=
  if ws.getLast? = some ['I'] then ws.dropLast ++ [['M', 'E']] else ws

/-- A closing word on its own. -/
def closeWord (w : Text) : Text := if w = ['I'] then ['M', 'E'] else w

structure Plain (w : Text) : Prop where
  space : ' ' ∉ w
  mark : mark ∉ w

instance (w : Text) : Decidable (Plain w) :=
  decidable_of_iff (' ' ∉ w ∧ mark ∉ w) ⟨fun h => ⟨h.1, h.2⟩, fun h => ⟨h.1, h.2⟩⟩

/-- The swaps are those of whole words for whole words. -/
structure Wordwise (c : Conjugation) (ps : List (Text × Text)) : Prop where
  pairs : c.pairs = ps.map fun p => (pad p.1, pad (p.2 ++ [mark]))
  plain : ∀ p ∈ ps, Plain p.1 ∧ Plain p.2

end Conjugation

open Conjugation

/-! ### One swap -/

namespace Swap
variable {s : Swap}

/-- What is passed over in the search for the first place stays. -/
theorem apply_append {t before : Text} (h : occurrence? s.subject (before ++ t) =
    (occurrence? s.subject t).map fun o => ⟨before ++ o.before, o.after⟩) :
    s.apply (before ++ t) = before ++ s.apply t := by
  cases ho : occurrence? s.subject t with
  | none =>
    rw [ho] at h
    rw [apply_of_none ho, apply_of_none h]
  | some o =>
    rw [ho] at h
    rw [apply_of_some ho, apply_of_some h]
    simp only [List.append_assoc]

theorem apply_spaced {w v : Text} (hsubject : s.subject = pad w) (hreplacement : s.replacement = pad (v ++ [mark]))
    (hw : ' ' ∉ w) {ws : List Text} (hws : Unspaced ws) :
    s.apply (spaced ws) = spaced (ws.map (replace w (v ++ [mark]))) := by
  have hbody : s.replacement.body = ' ' :: (v ++ [mark]) := hreplacement ▸ body_pad_concat v (by decide)
  have hpadding : s.replacement.padding = [' '] := hreplacement ▸ padding_pad_concat v (by decide)
  have hn : Unspaced [w] := fun x hx => List.mem_singleton.mp hx ▸ hw
  rw [← spaced_singleton] at hsubject
  induction ws with
  | nil =>
    refine apply_of_none ?_
    rw [hsubject]
    exact occurrence?_spaced_eq_none (List.cons_ne_nil w []) hn hws fun h => by simp at h
  | cons x ws ih =>
    by_cases hx : x = w
    · -- The closing space of what is written opens the rest of the row.
      subst hx
      have ho : occurrence? s.subject (spaced (x :: ws)) = some ⟨[], closed ws⟩ :=
        hsubject ▸ occurrence?_spaced_append hn hws
      rw [apply_of_some ho, hbody, hpadding, List.map_cons, spaced_cons, ← ih hws.tail, replace, if_pos rfl]
      rfl
    · have hfirst : ¬ [w] <+: x :: ws := fun h => hx (List.cons_prefix_cons.mp h).1.symm
      have ho := occurrence?_spaced_cons hn hws hfirst
      rw [spaced_cons x ws, ← hsubject] at ho
      rw [List.map_cons, spaced_cons, spaced_cons, apply_append ho, ih hws.tail, replace, if_neg hx]

end Swap

/-! ### All swaps in order -/

namespace Conjugation
variable {ps : List (Text × Text)} {ws : List Text} {w : Text}

/-- What the swaps of these pairs make of a word before the marks go. -/
def rewrite (ps : List (Text × Text)) (w : Text) : Text :=
  ps.foldl (fun w p => replace p.1 (p.2 ++ [mark]) w) w

theorem unspaced_replace {v u : Text} (hu : ' ' ∉ u) (hws : Unspaced ws) :
    Unspaced (ws.map (replace v (u ++ [mark]))) := by
  intro x hx
  obtain ⟨w, hw, rfl⟩ := List.mem_map.mp hx
  rw [replace]
  split
  · simpa [mark] using hu
  · exact hws w hw

theorem foldl_apply_spaced {swaps : List Swap}
    (hpairs : swaps.map (fun s => (s.subject, s.replacement)) = ps.map fun p => (pad p.1, pad (p.2 ++ [mark])))
    (hps : ∀ p ∈ ps, Plain p.1 ∧ Plain p.2) (hws : Unspaced ws) :
    swaps.foldl (fun t s => s.apply t) (spaced ws) = spaced (ws.map (rewrite ps)) := by
  induction ps generalizing swaps ws with
  | nil =>
    have hid : rewrite [] = id := rfl
    rw [List.map_eq_nil_iff.mp hpairs, hid, List.map_id]
    rfl
  | cons p ps ih =>
    obtain ⟨s, swaps, rfl, hs, hrest⟩ := List.map_eq_cons_iff.mp hpairs
    obtain ⟨hsubject, hreplacement⟩ := Prod.mk.inj hs
    obtain ⟨hp, hq⟩ := hps p List.mem_cons_self
    have hps' : ∀ q ∈ ps, Plain q.1 ∧ Plain q.2 := fun q hq => hps q (List.mem_cons_of_mem p hq)
    rw [List.foldl_cons, Swap.apply_spaced hsubject hreplacement hp.space hws,
      ih hrest hps' (unspaced_replace hq.space hws), List.map_map]
    rfl

/-- A word with the mark is no subject. -/
theorem rewrite_of_mark (hps : ∀ p ∈ ps, Plain p.1 ∧ Plain p.2) (hw : mark ∈ w) : rewrite ps w = w := by
  induction ps with
  | nil => rfl
  | cons p ps ih =>
    have hne : w ≠ p.1 := fun h => (hps p List.mem_cons_self).1.mark (h ▸ hw)
    rw [rewrite, List.foldl_cons, replace, if_neg hne]
    exact ih fun q hq => hps q (List.mem_cons_of_mem p hq)

theorem filter_mark_of_plain (hw : mark ∉ w) : w.filter (· ≠ mark) = w := by
  refine List.filter_eq_self.mpr fun c hc => ?_
  simpa using fun h : c = mark => hw (h ▸ hc)

/-- Of all pairs, only the first with the word counts. -/
theorem filter_rewrite (hps : ∀ p ∈ ps, Plain p.1 ∧ Plain p.2) (hw : mark ∉ w) :
    (rewrite ps w).filter (· ≠ mark) = substitute ps w := by
  induction ps with
  | nil => exact filter_mark_of_plain hw
  | cons p ps ih =>
    obtain ⟨v, u⟩ := p
    have hps' : ∀ q ∈ ps, Plain q.1 ∧ Plain q.2 := fun q hq => hps q (List.mem_cons_of_mem _ hq)
    have hu : Plain u := (hps (v, u) List.mem_cons_self).2
    rw [rewrite, List.foldl_cons, ← rewrite, replace, substitute, List.lookup_cons]
    by_cases hwv : w = v
    · rw [if_pos hwv, rewrite_of_mark hps' (by simp), List.filter_append, filter_mark_of_plain hu.mark]
      simp [hwv]
    · rw [if_neg hwv, ih hps', beq_false_of_ne hwv]
      rfl

/-- A word stays, or a pair names it and what becomes of it. -/
theorem substitute_eq_or_mem (ps : List (Text × Text)) (w : Text) :
    substitute ps w = w ∨ (w, substitute ps w) ∈ ps := by
  cases h : ps.lookup w with
  | none => exact Or.inl (by rw [substitute, h, Option.getD_none])
  | some v =>
    obtain ⟨before, after, hps, -⟩ := List.lookup_eq_some_iff.mp h
    rw [substitute, h, Option.getD_some, hps]
    exact Or.inr (List.mem_append_right _ List.mem_cons_self)

theorem substitute_cases {motive : Text → Prop} (hps : ∀ p ∈ ps, motive p.2) (hw : motive w) :
    motive (substitute ps w) := by
  rcases substitute_eq_or_mem ps w with h | h
  · rwa [h]
  · exact hps _ h

theorem plain_substitute (hps : ∀ p ∈ ps, Plain p.1 ∧ Plain p.2) (hw : Plain w) : Plain (substitute ps w) :=
  substitute_cases (fun p hp => (hps p hp).2) hw

theorem closing_concat (ws : List Text) (w : Text) : closing (ws ++ [w]) = ws ++ [closeWord w] := by
  rw [closing, List.getLast?_concat, List.dropLast_concat, closeWord]
  by_cases hw : w = ['I']
  · simp [hw]
  · simp [hw]

theorem closing_ne_nil (h : ws ≠ []) : closing ws ≠ [] := by
  rcases List.eq_nil_or_concat' ws with rfl | ⟨vs, w, rfl⟩
  · exact absurd rfl h
  · rw [closing_concat]
    exact List.append_ne_nil_of_right_ne_nil _ (List.cons_ne_nil _ _)

theorem closeWithMe_append (t : Text) : closeWithMe (t ++ pad ['I']) = t ++ pad ['M', 'E'] := by
  rw [closeWithMe, stripEnd?_append]

theorem closeWithMe_of_not_suffix {t : Text} (h : ¬ pad ['I'] <:+ t) : closeWithMe t = t := by
  rw [closeWithMe, stripEnd?, if_neg h]

theorem closeWithMe_spaced (hws : Unspaced ws) : closeWithMe (spaced ws) = spaced (closing ws) := by
  rcases List.eq_nil_or_concat' ws with rfl | ⟨vs, w, rfl⟩
  · rfl
  · rw [closing_concat, spaced_concat, spaced_concat, closeWord]
    by_cases hw : w = ['I']
    · rw [hw, closeWithMe_append, if_pos rfl]
    · have hend : ¬ pad ['I'] <:+ opened vs ++ pad w := fun h =>
        hw (eq_of_pad_suffix (by decide) (hws w (by simp)) h).symm
      rw [closeWithMe_of_not_suffix hend, if_neg hw]

/-- What plain words become is plain. -/
theorem plain_map_substitute (hps : ∀ p ∈ ps, Plain p.1 ∧ Plain p.2) (hws : ∀ w ∈ ws, Plain w) :
    ∀ w ∈ ws.map (substitute ps), Plain w := by
  intro x hx
  obtain ⟨w, hw, rfl⟩ := List.mem_map.mp hx
  exact plain_substitute hps (hws w hw)

theorem plain_closing (hws : ∀ w ∈ ws, Plain w) : ∀ w ∈ closing ws, Plain w := by
  rcases List.eq_nil_or_concat' ws with rfl | ⟨vs, v, rfl⟩
  · exact hws
  · rw [closing_concat]
    intro w hw
    rcases List.mem_append.mp hw with hw | hw
    · exact hws w (List.mem_append_left _ hw)
    · rw [List.mem_singleton.mp hw, closeWord]
      split
      · decide
      · exact hws v List.mem_concat_self

theorem unspaced_of_plain (hws : ∀ w ∈ ws, Plain w) : Unspaced ws := fun w hw => (hws w hw).space

theorem apply_spaced {c : Conjugation} (h : c.Wordwise ps) (hws : ∀ w ∈ ws, Plain w) :
    c.apply (spaced ws) = spaced (closing (ws.map (substitute ps))) := by
  have hwords : (ws.map (rewrite ps)).map (·.filter (· ≠ mark)) = ws.map (substitute ps) := by
    rw [List.map_map]
    exact List.map_congr_left fun w hw => filter_rewrite h.plain (hws w hw).mark
  have hout : Unspaced (ws.map (substitute ps)) := unspaced_of_plain (plain_map_substitute h.plain hws)
  rw [apply, foldl_apply_spaced h.pairs h.plain (unspaced_of_plain hws), filter_spaced (by decide), hwords,
    closeWithMe_spaced hout]

/-- A text without marks that starts and ends with a space is a row of plain words. -/
theorem exists_plain {t : Text} (hmark : mark ∉ t) (hstart : t.head? = some ' ') (hend : t.getLast? = some ' ') :
    ∃ ws, (∀ w ∈ ws, Plain w) ∧ t = spaced ws := by
  obtain ⟨ws, hws, rfl⟩ := exists_spaced hstart hend
  exact ⟨ws, fun w hw => ⟨hws w hw, fun hm => hmark (mem_spaced hw hm)⟩, rfl⟩

/-! ### The standard swaps -/

/-- The sixteen pairs of words of the classic conversation. -/
def standardWords : List (Text × Text) := [
  ("ARE", "AM"), ("AM", "ARE"), ("WERE", "WAS"), ("WAS", "WERE"), ("YOU", "I"), ("I", "YOU"), ("YOUR", "MY"),
  ("MY", "YOUR"), ("IVE", "YOUVE"), ("YOUVE", "IVE"), ("IM", "YOURE"), ("ME", "YOU"), ("US", "YOU"),
  ("WE", "YOU"), ("YOURSELF", "MYSELF"), ("MYSELF", "YOURSELF")].map fun p => (p.1.toList, p.2.toList)

theorem standard_wordwise : standard.Wordwise standardWords where
  pairs := by decide
  plain := by decide

end Conjugation

end Dialogue
