import Mathlib.Data.List.Basic
import Mathlib.Data.List.Infix
import Dialogue.Text.Occurrence

/-! # Words

A padded text is a row of words with a space before each and one at the end. To search one such row for
another is to look for a run of words among words: a search never stops inside a word. -/

namespace Dialogue.Text

def words (t : Text) : List Text := t.splitOn ' '

/-- Words with a space after each. -/
def closed (ws : List Text) : Text := ws.flatMap (· ++ [' '])

/-- Words with a space before each and one at the end. -/
def spaced (ws : List Text) : Text := ' ' :: closed ws

/-- Words with a space before each. -/
def opened (ws : List Text) : Text := ws.flatMap (' ' :: ·)

def Unspaced (ws : List Text) : Prop := ∀ w ∈ ws, ' ' ∉ w

section Rows
variable {w : Text} {ws : List Text}

theorem closed_cons (w : Text) (ws : List Text) : closed (w :: ws) = w ++ spaced ws := by
  rw [closed, List.flatMap_cons, List.append_assoc]
  rfl

theorem closed_append (ws vs : List Text) : closed (ws ++ vs) = closed ws ++ closed vs := List.flatMap_append

theorem spaced_cons (w : Text) (ws : List Text) : spaced (w :: ws) = (' ' :: w) ++ spaced ws := by
  rw [spaced, closed_cons]
  rfl

theorem opened_cons (w : Text) (ws : List Text) : opened (w :: ws) = (' ' :: w) ++ opened ws := List.flatMap_cons

theorem spaced_concat (ws : List Text) (w : Text) : spaced (ws ++ [w]) = opened ws ++ pad w := by
  induction ws with
  | nil => simp [spaced, closed, opened, pad]
  | cons v ws ih => rw [List.cons_append, spaced_cons, opened_cons, ih, List.append_assoc]

theorem spaced_singleton (w : Text) : spaced [w] = pad w := spaced_concat [] w

theorem pad_join (h : ws ≠ []) : pad (join [' '] ws) = spaced ws := by
  induction ws with
  | nil => exact absurd rfl h
  | cons w ws ih =>
    by_cases hws : ws = []
    · rw [hws, join, List.intercalate_singleton, spaced_singleton]
    · rw [spaced_cons, ← ih hws, join, List.intercalate_cons_of_ne_nil hws, join, pad, pad]
      simp

theorem mem_spaced (hw : w ∈ ws) {c : Char} (hc : c ∈ w) : c ∈ spaced ws := by
  refine List.mem_cons_of_mem _ (List.mem_flatMap.mpr ⟨w, hw, ?_⟩)
  exact List.mem_append_left _ hc

theorem pad_eq_spaced (t : Text) : pad t = spaced (words t) := by
  rw [words, ← pad_join (List.splitOn_ne_nil ' ' t), join, List.intercalate_splitOn]

theorem words_ne_nil (t : Text) : words t ≠ [] := List.splitOn_ne_nil ' ' t

theorem words_append_space (s t : Text) : words (s ++ ' ' :: t) = words s ++ words t :=
  List.splitOnP_append_cons s t rfl

theorem byteLength_opened (ws : List Text) : byteLength (opened ws) = byteLength ws.flatten + ws.length := by
  induction ws with
  | nil => rfl
  | cons w ws ih =>
    have hspace : byteLength (' ' :: w) = 1 + byteLength w := rfl
    rw [opened_cons, byteLength_append, hspace, ih, List.flatten_cons, byteLength_append, List.length_cons]
    omega

theorem unspaced_words (t : Text) : Unspaced (words t) := by
  intro w hw
  induction t generalizing w with
  | nil =>
    rw [words, List.splitOn_nil, List.mem_singleton] at hw
    rw [hw]
    exact List.not_mem_nil
  | cons c t ih =>
    rw [words, List.splitOn_cons_eq_if_modifyHead] at hw
    split at hw
    · rcases List.mem_cons.mp hw with rfl | hw
      · exact List.not_mem_nil
      · exact ih w hw
    · rename_i hc
      obtain ⟨v, vs, hvs⟩ := List.exists_cons_of_ne_nil (words_ne_nil t)
      rw [← words, hvs, List.modifyHead_cons] at hw
      rcases List.mem_cons.mp hw with rfl | hw
      · have hv : ' ' ∉ v := ih v (hvs ▸ List.mem_cons_self)
        exact List.not_mem_cons_of_ne_of_not_mem (fun h => hc (beq_iff_eq.mpr h.symm)) hv
      · exact ih w (hvs ▸ List.mem_cons_of_mem v hw)

theorem Unspaced.tail (h : Unspaced (w :: ws)) : Unspaced ws := fun v hv => h v (List.mem_cons_of_mem w hv)

theorem Unspaced.head (h : Unspaced (w :: ws)) : ' ' ∉ w := h w List.mem_cons_self

/-! A text with a space at either end is such a row; cut at its spaces, it has an empty piece at either
end. -/

theorem exists_spaced {t : Text} (hstart : t.head? = some ' ') (hend : t.getLast? = some ' ') :
    ∃ ws, Unspaced ws ∧ t = spaced ws := by
  obtain ⟨u, rfl⟩ := List.head?_eq_some_iff.mp hstart
  rcases List.eq_nil_or_concat' u with rfl | ⟨v, c, rfl⟩
  · exact ⟨[], fun w hw => absurd hw List.not_mem_nil, rfl⟩
  · rw [← List.cons_append, List.getLast?_concat] at hend
    cases hend
    exact ⟨words v, unspaced_words v, pad_eq_spaced v⟩

theorem join_concat_nil (ws : List Text) : join [' '] (ws ++ [[]]) = closed ws := by
  induction ws with
  | nil => rfl
  | cons w ws ih =>
    rw [List.cons_append, join, List.intercalate_cons_of_ne_nil (by simp), ← join, ih, closed_cons, List.append_assoc]
    rfl

theorem join_edged (ws : List Text) : join [' '] ([] :: (ws ++ [[]])) = spaced ws := by
  rw [join, List.intercalate_cons_of_ne_nil (by simp), ← join, join_concat_nil]
  rfl

theorem words_spaced (h : Unspaced ws) : words (spaced ws) = [] :: (ws ++ [[]]) := by
  rw [words, ← join_edged ws, join]
  refine List.splitOn_intercalate ' ' (fun w hw => ?_) (by simp)
  rcases List.mem_cons.mp hw with rfl | hw
  · exact List.not_mem_nil
  · rcases List.mem_append.mp hw with hw | hw
    · exact h w hw
    · rw [List.mem_singleton.mp hw]
      exact List.not_mem_nil

theorem spaced_inj {vs : List Text} (hvs : Unspaced vs) (hws : Unspaced ws) : spaced vs = spaced ws ↔ vs = ws := by
  refine ⟨fun h => ?_, congrArg spaced⟩
  have hwords := congrArg words h
  rw [words_spaced hvs, words_spaced hws] at hwords
  exact List.append_cancel_right (List.tail_eq_of_cons_eq hwords)

end Rows

/-! ### Looking for words among words -/

/-- A run of words among others, with no run of them before it. -/
structure LeftmostRun (needle ws before after : List Text) : Prop where
  eq : ws = before ++ needle ++ after
  leftmost : ∀ before' after', ws = before' ++ needle ++ after' → before.length ≤ before'.length

section Search
variable {needle ws before after : List Text}

theorem exists_leftmostRun (h : needle <:+: ws) : ∃ before after, LeftmostRun needle ws before after := by
  induction ws with
  | nil =>
    obtain rfl := List.infix_nil.mp h
    exact ⟨[], [], rfl, fun _ _ _ => Nat.zero_le _⟩
  | cons w ws ih =>
    by_cases hfirst : needle <+: w :: ws
    · obtain ⟨after, hafter⟩ := hfirst
      exact ⟨[], after, hafter.symm, fun _ _ _ => Nat.zero_le _⟩
    · obtain ⟨before, after, heq, hleft⟩ := ih ((List.infix_cons_iff.mp h).resolve_left hfirst)
      refine ⟨w :: before, after, congrArg (w :: ·) heq, fun before' after' h' => ?_⟩
      cases before' with
      | nil => exact absurd ⟨after', h'.symm⟩ hfirst
      | cons v before' => exact Nat.succ_le_succ (hleft before' after' (List.tail_eq_of_cons_eq h'))

theorem append_space_inj {w v s t : Text} (hw : ' ' ∉ w) (hv : ' ' ∉ v) (h : w ++ ' ' :: s = v ++ ' ' :: t) :
    w = v ∧ s = t := by
  induction w generalizing v with
  | nil =>
    cases v with
    | nil => exact ⟨rfl, List.tail_eq_of_cons_eq h⟩
    | cons d v => exact absurd (List.head_eq_of_cons_eq h ▸ List.mem_cons_self) hv
  | cons c w ih =>
    cases v with
    | nil => exact absurd (List.head_eq_of_cons_eq h ▸ List.mem_cons_self) hw
    | cons d v =>
      obtain ⟨hwv, hst⟩ := ih (fun hm => hw (List.mem_cons_of_mem c hm)) (fun hm => hv (List.mem_cons_of_mem d hm))
        (List.tail_eq_of_cons_eq h)
      exact ⟨by rw [List.head_eq_of_cons_eq h, hwv], hst⟩

/-- Words at the start of a text of words are its first words. -/
theorem closed_eq_append_iff (hn : Unspaced needle) (hws : Unspaced ws) {rest : Text} :
    closed ws = closed needle ++ rest ↔ ∃ vs, ws = needle ++ vs ∧ rest = closed vs := by
  constructor
  · intro h
    induction needle generalizing ws with
    | nil => exact ⟨ws, rfl, h.symm⟩
    | cons n needle ih =>
      cases ws with
      | nil => simp [closed] at h
      | cons w ws =>
        rw [closed_cons, closed_cons, List.append_assoc] at h
        obtain ⟨rfl, hclosed⟩ := append_space_inj hws.head hn.head h
        obtain ⟨vs, rfl, hrest⟩ := ih hn.tail hws.tail hclosed
        exact ⟨vs, rfl, hrest⟩
  · rintro ⟨vs, rfl, rfl⟩
    exact closed_append needle vs

theorem afterStart?_spaced_eq_some_iff (hn : Unspaced needle) (hws : Unspaced ws) {rest : Text} :
    afterStart? (spaced needle) (spaced ws) = some rest ↔ ∃ vs, ws = needle ++ vs ∧ rest = closed vs := by
  rw [afterStart?_eq_some_iff, ← closed_eq_append_iff hn hws, spaced, spaced, List.cons_append, List.cons_inj_right]

theorem afterStart?_spaced_eq_none (hn : Unspaced needle) (hws : Unspaced ws) (h : ¬ needle <+: ws) :
    afterStart? (spaced needle) (spaced ws) = none := by
  refine Option.eq_none_iff_forall_ne_some.mpr fun rest hrest => h ?_
  obtain ⟨vs, hvs, -⟩ := (afterStart?_spaced_eq_some_iff hn hws).mp hrest
  exact ⟨vs, hvs.symm⟩

/-- A search passes over a text without the character that the needle starts with. -/
theorem occurrence?_append_of_notMem {c : Char} {w : Text} (hw : c ∉ w) (n t : Text) : occurrence? (c :: n) (w ++ t) =
    (occurrence? (c :: n) t).map fun o => ⟨w ++ o.before, o.after⟩ := by
  induction w with
  | nil => simp
  | cons d w ih =>
    have hd : afterStart? (c :: n) (d :: (w ++ t)) = none := by
      rw [afterStart?, if_neg (fun hd : c = d => hw (hd ▸ List.mem_cons_self))]
    rw [List.cons_append, occurrence?, hd, ih fun hm => hw (List.mem_cons_of_mem d hm)]
    cases occurrence? (c :: n) t <;> rfl

theorem occurrence?_spaced_append (hn : Unspaced needle) (hws : Unspaced (needle ++ after)) :
    occurrence? (spaced needle) (spaced (needle ++ after)) = some ⟨[], closed after⟩ := by
  have h := (afterStart?_spaced_eq_some_iff hn hws).mpr ⟨after, rfl, rfl⟩
  rw [spaced] at h ⊢
  rw [spaced] at h ⊢
  rw [occurrence?, h]

/-- The words that are looked for do not start here, so the search goes on behind the next word. -/
theorem occurrence?_spaced_cons (hn : Unspaced needle) {w : Text} (hws : Unspaced (w :: ws))
    (h : ¬ needle <+: w :: ws) : occurrence? (spaced needle) (spaced (w :: ws)) =
      (occurrence? (spaced needle) (spaced ws)).map fun o => ⟨' ' :: w ++ o.before, o.after⟩ := by
  have hnone := afterStart?_spaced_eq_none hn hws h
  rw [spaced_cons, List.cons_append] at hnone ⊢
  rw [occurrence?, hnone]
  have hskip := occurrence?_append_of_notMem hws.head (closed needle) (spaced ws)
  rw [← spaced] at hskip
  dsimp only
  rw [hskip, Option.map_map]
  rfl

theorem occurrence?_of_leftmostRun (hn : Unspaced needle) (hws : Unspaced ws)
    (h : LeftmostRun needle ws before after) :
    occurrence? (spaced needle) (spaced ws) = some ⟨opened before, closed after⟩ := by
  induction before generalizing ws with
  | nil =>
    obtain ⟨rfl, -⟩ := h
    exact occurrence?_spaced_append hn hws
  | cons w before ih =>
    obtain ⟨heq, hleft⟩ := h
    cases ws with
    | nil => cases heq
    | cons v ws =>
      obtain ⟨rfl, rfl⟩ := List.cons.inj heq
      have hfirst : ¬ needle <+: v :: (before ++ needle ++ after) := fun ⟨vs, hvs⟩ => by
        have := hleft [] vs hvs.symm
        exact absurd this (Nat.not_succ_le_zero _)
      have hrest : LeftmostRun needle (before ++ needle ++ after) before after := by
        refine ⟨rfl, fun before' after' h' => ?_⟩
        exact Nat.le_of_succ_le_succ (hleft (v :: before') after' (congrArg (v :: ·) h'))
      rw [occurrence?_spaced_cons hn hws hfirst, ih hws.tail hrest, opened_cons]
      rfl

theorem occurrence?_spaced_eq_none (hne : needle ≠ []) (hn : Unspaced needle) (hws : Unspaced ws)
    (h : ¬ needle <:+: ws) : occurrence? (spaced needle) (spaced ws) = none := by
  induction ws with
  | nil =>
    have hnone := afterStart?_spaced_eq_none hn hws fun hp => hne (List.prefix_nil.mp hp)
    rw [spaced, spaced] at *
    rw [occurrence?, hnone]
    rfl
  | cons w ws ih =>
    have hfirst : ¬ needle <+: w :: ws := fun hp => h hp.isInfix
    have hrest : ¬ needle <:+: ws := fun hi => h (hi.trans (List.suffix_cons w ws).isInfix)
    rw [occurrence?_spaced_cons hn hws hfirst, ih hws.tail hrest]
    rfl

theorem occurrence?_spaced_eq_none_iff (hne : needle ≠ []) (hn : Unspaced needle) (hws : Unspaced ws) :
    occurrence? (spaced needle) (spaced ws) = none ↔ ¬ needle <:+: ws := by
  refine ⟨fun hnone h => ?_, occurrence?_spaced_eq_none hne hn hws⟩
  obtain ⟨before, after, hrun⟩ := exists_leftmostRun h
  rw [occurrence?_of_leftmostRun hn hws hrun] at hnone
  cases hnone

end Search

end Dialogue.Text
