import Dialogue.Proofs.Conjugation.Words
import Dialogue.Proofs.Conversation.Rotation

/-! # What a reply says, word by word

A query that is a row of words goes to the first rule with a run of its words there. The words behind the
leftmost run go into the reply, each changed on its own. -/

namespace Dialogue
open Text

namespace Query
variable {input : Text} {ws : List Text}

/-- The words of a query have no mark in them. -/
theorem plain_of_normalize (hq : normalize input = spaced ws) (hws : Unspaced ws) :
    ∀ w ∈ ws, Conjugation.Plain w := by
  refine fun w hw => ⟨hws w hw, fun hm => ?_⟩
  have hkeeps : keeps Conjugation.mark = true := keeps_of_mem_normalize (hq ▸ mem_spaced hw hm)
  exact absurd hkeeps (by decide)

theorem isBare_spaced_nil : isBare (spaced []) = true := rfl

theorem isBare_spaced_cons (w : Text) (ws : List Text) : isBare (spaced (w :: ws)) = false := by
  simp [isBare, spaced, closed_cons]

end Query

/-! ### Filling a template -/

namespace Template

theorem isOpen_concat (t : Text) : isOpen (t ++ [Script.wildcard]) = true := by
  simp [isOpen]

theorem ask_append_spaced (t : Text) {ws : List Text} (hne : ws ≠ []) :
    ask (t ++ spaced ws) = t ++ ' ' :: join [' '] ws ++ ['?'] := by
  have hspaced : t ++ spaced ws = (t ++ ' ' :: join [' '] ws) ++ [' '] := by
    rw [← pad_join hne, pad, List.append_assoc]
  rw [hspaced, ask, List.getLast?_concat, if_pos rfl, List.dropLast_concat]

end Template

namespace Options
variable {o : Options} {ws : List Text}

theorem fill_words {ps : List (Text × Text)} (ho : o.conjugation.Wordwise ps) (t : Text) (hne : ws ≠ [])
    (hws : ∀ w ∈ ws, Conjugation.Plain w) : (o.fill (t ++ [Script.wildcard]) (spaced ws)).reply =
      t ++ ' ' :: join [' '] (Conjugation.closing (ws.map (Conjugation.substitute ps))) ++ ['?'] := by
  have hbare : Query.isBare (spaced ws) = false := by
    obtain ⟨w, ws, rfl⟩ := List.exists_cons_of_ne_nil hne
    exact Query.isBare_spaced_cons w ws
  have hmap : ws.map (Conjugation.substitute ps) ≠ [] := by simpa using hne
  rw [fill, if_pos (Template.isOpen_concat t), hbare, if_neg Bool.false_ne_true, List.dropLast_concat,
    Conjugation.apply_spaced ho hws]
  exact Template.ask_append_spaced t (Conjugation.closing_ne_nil hmap)

theorem fill_bare (t : Text) : (o.fill (t ++ [Script.wildcard]) (spaced [])).reply =
    if o.dropUnfilledWildcard then Template.ask t else t ++ [Script.wildcard, '?'] := by
  rw [fill, if_pos (Template.isOpen_concat t), Query.isBare_spaced_nil, if_pos rfl, List.dropLast_concat]
  split
  · rfl
  · rw [Template.ask, List.getLast?_concat, if_neg (by decide), List.append_assoc]
    rfl

end Options

/-! ### The reply to a row of words -/

namespace Conversation
variable {s : Script} {o : Options} {c : Conversation} {log : List Turn}

/-- A line whose query is a row of words is answered by the first rule with a run of its words there. An
    open template ends in the words behind the leftmost run, each with its person changed and a closing
    `I` as `ME`; with none behind it, the wildcard stays or goes. -/
theorem reply_eq_words (hs : s.Loaded) (ho : o.conjugation = .standard) {calls : List Call}
    (hcalls : (start s o).run? calls = some (c, log)) {ws : List Text} (hne : ws ≠ []) (hws : Unspaced ws)
    {input : Text} (hquery : Query.normalize input = pad (join [' '] ws))
    (hprev : c.previous ≠ some (Query.normalize input)) {i : Nat} {r : Rule} (hr : s.rules[i]? = some r)
    (hfirst : ∀ j < i, ∀ q, s.rules[j]? = some q → ¬ words q.phrase <:+: ws) {before after : List Text}
    (hrun : LeftmostRun (words r.phrase) ws before after) (hi : i ≠ s.fallback) :
    ∃ k template c' a, c.rotation? i = some k ∧ s.replies[r.range.first + k]? = some template ∧
      c.answer? input = some (c', a) ∧ a.rule? = some i ∧ a.template? = some template ∧
      ∀ t, template = t ++ [Script.wildcard] → a.reply =
        if after ≠ [] then
          t ++ ' ' :: join [' '] (Conjugation.closing
            (after.map (Conjugation.substitute Conjugation.standardWords))) ++ ['?']
        else if o.dropUnfilledWildcard then (if t.getLast? = some ' ' then t.dropLast else t) ++ ['?']
        else t ++ ['*', '?'] := by
  have h := tracks_of_run hs.wellFormed o hcalls
  rw [pad_join hne] at hquery
  have hx : s.select (Query.normalize input) = ⟨i, some ⟨i, ⟨opened before, closed after⟩⟩, spaced after⟩ := by
    rw [hquery]
    exact Script.select_spaced hws hr hfirst hrun hi
  obtain ⟨template, c', a, hreplies, ha, -, hrule, htemplate, hreply⟩ := h.told hs.wellFormed hx hprev hr (Or.inl hi)
  refine ⟨_, template, c', a, h.rotations_getElem? hr, hreplies, ha, hrule, htemplate, fun t ht => ?_⟩
  rw [hreply, ht]
  by_cases hafter : after = []
  · rw [if_neg (not_not.mpr hafter), hafter]
    exact Options.fill_bare t
  · rw [if_pos hafter]
    have hplain : ∀ w ∈ after, Conjugation.Plain w := fun w hw =>
      Query.plain_of_normalize hquery hws w (hrun.eq ▸ List.mem_append_right _ hw)
    exact Options.fill_words (ho ▸ Conjugation.standard_wordwise) t hafter hplain

/-- The phrase occurs twice, an earlier rule's phrase only inside a longer word. -/
theorem reply_eq_words_feel :
    let s : Script := ⟨[⟨"FEE".toList, ⟨0, 0⟩, 1⟩, ⟨"I FEEL".toList, ⟨1, 1⟩, 5⟩, ⟨['N'], ⟨2, 2⟩, 9⟩],
      [['X'], "DO YOU OFTEN FEEL*".toList, ['Y']], 2⟩
    s.Loaded ∧ ∃ c' a, (start s .classic).answer? "So, I feel I feel you hate you!".toList = some (c', a) ∧
      a.reply = "DO YOU OFTEN FEEL YOU FEEL I HATE ME?".toList := by
  intro s
  let ws := ["SO", "I", "FEEL", "I", "FEEL", "YOU", "HATE", "YOU"].map String.toList
  have hs : s.Loaded :=
    ⟨['N'], ["FEE", "!", "X", ".", "I FEEL", "!", "DO YOU OFTEN FEEL*", ".", "N", "!", "Y", "."].map String.toList,
      by rfl⟩
  have hcalls : (start s .classic).run? [] = some (start s .classic, []) := rfl
  have hws : Unspaced ws := by
    unfold Unspaced
    decide
  have hquery : Query.normalize "So, I feel I feel you hate you!".toList = pad (join [' '] ws) := by decide
  have hfirst : ∀ j < 1, ∀ q, s.rules[j]? = some q → ¬ words q.phrase <:+: ws := by
    intro j hj q hq
    obtain rfl : j = 0 := Nat.lt_one_iff.mp hj
    cases hq
    decide
  have hno : ¬ words "I FEEL".toList <+: ws := by decide
  have hrun : LeftmostRun (words "I FEEL".toList) ws [['S', 'O']] (ws.drop 3) := by
    refine ⟨by decide, fun before' after' h => ?_⟩
    cases before' with
    | nil => exact absurd ⟨after', h.symm⟩ hno
    | cons w before' => exact Nat.le_add_left 1 _
  obtain ⟨k, template, c', a, hk, ht, ha, -, -, hreply⟩ :=
    reply_eq_words hs rfl hcalls (by decide) hws hquery (by decide) rfl hfirst hrun (by decide)
  cases hk
  cases ht
  refine ⟨hs, c', a, ha, ?_⟩
  rw [hreply "DO YOU OFTEN FEEL".toList rfl]
  decide

end Conversation

end Dialogue
