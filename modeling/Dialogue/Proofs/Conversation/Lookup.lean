import Dialogue.Proofs.Conversation.Rotation

/-! # Looking a rule up by its phrase

A phrase of a script that was read has no white space at its ends, and no two rules have one phrase. So
the look-up of a phrase, whatever white space stands around it, gives back the place of its rule
(`position?_eq_some_iff`), and a conversation tells by phrase what it tells by place. -/

namespace Dialogue

namespace Script
open Text
variable {s : Script} {p : Text} {i : Nat} {r : Rule}

/-- White space around a text that can be listed goes, and nothing else. -/
theorem Listed.trim_append {t a b : Text} (h : Listed t) (ha : ∀ c ∈ a, isBlank c = true)
    (hb : ∀ c ∈ b, isBlank c = true) : (a ++ t ++ b).trim = t := by
  obtain ⟨c, rest, rfl⟩ := List.exists_cons_of_ne_nil h.ne_nil
  have hdrop : (a ++ (c :: rest) ++ b).dropWhile isBlank = (c :: rest) ++ b := by
    rw [List.append_assoc, List.dropWhile_append_of_pos ha, List.cons_append,
      List.dropWhile_cons_of_neg (Bool.eq_false_iff.mp (h.head c rfl))]
  rw [trim, hdrop]
  exact dropEnd_append h.last hb

/-- A look-up gives the one rule that has the phrase. -/
theorem position?_eq_some_iff (hs : s.WellFormed) :
    s.position? p = some i ↔ ∃ r, s.rules[i]? = some r ∧ r.phrase = p.trim := by
  rw [position?, List.findIdx?_eq_some_iff_getElem]
  constructor
  · rintro ⟨hi, hphrase, -⟩
    exact ⟨s.rules[i], List.getElem?_eq_getElem hi, of_decide_eq_true hphrase⟩
  · rintro ⟨r, hr, hphrase⟩
    obtain ⟨hi, rfl⟩ := List.getElem?_eq_some_iff.mp hr
    refine ⟨hi, decide_eq_true hphrase, fun j hj heq => ?_⟩
    have hlt : j < s.rules.length := Nat.lt_trans hj hi
    have hne : s.rules[j].phrase ≠ s.rules[i].phrase :=
      List.pairwise_iff_getElem.mp (List.pairwise_map.mp hs.distinct) j i hlt hi hj
    exact hne ((of_decide_eq_true heq).trans hphrase.symm)

theorem position?_eq_none_iff : s.position? p = none ↔ ∀ r ∈ s.rules, r.phrase ≠ p.trim := by
  simp [position?]

/-- The rule for a phrase is the one at its place. -/
theorem rule?_eq_bind : s.rule? p = (s.position? p).bind (s.rules[·]?) := List.find?_eq_bind_findIdx?_getElem?

theorem position?_blank_append (hs : s.WellFormed) (hr : s.rules[i]? = some r) {a b : Text}
    (ha : ∀ c ∈ a, isBlank c = true) (hb : ∀ c ∈ b, isBlank c = true) : s.position? (a ++ r.phrase ++ b) = some i := by
  have hlisted : Listed r.phrase := hs.rules.listed r (List.mem_of_getElem? hr)
  exact (position?_eq_some_iff hs).mpr ⟨r, hr, (hlisted.trim_append ha hb).symm⟩

theorem position?_fallback {fallback : Text} {lines : List Text} (h : (ofLines fallback lines).result = .ok s) :
    s.position? fallback = some s.fallback := by
  have hs : s.WellFormed := Loaded.wellFormed ⟨fallback, lines, h⟩
  obtain ⟨d, -, hd⟩ := Draft.ofLines_eq_ok_iff.mp h
  obtain ⟨hrules, -, hfound⟩ := Draft.script_eq_ok hd
  rw [← hrules] at hfound
  obtain ⟨hlt, hphrase, -⟩ := List.findIdx?_eq_some_iff_getElem.mp hfound
  have hr : s.rules[s.fallback]? = some s.rules[s.fallback] := List.getElem?_eq_getElem hlt
  have hfallback : s.rules[s.fallback].phrase = fallback := of_decide_eq_true hphrase
  have hposition := position?_blank_append hs hr (a := []) (b := []) (by simp) (by simp)
  rwa [hfallback, List.nil_append, List.append_nil] at hposition

end Script

namespace Conversation
open Text Script

theorem Tracks.rotationOf?_eq {s : Script} {o : Options} {c : Conversation} {log : List Turn} (h : Tracks s o c log)
    (p : Text) : c.rotationOf? p = (s.position? p).bind c.rotation? := by
  rw [rotationOf?, h.script]

/-- In a script that was read every rule is found by its phrase, with any white space around it, and so by its
    keyword. A look-up gives a place just if the rule there has the phrase without the white space, and none
    just if no rule has it; the fallback phrase gives the fallback rule. After any calls a conversation tells
    for a phrase the rotation of the rule at its place: the uses of its block, so the same for all phrases of
    the block. -/
theorem lookup_ofLines {fallback : Text} {lines : List Text} {s : Script} (h : (ofLines fallback lines).result = .ok s)
    (o : Options) (calls : List Call) :
    (∀ i r a b, s.rules[i]? = some r → (∀ c ∈ a, isBlank c = true) → (∀ c ∈ b, isBlank c = true) →
      s.position? (a ++ r.phrase ++ b) = some i ∧ s.rule? (a ++ r.phrase ++ b) = some r) ∧
    (∀ i r, s.rules[i]? = some r → s.position? r.keyword = some i ∧ s.rule? r.keyword = some r) ∧
    (∀ p i, s.position? p = some i ↔ ∃ r, s.rules[i]? = some r ∧ r.phrase = p.trim) ∧
    (∀ p, s.position? p = none ↔ ∀ r ∈ s.rules, r.phrase ≠ p.trim) ∧
    s.position? fallback = some s.fallback ∧
    ∃ c log, (start s o).run? calls = some (c, log) ∧
      (∀ p, c.rotationOf? p = (s.position? p).bind c.rotation?) ∧
      (∀ r ∈ s.rules, c.rotationOf? r.phrase = some (s.uses r.range.first log % r.range.size)) ∧
      ∀ r ∈ s.rules, ∀ q ∈ s.rules, r.range = q.range → c.rotationOf? r.phrase = c.rotationOf? q.phrase := by
  have wf : s.WellFormed := Loaded.wellFormed ⟨fallback, lines, h⟩
  obtain ⟨c, log, hrun⟩ := exists_run wf o calls
  have htracks := tracks_of_run wf o hrun
  have hfind : ∀ i r a b, s.rules[i]? = some r → (∀ c ∈ a, isBlank c = true) → (∀ c ∈ b, isBlank c = true) →
      s.position? (a ++ r.phrase ++ b) = some i ∧ s.rule? (a ++ r.phrase ++ b) = some r := by
    intro i r a b hr ha hb
    have hposition := position?_blank_append wf hr ha hb
    refine ⟨hposition, ?_⟩
    rw [rule?_eq_bind, hposition]
    exact hr
  have htold : ∀ r ∈ s.rules, c.rotationOf? r.phrase = some (s.uses r.range.first log % r.range.size) := by
    intro r hr
    obtain ⟨i, hi⟩ := List.mem_iff_getElem?.mp hr
    have hposition := (hfind i r [] [] hi (by simp) (by simp)).1
    rw [List.nil_append, List.append_nil] at hposition
    rw [htracks.rotationOf?_eq, hposition]
    exact htracks.rotations_getElem? hi
  refine ⟨hfind, fun i r hr => ?_, fun p i => position?_eq_some_iff wf, fun p => position?_eq_none_iff,
    position?_fallback h, c, log, hrun, htracks.rotationOf?_eq, htold, fun r hr q hq hrange => ?_⟩
  · have hspace : ∀ c ∈ [' '], isBlank c = true := List.all_eq_true.mp (by decide)
    exact hfind i r [' '] [' '] hr hspace hspace
  · rw [htold r hr, htold q hq, hrange]

/-- A phrase of several words with letters of several bytes, looked up between white space of several kinds; a
    phrase that no rule has; two rules of one block after one use of it. -/
theorem lookup_ofLines_wide :
    let s : Script := ⟨[⟨['Ä', ' ', 'B'], ⟨0, 1⟩, 1⟩, ⟨['C'], ⟨0, 1⟩, 2⟩, ⟨['N'], ⟨2, 2⟩, 7⟩], [['X'], ['Y'], ['Z']], 2⟩
    let lines := [" Ä B", "C", "!", "X", "Y", ".", "N", "!", "Z", "."].map String.toList
    (ofLines ['N'] lines).result = .ok s ∧
      s.position? (['\u3000', '\t'] ++ ['Ä', ' ', 'B'] ++ ['\u00a0']) = some 0 ∧
      s.position? ['Ä'] = none ∧ s.position? ['N'] = some 2 ∧
      ∃ c log, (start s .classic).run? [.say ['c']] = some (c, log) ∧
        c.rotationOf? ['Ä', ' ', 'B'] = some (s.uses 0 log % 2) ∧
        c.rotationOf? ['Ä', ' ', 'B'] = c.rotationOf? ['C'] := by
  intro s lines
  have h : (ofLines ['N'] lines).result = .ok s := by rfl
  obtain ⟨hfind, -, -, hnone, hfallback, c, log, hrun, -, htold, hshared⟩ := lookup_ofLines h .classic [.say ['c']]
  have hbefore : ∀ c ∈ ['\u3000', '\t'], isBlank c = true := List.all_eq_true.mp (by decide)
  have hafter : ∀ c ∈ ['\u00a0'], isBlank c = true := List.all_eq_true.mp (by decide)
  refine ⟨h, (hfind 0 _ ['\u3000', '\t'] ['\u00a0'] rfl hbefore hafter).1, (hnone ['Ä']).mpr (by decide), hfallback,
    c, log, hrun, htold ⟨['Ä', ' ', 'B'], ⟨0, 1⟩, 1⟩ (by simp [s]), ?_⟩
  exact hshared ⟨['Ä', ' ', 'B'], ⟨0, 1⟩, 1⟩ (by simp [s]) ⟨['C'], ⟨0, 1⟩, 2⟩ (by simp [s]) rfl

end Conversation

end Dialogue
