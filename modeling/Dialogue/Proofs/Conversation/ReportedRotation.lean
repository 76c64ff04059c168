import Dialogue.Proofs.Conversation.Details

/-! # The rotation that an answer reports

An answer by a rule reports the rotation of that rule before and after the call. Where a fixed reply stands
for the fallback rule's, it reports 0 twice, whatever the rotation is. With such a reply set, the rotation of
the fallback rule moves only where another rule has its replies in the same block. -/

namespace Dialogue

/-- What the answer reports is the rotation of the `i`th rule, in `c` before the call and in `c'` after it. -/
structure Answer.ReportsRotation (a : Answer) (c c' : Conversation) (i : Nat) : Prop where
  before : c.rotation? i = some a.rotationBefore
  after : c'.rotation? i = some a.rotationAfter

/-- No other rule has its replies in the block of the fallback rule. -/
def Script.FallbackAlone (s : Script) : Prop :=
  ∀ i r q, s.rules[i]? = some r → s.rules[s.fallback]? = some q → r.range.first = q.range.first → i = s.fallback

namespace Conversation
variable {s : Script} {o : Options} {c c' : Conversation} {log : List Turn} {input query : Text} {a : Answer}

/-! ### One answer -/

/-- The report of an answer by the `i`th rule is right, unless a fixed reply stands for the fallback rule's
    while the rotation of this rule is not 0. A fixed reply moves no rotation. -/
theorem Answers.reports (h : Answers c query c' a) {i : Nat} (hi : a.rule? = some i) :
    (a.ReportsRotation c c' i ↔ (a.flags .overridden = true → c.rotation? i = some 0)) ∧
    (a.flags .overridden = true →
      c'.rotation? i = c.rotation? i ∧ i = c.script.fallback ∧ c.options.noMatchReply ≠ none) := by
  cases h with
  | repeated hp => cases hi
  | fixed hp hr hf hreply =>
    cases hi
    refine ⟨⟨fun h _ => h.before, fun hzero => ⟨hzero rfl, hzero rfl⟩⟩, fun _ => ⟨rfl, of_decide_eq_true hf, ?_⟩⟩
    exact Option.ne_none_iff_exists'.mpr ⟨_, hreply⟩
  | told hp hr hf hbefore ht =>
    cases hi
    exact ⟨iff_of_true ⟨hbefore, rotation?_rotate (c := c.heard query) hr hbefore _⟩ nofun, nofun⟩

/-! ### The block of the fallback rule -/

/-- Where a fixed reply stands for the fallback rule's, no answer uses a block that only this rule has. -/
theorem Tracks.uses_fallback (h : Tracks s o c log) (hreply : o.noMatchReply ≠ none) (halone : s.FallbackAlone)
    {q : Rule} (hq : s.rules[s.fallback]? = some q) (ha : c.answer? input = some (c', a)) :
    Turn.uses s q.range.first (.said input a) = false := by
  obtain ⟨hscript, hoptions, -⟩ := id h
  subst hscript hoptions
  cases answer?_eq_some_iff.mp ha with
  | repeated hp => rfl
  | fixed hp hr hf hreply => rfl
  | @told r before template hp hr hf hbefore ht =>
    show (c.script.rules[(c.script.select (Query.normalize input)).rule]?).any (·.range.first = q.range.first) = false
    rw [hr, Option.any_some, decide_eq_false_iff_not]
    intro hfirst
    have hrule := halone _ r q hr hq hfirst
    rcases hf with hf | hf
    · exact of_decide_eq_false hf hrule
    · exact hreply hf

theorem uses_fallback_eq_zero (hs : s.WellFormed) (hreply : o.noMatchReply ≠ none) (halone : s.FallbackAlone)
    {q : Rule} (hq : s.rules[s.fallback]? = some q) {calls : List Call} (h : (start s o).run? calls = some (c, log)) :
    s.uses q.range.first log = 0 := by
  have hrun : Tracks s o c log ∧ s.uses q.range.first log = 0 := by
    refine run?_induction (motive := fun c log => Tracks s o c log ∧ s.uses q.range.first log = 0)
      ⟨Tracks.start s o, rfl⟩ (fun {c log call c' turn} ih hcall => ?_) h
    obtain ⟨ht, huses⟩ := ih
    refine ⟨ht.of_call? hs hcall, ?_⟩
    cases call with
    | say input =>
      obtain ⟨a, ha, rfl⟩ := call?_say_eq_some_iff.mp hcall
      rw [Script.uses_concat_said, huses, ht.uses_fallback hreply halone hq ha]
      rfl
    | reset =>
      cases hcall
      exact Script.uses_concat_reset s _ log
  exact hrun.2

/-- After any calls, the next answer reports the rotation of its rule as it is before and after the call,
    unless a fixed reply stands for the fallback rule's while the rotation of this rule is not 0. With such
    a reply the rotation stays where it is. It is 0 in every run if the fallback rule is alone in its block,
    so for those scripts, and for options without a fixed reply, the report is always right. -/
theorem reportsRotation_iff (hs : s.Loaded) (o : Options) (calls : List Call) (input : Text) :
    ∃ c log c' a, (start s o).run? calls = some (c, log) ∧ c.answer? input = some (c', a) ∧
      ∀ i, a.rule? = some i →
        (a.ReportsRotation c c' i ↔ (a.flags .overridden = true → c.rotation? i = some 0)) ∧
        (a.flags .overridden = true → c'.rotation? i = c.rotation? i) ∧
        (s.FallbackAlone ∨ o.noMatchReply = none → a.ReportsRotation c c' i) := by
  have wf := hs.wellFormed
  obtain ⟨c, log, hrun⟩ := exists_run wf o calls
  have h := tracks_of_run wf o hrun
  obtain ⟨c', a, ha, -⟩ := h.answer wf input
  refine ⟨c, log, c', a, hrun, ha, fun i hi => ?_⟩
  obtain ⟨hscript, hoptions, -⟩ := id h
  subst hscript hoptions
  obtain ⟨hreports, hfixed⟩ := (answer?_eq_some_iff.mp ha).reports hi
  refine ⟨hreports, fun hover => (hfixed hover).1, fun hcase => hreports.mpr fun hover => ?_⟩
  obtain ⟨-, rfl, hreply⟩ := hfixed hover
  obtain ⟨q, hq⟩ : ∃ q, c.script.rules[c.script.fallback]? = some q := ⟨_, List.getElem?_eq_getElem wf.fallback⟩
  have hzero := uses_fallback_eq_zero wf hreply (hcase.resolve_right hreply) hq hrun
  rw [rotation?, h.rotations_getElem? hq, hzero, Nat.zero_mod]

/-- Two uses bring the rotation of the shared block back to 0, so the report beside the fixed reply is right. -/
theorem reportsRotation_iff_round :
    let s : Script := ⟨[⟨['A'], ⟨0, 1⟩, 1⟩, ⟨['N'], ⟨0, 1⟩, 2⟩], [['X'], ['Y']], 1⟩
    let o : Options := { Options.classic with noMatchReply := some ['Z'] }
    s.Loaded ∧ ∃ c log c' a, (start s o).run? [.say ['a'], .say ['a', ' ', 'b']] = some (c, log) ∧
      c.answer? ['q'] = some (c', a) ∧ a.rule? = some 1 ∧ a.ReportsRotation c c' 1 := by
  intro s o
  have hs : s.Loaded := ⟨['N'], ["A", "N", "!", "X", "Y", "."].map String.toList, by rfl⟩
  obtain ⟨c, log, c', a, hrun, ha, hreport⟩ := reportsRotation_iff hs o [.say ['a'], .say ['a', ' ', 'b']] ['q']
  have hway : ((start s o).run? [.say ['a'], .say ['a', ' ', 'b']]).any (fun run => run.1.rotation? 1 = some 0 ∧
      (run.1.answer? ['q']).any fun next => next.2.rule? = some 1) = true := by
    decide
  simp only [hrun, ha, Option.any_some, decide_eq_true_eq] at hway
  obtain ⟨hzero, hrule⟩ := hway
  exact ⟨hs, c, log, c', a, hrun, ha, hrule, (hreport 1 hrule).1.mpr fun _ => hzero⟩

/-- One use moves the rotation of the shared block to 1, and the fixed reply reports 0. -/
theorem not_reportsRotation_shared :
    let s : Script := ⟨[⟨['A'], ⟨0, 1⟩, 1⟩, ⟨Script.fallbackPhrase, ⟨0, 1⟩, 2⟩], [['X'], ['Y']], 1⟩
    let o : Options := { Options.classic with noMatchReply := some ['Z'] }
    s.Loaded ∧ ∃ c log c' a, (start s o).run? [.say ['a']] = some (c, log) ∧ c.answer? ['q'] = some (c', a) ∧
      a.rule? = some 1 ∧ a.rotationBefore = 0 ∧ a.rotationAfter = 0 ∧
      c.rotation? 1 = some 1 ∧ c'.rotation? 1 = some 1 ∧ ¬ a.ReportsRotation c c' 1 := by
  intro s o
  have hs : s.Loaded := ⟨Script.fallbackPhrase, ["A", "NOKEYFOUND", "!", "X", "Y", "."].map String.toList, by rfl⟩
  refine ⟨hs, _, _, _, _, rfl, rfl, rfl, rfl, rfl, rfl, rfl, fun h => ?_⟩
  cases h.before

end Conversation

end Dialogue
