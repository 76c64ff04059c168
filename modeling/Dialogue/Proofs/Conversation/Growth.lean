import Dialogue.Proofs.Conversation.Repeat
import Dialogue.Proofs.Script.Append

/-! # Conversations over a script that grew

A script that grew chooses as before for the queries that the shorter one knows. A conversation over it
then says the same as one over the shorter script (`Mirrors`): every call keeps the offsets of the old
rules equal, since no new rule has the first reply of an old one. -/

namespace Dialogue

theorem getElem?_mono {α : Type} {xs ys : List α} (h : xs <+: ys) {i : Nat} {x : α} (hx : xs[i]? = some x) :
    ys[i]? = some x := by
  obtain ⟨rest, rfl⟩ := h
  rw [List.getElem?_append_left (List.getElem?_eq_some_iff.mp hx).1, hx]

namespace Script.GrowsTo
variable {s u : Script} {query : Text}

theorem rules_prefix (h : s.GrowsTo u) : s.rules <+: u.rules := by
  obtain ⟨more, hrules, -⟩ := h.rules
  exact ⟨more, hrules.symm⟩

theorem select_eq (h : s.GrowsTo u) (hq : s.Knows query) : u.select query = s.select query := by
  have hsome : s.hit? query ≠ none := fun hnone => hit?_eq_none_iff.mp hnone hq
  obtain ⟨hit, hhit⟩ := Option.ne_none_iff_exists'.mp hsome
  obtain ⟨more, hrules, -⟩ := h.rules
  have hfirst : u.hit? query = some hit := by
    rw [hit?] at hhit ⊢
    rw [hrules, firstHit?_append, hhit, Option.some_or]
  unfold select
  rw [hhit, hfirst, h.fallback]

/-- The rules with a reply of the shorter script are its own. -/
theorem countP_first (h : s.GrowsTo u) {first : Nat} (hfirst : first < s.replies.length) :
    u.rules.countP (fun r => r.range.first = first) = s.rules.countP (fun r => r.range.first = first) := by
  obtain ⟨more, hrules, hnew⟩ := h.rules
  have hnone : more.countP (fun r => r.range.first = first) = 0 := by
    refine List.countP_eq_zero.mpr fun q hq => ?_
    have := hnew q hq
    simp only [decide_eq_true_eq]
    omega
  rw [hrules, List.countP_append, hnone, Nat.add_zero]

end Script.GrowsTo

namespace Conversation

/-- The second conversation goes like the first, over a script that grew. -/
structure Mirrors (c d : Conversation) : Prop where
  script : c.script.GrowsTo d.script
  options : d.options = c.options
  size : c.rotations.length = c.script.rules.length
  rotations : c.rotations <+: d.rotations
  previous : d.previous = c.previous
  repeats : d.repeats = c.repeats

namespace Mirrors
variable {c d c' : Conversation} {query input : Text} {r : Rule} {first before : Nat}

theorem start {s u : Script} (h : s.GrowsTo u) (o : Options) : Mirrors (start s o) (start u o) where
  script := h
  options := rfl
  size := List.length_replicate
  rotations := by
    obtain ⟨more, hrules, -⟩ := h.rules
    refine ⟨List.replicate more.length 0, ?_⟩
    rw [Conversation.start, Conversation.start, hrules, List.length_append, List.replicate_append_replicate]
  previous := rfl
  repeats := rfl

theorem reset (h : Mirrors c d) : Mirrors c.reset d.reset := by
  rw [Conversation.reset, Conversation.reset, h.options]
  exact start h.script c.options

theorem heard (h : Mirrors c d) (query : Text) : Mirrors (c.heard query) (d.heard query) :=
  ⟨h.script, h.options, h.size, h.rotations, rfl, rfl⟩

theorem repeated (h : Mirrors c d) :
    Mirrors { c with repeats := c.repeats + 1 } { d with repeats := d.repeats + 1 } :=
  ⟨h.script, h.options, h.size, h.rotations, h.previous, congrArg (· + 1) h.repeats⟩

theorem rotate (h : Mirrors c d) (first offset : Nat) : Mirrors (c.rotate first offset) (d.rotate first offset) where
  script := h.script
  options := h.options
  size := by
    show (List.zipWith _ c.script.rules c.rotations).length = c.script.rules.length
    rw [List.length_zipWith, h.size, Nat.min_self]
  rotations := by
    obtain ⟨more, hrules, -⟩ := h.script.rules
    obtain ⟨rest, hrest⟩ := h.rotations
    show List.zipWith _ c.script.rules c.rotations <+: List.zipWith _ d.script.rules d.rotations
    rw [hrules, ← hrest, List.zipWith_append h.size.symm]
    exact List.prefix_append _ _
  previous := h.previous
  repeats := h.repeats

theorem choice_eq (h : Mirrors c d) (hq : c.script.Knows query) (r : Rule) : d.choice query r = c.choice query r := by
  rw [choice, choice, h.script.select_eq hq, Selection.isFallback, Selection.isFallback, h.script.fallback]

theorem telling_eq (h : Mirrors c d) (hq : c.script.Knows query) (hfirst : r.range.first < c.script.replies.length)
    (before : Nat) (template : Text) : d.telling query r before template = c.telling query r before template := by
  rw [telling, telling, h.script.select_eq hq, h.options, companions, companions, h.script.countP_first hfirst]

/-- A line with a keyword of the shorter script gets the same answer. -/
theorem answer (h : Mirrors c d) (hq : c.script.Knows (Query.normalize input)) {a : Answer}
    (ha : c.answer? input = some (c', a)) : ∃ d', d.answer? input = some (d', a) ∧ Mirrors c' d' := by
  obtain ⟨query, hquery⟩ : ∃ query, Query.normalize input = query := ⟨_, rfl⟩
  rw [answer?_eq_some_iff, hquery] at ha
  rw [hquery] at hq
  have hselect := h.script.select_eq hq
  have hrule : ∀ {r : Rule}, c.script.rules[(c.script.select query).rule]? = some r →
      d.script.rules[(d.script.select query).rule]? = some r := fun hr => by
    rw [hselect]
    exact getElem?_mono h.script.rules_prefix hr
  have hfallback : (d.script.select query).isFallback d.script = (c.script.select query).isFallback c.script := by
    rw [hselect, Selection.isFallback, Selection.isFallback, h.script.fallback]
  cases ha with
  | repeated hp =>
    refine ⟨_, ?_, h.repeated⟩
    rw [answer?_repeated hquery (h.previous.trans hp), h.repeats, h.options]
  | @fixed r reply hp hr hf hreply =>
    refine ⟨d.heard query, ?_, h.heard query⟩
    rw [answer?_fixed hquery (h.previous ▸ hp) (hrule hr) (hfallback.trans hf) (h.options ▸ hreply), h.choice_eq hq]
  | @told r before template hp hr hf hbefore ht =>
    have hfirst : r.range.first < c.script.replies.length :=
      Nat.lt_of_le_of_lt (Nat.le_add_right _ _) (List.getElem?_eq_some_iff.mp ht).1
    have hbefore' : d.rotations[(d.script.select query).rule]? = some before := by
      rw [hselect]
      exact getElem?_mono h.rotations hbefore
    refine ⟨_, ?_, (h.heard query).rotate r.range.first (r.range.next before)⟩
    rw [answer?_told hquery (h.previous ▸ hp) (hrule hr) (hfallback ▸ h.options ▸ hf) hbefore'
      (getElem?_mono h.script.replies ht), h.choice_eq hq, h.telling_eq hq hfirst, hselect, h.options]

theorem call (h : Mirrors c d) {call : Call} (hq : ∀ query, call.query? = some query → c.script.Knows query)
    {turn : Turn} (hcall : c.call? call = some (c', turn)) : ∃ d', d.call? call = some (d', turn) ∧ Mirrors c' d' := by
  cases call with
  | say input =>
    obtain ⟨a, ha, rfl⟩ := call?_say_eq_some_iff.mp hcall
    obtain ⟨d', ha', h'⟩ := h.answer (hq _ rfl) ha
    exact ⟨d', call?_say_eq_some_iff.mpr ⟨a, ha', rfl⟩, h'⟩
  | reset =>
    cases hcall
    exact ⟨d.reset, rfl, h.reset⟩

end Mirrors

section Runs
variable {fallback : Text} {lines more : List Text} {s u : Script} {c : Conversation} {log : List Turn}

theorem mirrors_of_run (hs : s.WellFormed) (hgrows : s.GrowsTo u) (o : Options) {calls : List Call}
    (hq : ∀ call ∈ calls, ∀ query, call.query? = some query → s.Knows query)
    (h : (start s o).run? calls = some (c, log)) : ∃ d, (start u o).run? calls = some (d, log) ∧ Mirrors c d := by
  induction calls using List.reverseRecOn generalizing c log with
  | nil =>
    cases h
    exact ⟨start u o, rfl, Mirrors.start hgrows o⟩
  | append_singleton calls call ih =>
    obtain ⟨c₁, log₁, turn, hrun, hcall, rfl⟩ := run?_concat_eq_some_iff.mp h
    obtain ⟨d₁, hrun', hmirrors⟩ := ih (fun call hcall => hq call (List.mem_append_left _ hcall)) hrun
    have hknows : ∀ query, call.query? = some query → c₁.script.Knows query := by
      rw [(tracks_of_run hs o hrun).script]
      exact hq call (List.mem_append_right _ (List.mem_singleton_self call))
    obtain ⟨d₂, hcall', hmirrors⟩ := hmirrors.call hknows hcall
    exact ⟨d₂, run?_concat_eq_some_iff.mpr ⟨d₁, log₁, turn, hrun', hcall', rfl⟩, hmirrors⟩

/-- What goes on behind a file changes nothing before it: the rules, the replies and the fallback rule
    stay, and as long as every line has a keyword of the shorter file, the conversations over the two
    scripts have the same answers with the same details and the same rotations of the old rules, after
    every call. -/
theorem run?_of_append (hs : (Script.ofLines fallback lines).result = .ok s)
    (hu : (Script.ofLines fallback (lines ++ more)).result = .ok u) :
    s.rules <+: u.rules ∧ s.replies <+: u.replies ∧ u.fallback = s.fallback ∧
      ∀ (o : Options) (calls : List Call),
        (∀ input, .say input ∈ calls → ∃ r ∈ s.rules, r.keyword <:+: Query.normalize input) →
        ∀ n, ∃ c d log, (start s o).run? (calls.take n) = some (c, log) ∧
          (start u o).run? (calls.take n) = some (d, log) ∧
          ∀ i < s.rules.length, d.rotation? i = c.rotation? i := by
  have hgrows := Script.growsTo_of_append hs hu
  refine ⟨hgrows.rules_prefix, hgrows.replies, hgrows.fallback, fun o calls hcalls n => ?_⟩
  have wf := Script.Loaded.wellFormed ⟨fallback, lines, hs⟩
  have hknows : ∀ call ∈ calls.take n, ∀ query, call.query? = some query → s.Knows query := by
    intro call hcall query hquery
    cases call with
    | say input =>
      cases hquery
      exact hcalls input (List.mem_of_mem_take hcall)
    | reset => cases hquery
  obtain ⟨c, log, hrun⟩ := exists_run wf o (calls.take n)
  obtain ⟨d, hrun', hmirrors⟩ := mirrors_of_run wf hgrows o hknows hrun
  refine ⟨c, d, log, hrun, hrun', fun i hi => ?_⟩
  have hlt : i < c.rotations.length := by
    rw [hmirrors.size, (tracks_of_run wf o hrun).script]
    exact hi
  rw [rotation?, rotation?, List.getElem?_eq_getElem hlt]
  exact getElem?_mono hmirrors.rotations (List.getElem?_eq_getElem hlt)

/-- The first file ends in a `!` line, and what goes on has a keyword that it has already. Two lines also
    have the new keyword, one of them with the fallback phrase before it. -/
theorem run?_of_append_turn :
    let lines := ["A", "B", "!", "X*", "Y", ".", "N", "!", "Z", ".", "!"].map String.toList
    let more := ["C", "A", "!", "P", ".", "B", "D", "!", "Q", "."].map String.toList
    let s : Script := ⟨[⟨['A'], ⟨0, 1⟩, 1⟩, ⟨['B'], ⟨0, 1⟩, 2⟩, ⟨['N'], ⟨2, 2⟩, 7⟩], [['X', '*'], ['Y'], ['Z']], 2⟩
    let u : Script := ⟨s.rules ++ [⟨['D'], ⟨6, 6⟩, 18⟩], s.replies ++ [['C'], ['A'], ['P'], ['Q']], 2⟩
    let calls : List Call := [.say ['d', ' ', 'a'], .say ['n', ' ', 'd'], .say ['n', ' ', 'D', '.'], .reset, .say ['b']]
    (Script.ofLines ['N'] lines).result = .ok s ∧ (Script.ofLines ['N'] (lines ++ more)).result = .ok u ∧
      ∃ c d log, (start s .classic).run? calls = some (c, log) ∧ (start u .classic).run? calls = some (d, log) ∧
        d.rotation? 0 = c.rotation? 0 := by
  intro lines more s u calls
  have hs : (Script.ofLines ['N'] lines).result = .ok s := by rfl
  have hu : (Script.ofLines ['N'] (lines ++ more)).result = .ok u := by rfl
  have hcalls : ∀ input, .say input ∈ calls → ∃ r ∈ s.rules, r.keyword <:+: Query.normalize input := by
    intro input hinput
    simp only [calls, List.mem_cons, List.not_mem_nil, or_false, Call.say.injEq, reduceCtorEq, false_or] at hinput
    rcases hinput with rfl | rfl | rfl | rfl <;> decide
  obtain ⟨-, -, -, hruns⟩ := run?_of_append hs hu
  obtain ⟨c, d, log, hrun, hrun', hrot⟩ := hruns .classic calls hcalls 5
  exact ⟨hs, hu, c, d, log, hrun, hrun', hrot 0 (by decide)⟩

end Runs

end Conversation

end Dialogue
