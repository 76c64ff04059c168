import Dialogue.Proofs.Conversation.Details
import Mathlib.Data.List.Forall2

/-! # Options do not steer

The options say how a reply reads. All that steers a conversation is whether a fixed reply stands for the
fallback rule's: two conversations with options that agree on that stay abreast, call by call
(`Abreast`), and what they answer differs in nothing but the reply and the rest of the query in other
persons (`Answer.Alike`). -/

namespace Dialogue

/-- The answers have the same details, but for the reply and the rest of the query in other persons. -/
structure Answer.Alike (a b : Answer) : Prop where
  query : a.query = b.query
  flags : ∀ f, a.flags f = b.flags f
  rule : a.rule? = b.rule?
  phrase : a.phrase? = b.phrase?
  matchOffset : a.matchOffset? = b.matchOffset?
  template : a.template? = b.template?
  remainder : a.remainder = b.remainder
  rotationBefore : a.rotationBefore = b.rotationBefore
  rotationAfter : a.rotationAfter = b.rotationAfter
  synced : a.synced = b.synced

namespace Answer

theorem alike_repeated (query reply reply' : Text) (count : Nat) :
    (Answer.mk query reply (.repeated count)).Alike ⟨query, reply', .repeated count⟩ :=
  ⟨rfl, fun _ => rfl, rfl, rfl, rfl, rfl, rfl, rfl, rfl, rfl⟩

theorem alike_fixed (query reply reply' : Text) (choice : Choice) :
    (Answer.mk query reply (.fixed choice)).Alike ⟨query, reply', .fixed choice⟩ :=
  ⟨rfl, fun _ => rfl, rfl, rfl, rfl, rfl, rfl, rfl, rfl, rfl⟩

/-- Of the rest of the query in other persons, the details tell no more than that there is one. -/
theorem alike_told (query reply reply' : Text) (choice : Choice) {t u : Telling}
    (htemplate : t.template = u.template) (hspliced : t.conjugated.isSome = u.conjugated.isSome)
    (hbefore : t.before = u.before) (hafter : t.after = u.after) (hsynced : t.synced = u.synced) :
    (Answer.mk query reply (.told choice t)).Alike ⟨query, reply', .told choice u⟩ where
  query := rfl
  flags f := by
    cases f with
    | repeated => rfl
    | fallback => rfl
    | wildcard => exact congrArg Template.isOpen htemplate
    | spliced => exact hspliced
    | overridden => rfl
  rule := rfl
  phrase := rfl
  matchOffset := rfl
  template := congrArg some htemplate
  remainder := rfl
  rotationBefore := hbefore
  rotationAfter := hafter
  synced := hsynced

end Answer

/-- The same call with answers that are alike. -/
inductive Turn.Alike : Turn → Turn → Prop where
  | said (input : Text) {a b : Answer} (h : a.Alike b) : Alike (.said input a) (.said input b)
  | reset : Alike .reset .reset

/-- Whether the rest of a query goes into a template does not depend on the options. -/
theorem Options.isSome_conjugated_fill (o o' : Options) (t rest : Text) :
    (o.fill t rest).conjugated.isSome = (o'.fill t rest).conjugated.isSome := by
  rw [conjugated_fill, conjugated_fill]
  split <;> rfl

namespace Conversation

/-- The conversations differ in their options at most, and both or neither have a fixed reply for lines
    that no rule knows. -/
structure Abreast (c d : Conversation) : Prop where
  script : c.script = d.script
  rotations : c.rotations = d.rotations
  previous : c.previous = d.previous
  repeats : c.repeats = d.repeats
  fixed : c.options.noMatchReply.isSome = d.options.noMatchReply.isSome

namespace Abreast
variable {c d c' : Conversation} {input : Text}

theorem start (s : Script) {o o' : Options} (h : o.noMatchReply.isSome = o'.noMatchReply.isSome) :
    Abreast (start s o) (start s o') :=
  ⟨rfl, rfl, rfl, rfl, h⟩

theorem reset (h : Abreast c d) : Abreast c.reset d.reset := by
  rw [Conversation.reset, Conversation.reset, h.script]
  exact start d.script h.fixed

theorem repeated (h : Abreast c d) :
    Abreast { c with repeats := c.repeats + 1 } { d with repeats := d.repeats + 1 } :=
  ⟨h.script, h.rotations, h.previous, congrArg (· + 1) h.repeats, h.fixed⟩

theorem heard (h : Abreast c d) (query : Text) : Abreast (c.heard query) (d.heard query) :=
  ⟨h.script, h.rotations, rfl, rfl, h.fixed⟩

theorem rotate (h : Abreast c d) (first offset : Nat) : Abreast (c.rotate first offset) (d.rotate first offset) where
  script := h.script
  rotations := by
    show List.zipWith _ c.script.rules c.rotations = List.zipWith _ d.script.rules d.rotations
    rw [h.script, h.rotations]
  previous := h.previous
  repeats := h.repeats
  fixed := h.fixed

theorem choice_eq (h : Abreast c d) (query : Text) (r : Rule) : c.choice query r = d.choice query r := by
  rw [choice, choice, h.script]

/-- A line is answered in the same one of the three ways. -/
theorem answer (h : Abreast c d) {a : Answer} (ha : c.answer? input = some (c', a)) :
    ∃ d' b, d.answer? input = some (d', b) ∧ Abreast c' d' ∧ a.Alike b := by
  cases answer?_eq_some_iff.mp ha with
  | repeated hp =>
    refine ⟨_, _, answer?_repeated rfl (h.previous ▸ hp), h.repeated, ?_⟩
    rw [h.repeats]
    exact Answer.alike_repeated _ _ _ _
  | @fixed r reply hp hr hf hreply =>
    obtain ⟨reply', hreply'⟩ : ∃ reply', d.options.noMatchReply = some reply' := by
      rw [← Option.isSome_iff_exists, ← h.fixed, hreply, Option.isSome_some]
    rw [h.script] at hr hf
    refine ⟨_, _, answer?_fixed rfl (h.previous ▸ hp) hr hf hreply', h.heard _, ?_⟩
    rw [h.choice_eq]
    exact Answer.alike_fixed _ _ _ _
  | @told r before template hp hr hf hbefore ht =>
    have hf' : (d.script.select (Query.normalize input)).isFallback d.script = false ∨
        d.options.noMatchReply = none := by
      rw [← Option.isNone_iff_eq_none, ← Option.not_isSome, ← h.fixed, ← h.script]
      simpa using hf
    rw [h.script] at hr hbefore ht
    rw [h.rotations] at hbefore
    refine ⟨_, _, answer?_told rfl (h.previous ▸ hp) hr hf' hbefore ht, (h.heard _).rotate _ _, ?_⟩
    rw [h.choice_eq]
    refine Answer.alike_told _ _ _ _ rfl ?_ rfl rfl ?_
    · rw [telling, telling, h.script]
      exact Options.isSome_conjugated_fill _ _ _ _
    · rw [telling, telling, companions, companions, h.script]

theorem call (h : Abreast c d) {call : Call} {turn : Turn} (hcall : c.call? call = some (c', turn)) :
    ∃ d' turn', d.call? call = some (d', turn') ∧ Abreast c' d' ∧ turn.Alike turn' := by
  cases call with
  | say input =>
    obtain ⟨a, ha, rfl⟩ := call?_say_eq_some_iff.mp hcall
    obtain ⟨d', b, hb, h', hab⟩ := h.answer ha
    exact ⟨d', .said input b, call?_say_eq_some_iff.mpr ⟨b, hb, rfl⟩, h', .said input hab⟩
  | reset =>
    cases hcall
    exact ⟨d.reset, .reset, rfl, h.reset, .reset⟩

end Abreast

section Runs
variable {s : Script} {o o' : Options} {c : Conversation} {calls : List Call} {log : List Turn}

theorem abreast_of_run (hfixed : o.noMatchReply.isSome = o'.noMatchReply.isSome)
    (h : (start s o).run? calls = some (c, log)) :
    ∃ d log', (start s o').run? calls = some (d, log') ∧ Abreast c d ∧ List.Forall₂ Turn.Alike log log' := by
  induction calls using List.reverseRecOn generalizing c log with
  | nil =>
    cases h
    exact ⟨start s o', [], rfl, Abreast.start s hfixed, .nil⟩
  | append_singleton calls call ih =>
    obtain ⟨c₁, log₁, turn, hrun, hcall, rfl⟩ := run?_concat_eq_some_iff.mp h
    obtain ⟨d₁, log₂, hrun', habreast, halike⟩ := ih hrun
    obtain ⟨d, turn', hcall', habreast, hturn⟩ := habreast.call hcall
    refine ⟨d, log₂ ++ [turn'], run?_concat_eq_some_iff.mpr ⟨d₁, log₂, turn', hrun', hcall', rfl⟩, habreast, ?_⟩
    exact List.rel_append halike (.cons hturn .nil)

/-- Two conversations over one script, both or neither with a fixed reply for lines that no rule knows. All
    other texts, the handling of wildcards and the change of persons may differ. After every call, both
    have the same last query and the same rotations, and all their answers so far have the same details,
    but for the reply and the rest of the query in other persons. -/
theorem run?_of_options (hs : s.Loaded) (hfixed : o.noMatchReply.isSome = o'.noMatchReply.isSome)
    (calls : List Call) (n : Nat) :
    ∃ c log d log', (start s o).run? (calls.take n) = some (c, log) ∧
      (start s o').run? (calls.take n) = some (d, log') ∧ c.previous = d.previous ∧
      (∀ i, c.rotation? i = d.rotation? i) ∧ List.Forall₂ Turn.Alike log log' := by
  obtain ⟨c, log, hrun⟩ := exists_run hs.wellFormed o (calls.take n)
  obtain ⟨d, log', hrun', habreast, halike⟩ := abreast_of_run hfixed hrun
  refine ⟨c, log, d, log', hrun, hrun', habreast.previous, fun i => ?_, halike⟩
  rw [rotation?, rotation?, habreast.rotations]

/-- Other texts, other persons and no lone wildcard, over a reply that takes in the rest of the query, one
    that has nothing to take in, a repeat, a line that no rule knows and a reset. -/
theorem run?_of_options_plain :
    let s : Script := ⟨[⟨['A'], ⟨0, 1⟩, 1⟩, ⟨['N'], ⟨2, 2⟩, 6⟩], [['X', '*'], ['Y', '*'], ['Z']], 1⟩
    let o : Options := ⟨['R'], some ['L'], some ['F'], true, .empty⟩
    let o' : Options := { Options.classic with noMatchReply := some "GO ON.".toList }
    let calls : List Call := [.say ['a'], .say "a my".toList, .say ['q'], .say ['q'], .say ['Q'], .reset, .say ['a']]
    s.Loaded ∧ o.noMatchReply.isSome = o'.noMatchReply.isSome ∧
      ∃ c log d log', (start s o).run? calls = some (c, log) ∧ (start s o').run? calls = some (d, log') ∧
        c.previous = d.previous ∧ c.rotation? 0 = d.rotation? 0 ∧ List.Forall₂ Turn.Alike log log' := by
  intro s o o' calls
  have hs : s.Loaded := ⟨['N'], ["A", "!", "X*", "Y*", ".", "N", "!", "Z", "."].map String.toList, by rfl⟩
  have hfixed : o.noMatchReply.isSome = o'.noMatchReply.isSome := rfl
  obtain ⟨c, log, d, log', hc, hd, hprevious, hrotations, halike⟩ := run?_of_options hs hfixed calls calls.length
  exact ⟨hs, hfixed, c, log, d, log', hc, hd, hprevious, hrotations 0, halike⟩

end Runs

end Conversation

end Dialogue
