import Dialogue.Conversation.Basic
import Dialogue.Proofs.Selection

/-! # Runs of a conversation

A run makes calls one after another and keeps a log of them. What holds at the start and is kept by every
call holds after every run (`run?_induction`). A line is answered in one of three ways; each has an
equation. -/

namespace Dialogue

/-- What can be asked of a conversation. An answer always comes with its details. -/
inductive Call where
  | say (input : Text)
  | reset
deriving DecidableEq, Repr

/-- A call and what came of it. -/
inductive Turn where
  | said (input : Text) (answer : Answer)
  | reset
deriving DecidableEq, Repr

/-- The call that the turn answers. -/
def Turn.call : Turn → Call
  | .said input _ => .say input
  | .reset => .reset

namespace Conversation
variable {c c' : Conversation}

def call? (c : Conversation) : Call → Option (Conversation × Turn)
  | .say input => (c.answer? input).map fun (c, a) => (c, .said input a)
  | .reset => some (c.reset, .reset)

/-- Makes calls one after another. The log has one turn for each call. -/
def run? (c : Conversation) : List Call → Option (Conversation × List Turn)
  | [] => some (c, [])
  | call :: calls => do
    let (c, turn) ← c.call? call
    let (c, log) ← c.run? calls
    return (c, turn :: log)

theorem run?_cons_eq_some_iff {call : Call} {calls : List Call} {log : List Turn} :
    c.run? (call :: calls) = some (c', log) ↔ ∃ c₁ turn log₁, c.call? call = some (c₁, turn) ∧
      c₁.run? calls = some (c', log₁) ∧ log = turn :: log₁ := by
  rw [run?]
  constructor
  · intro h
    obtain ⟨⟨c₁, turn⟩, hcall, h⟩ := Option.bind_eq_some_iff.mp h
    obtain ⟨⟨c₂, log₁⟩, hrun, h⟩ := Option.bind_eq_some_iff.mp h
    cases h
    exact ⟨c₁, turn, log₁, hcall, hrun, rfl⟩
  · rintro ⟨c₁, turn, log₁, hcall, hrun, rfl⟩
    simp [hcall, hrun]

theorem run?_concat (calls : List Call) (call : Call) : c.run? (calls ++ [call]) =
    (c.run? calls).bind fun (c', log) => (c'.call? call).map fun (c'', turn) => (c'', log ++ [turn]) := by
  induction calls generalizing c with
  | nil => cases h : c.call? call <;> simp [run?, h]
  | cons first calls ih =>
    rw [List.cons_append, run?, run?]
    cases h : c.call? first with
    | none => rfl
    | some next =>
      cases hrun : next.1.run? calls with
      | none => simp [ih, hrun]
      | some rest => cases hcall : rest.1.call? call <;> simp [ih, hrun, hcall]

theorem run?_concat_eq_some_iff {calls : List Call} {call : Call} {log : List Turn} :
    c.run? (calls ++ [call]) = some (c', log) ↔ ∃ c₁ log₁ turn, c.run? calls = some (c₁, log₁) ∧
      c₁.call? call = some (c', turn) ∧ log = log₁ ++ [turn] := by
  rw [run?_concat]
  constructor
  · intro h
    obtain ⟨⟨c₁, log₁⟩, hrun, h⟩ := Option.bind_eq_some_iff.mp h
    obtain ⟨⟨c₂, turn⟩, hcall, h⟩ := Option.map_eq_some_iff.mp h
    cases h
    exact ⟨c₁, log₁, turn, hrun, hcall, rfl⟩
  · rintro ⟨c₁, log₁, turn, hrun, hcall, rfl⟩
    simp [hrun, hcall]

theorem call?_say_eq_some_iff {input : Text} {turn : Turn} :
    c.call? (.say input) = some (c', turn) ↔ ∃ a, c.answer? input = some (c', a) ∧ turn = .said input a := by
  rw [call?, Option.map_eq_some_iff]
  constructor
  · rintro ⟨⟨c₁, a⟩, ha, h⟩
    cases h
    exact ⟨a, ha, rfl⟩
  · rintro ⟨a, ha, rfl⟩
    exact ⟨_, ha, rfl⟩

theorem run?_induction {motive : Conversation → List Turn → Prop} (start : motive c [])
    (call : ∀ {c log call c' turn}, motive c log → c.call? call = some (c', turn) → motive c' (log ++ [turn]))
    {calls : List Call} {log : List Turn} (h : c.run? calls = some (c', log)) : motive c' log := by
  induction calls using List.reverseRecOn generalizing c' log with
  | nil =>
    cases h
    exact start
  | append_singleton calls last ih =>
    obtain ⟨c₁, log₁, turn, hrun, hcall, rfl⟩ := run?_concat_eq_some_iff.mp h
    exact call (ih hrun) hcall

theorem call_of_call? {call : Call} {turn : Turn} (h : c.call? call = some (c', turn)) : turn.call = call := by
  cases call with
  | say input =>
    obtain ⟨a, -, rfl⟩ := call?_say_eq_some_iff.mp h
    rfl
  | reset =>
    cases h
    rfl

/-- The log has the calls in their order. -/
theorem map_call_of_run? {calls : List Call} {log : List Turn} (h : c.run? calls = some (c', log)) :
    log.map Turn.call = calls := by
  induction calls using List.reverseRecOn generalizing c' log with
  | nil =>
    cases h
    rfl
  | append_singleton calls call ih =>
    obtain ⟨c₁, log₁, turn, hrun, hcall, rfl⟩ := run?_concat_eq_some_iff.mp h
    rw [List.map_append, ih hrun, List.map_singleton, call_of_call? hcall]

/-! ### Answers -/

section Answers
variable {input query : Text}

theorem answer?_repeated (hq : Query.normalize input = query) (hp : c.previous = some query) : c.answer? input =
    some ({ c with repeats := c.repeats + 1 },
      ⟨query, c.options.repeatReplyAt (c.repeats + 1), .repeated (c.repeats + 1)⟩) := by
  simp [answer?, hq, hp]

/-- The conversation that has heard a new query. -/
def heard (c : Conversation) (query : Text) : Conversation := { c with previous := some query, repeats := 0 }

/-- The choice of a rule for a query. -/
def choice (c : Conversation) (query : Text) (r : Rule) : Choice :=
  ⟨c.script.select query, r.phrase, (c.script.select query).isFallback c.script⟩

theorem answer?_fixed (hq : Query.normalize input = query) (hp : c.previous ≠ some query) {r : Rule}
    (hr : c.script.rules[(c.script.select query).rule]? = some r)
    (hf : (c.script.select query).isFallback c.script = true) {reply : Text}
    (hreply : c.options.noMatchReply = some reply) :
    c.answer? input = some (c.heard query, ⟨query, reply, .fixed (c.choice query r)⟩) := by
  simp [answer?, hq, hp, hr, hf, hreply, heard, choice]

/-- The details of a reply of a rule. -/
def telling (c : Conversation) (query : Text) (r : Rule) (before : Nat) (template : Text) : Telling :=
  ⟨template, (c.options.fill template (c.script.select query).remainder).conjugated, before, r.range.next before,
    c.companions r.range.first⟩

theorem answer?_told (hq : Query.normalize input = query) (hp : c.previous ≠ some query) {r : Rule}
    (hr : c.script.rules[(c.script.select query).rule]? = some r)
    (hf : (c.script.select query).isFallback c.script = false ∨ c.options.noMatchReply = none) {before : Nat}
    (hbefore : c.rotations[(c.script.select query).rule]? = some before) {template : Text}
    (ht : c.script.replies[r.range.first + before]? = some template) :
    c.answer? input = some ((c.heard query).rotate r.range.first (r.range.next before),
      ⟨query, (c.options.fill template (c.script.select query).remainder).reply,
        .told (c.choice query r) (c.telling query r before template)⟩) := by
  have htell : (c.heard query).tell? query (c.choice query r) r.range = some
      ((c.heard query).rotate r.range.first (r.range.next before),
        ⟨query, (c.options.fill template (c.script.select query).remainder).reply,
          .told (c.choice query r) (c.telling query r before template)⟩) := by
    simp [tell?, heard, choice, telling, companions, hbefore, ht]
  rw [← htell]
  unfold answer?
  simp only [hq, if_neg hp, hr]
  rcases hf with hf | hf
  · simp [hf, heard, choice]
  · simp [hf, heard, choice]

/-- The three ways from a query to an answer. -/
inductive Answers (c : Conversation) (query : Text) : Conversation → Answer → Prop where
  | repeated (hp : c.previous = some query) : Answers c query { c with repeats := c.repeats + 1 }
      ⟨query, c.options.repeatReplyAt (c.repeats + 1), .repeated (c.repeats + 1)⟩
  | fixed {r : Rule} {reply : Text} (hp : c.previous ≠ some query)
      (hr : c.script.rules[(c.script.select query).rule]? = some r)
      (hf : (c.script.select query).isFallback c.script = true) (hreply : c.options.noMatchReply = some reply) :
      Answers c query (c.heard query) ⟨query, reply, .fixed (c.choice query r)⟩
  | told {r : Rule} {before : Nat} {template : Text} (hp : c.previous ≠ some query)
      (hr : c.script.rules[(c.script.select query).rule]? = some r)
      (hf : (c.script.select query).isFallback c.script = false ∨ c.options.noMatchReply = none)
      (hbefore : c.rotations[(c.script.select query).rule]? = some before)
      (ht : c.script.replies[r.range.first + before]? = some template) :
      Answers c query ((c.heard query).rotate r.range.first (r.range.next before))
        ⟨query, (c.options.fill template (c.script.select query).remainder).reply,
          .told (c.choice query r) (c.telling query r before template)⟩

theorem answer?_eq_some_iff {a : Answer} :
    c.answer? input = some (c', a) ↔ Answers c (Query.normalize input) c' a := by
  obtain ⟨query, hq⟩ : ∃ query, Query.normalize input = query := ⟨_, rfl⟩
  rw [hq]
  constructor
  · intro h
    by_cases hp : c.previous = some query
    · rw [answer?_repeated hq hp] at h
      cases h
      exact .repeated hp
    have hopen := h
    unfold answer? at hopen
    simp only [hq, if_neg hp] at hopen
    obtain ⟨r, hr, hopen⟩ := Option.bind_eq_some_iff.mp hopen
    by_cases hf : (c.script.select query).isFallback c.script = false ∨ c.options.noMatchReply = none
    · have htell : (c.heard query).tell? query (c.choice query r) r.range = some (c', a) := by
        rcases hf with hf | hf
        · simpa [hf, heard, choice] using hopen
        · simpa [hf, heard, choice] using hopen
      obtain ⟨before, hbefore, htell⟩ := Option.bind_eq_some_iff.mp htell
      obtain ⟨template, ht, -⟩ := Option.bind_eq_some_iff.mp htell
      rw [answer?_told hq hp hr hf hbefore ht] at h
      cases h
      exact .told hp hr hf hbefore ht
    · obtain ⟨hf, hreply⟩ := not_or.mp hf
      rw [Bool.not_eq_false] at hf
      obtain ⟨reply, hreply⟩ := Option.ne_none_iff_exists'.mp hreply
      rw [answer?_fixed hq hp hr hf hreply] at h
      cases h
      exact .fixed hp hr hf hreply
  · rintro (hp | ⟨hp, hr, hf, hreply⟩ | ⟨hp, hr, hf, hbefore, ht⟩)
    · exact answer?_repeated hq hp
    · exact answer?_fixed hq hp hr hf hreply
    · exact answer?_told hq hp hr hf hbefore ht

end Answers

end Conversation

end Dialogue
