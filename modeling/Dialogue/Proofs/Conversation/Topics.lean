import Dialogue.Proofs.Conversation.Repeat
import Mathlib.Data.List.Chain

/-! # Topics do not interfere

The topic of a line is the block that answers it. A line of another topic leaves the uses of a block as
they are, and what a block says to a new line depends on its own uses alone. So two conversations with the
same lines on each topic, in whatever order, say the same on each topic. -/

namespace Dialogue

/-- The range of the rule that is chosen for a line. -/
def Script.topic? (s : Script) (input : Text) : Option ReplyRange :=
  s.rules[(s.select (Query.normalize input)).rule]?.map (·.range)

/-- Whether the turn is an answer to a line on a topic. -/
def Turn.isOn (s : Script) (topic : ReplyRange) : Turn → Bool
  | .said input _ => s.topic? input = some topic
  | .reset => false

/-- No line has the query of the line before it. -/
def Unrepeating (inputs : List Text) : Prop :=
  inputs.IsChain fun earlier later => Query.normalize earlier ≠ Query.normalize later

/-- Two lists with the same members of one kind grow from nothing by one of another kind on either side, or
    by the same one on both. -/
theorem filter_eq_induction {α : Type} {p : α → Bool} {motive : List α → List α → Prop} (nil : motive [] [])
    (left : ∀ {xs ys x}, p x = false → motive xs ys → motive (xs ++ [x]) ys)
    (right : ∀ {xs ys y}, p y = false → motive xs ys → motive xs (ys ++ [y]))
    (both : ∀ {xs ys x}, p x = true → motive xs ys → motive (xs ++ [x]) (ys ++ [x])) {xs ys : List α}
    (h : xs.filter p = ys.filter p) : motive xs ys := by
  induction xs using List.reverseRecOn generalizing ys with
  | nil =>
    induction ys using List.reverseRecOn with
    | nil => exact nil
    | append_singleton ys y ih =>
      rw [List.filter_append, List.filter_nil, eq_comm, List.append_eq_nil_iff] at h
      obtain ⟨hys, hy⟩ := h
      exact right (by simpa using hy) (ih hys.symm)
  | append_singleton xs x ihx =>
    cases hx : p x with
    | false =>
      rw [List.filter_append, List.filter_singleton, hx, cond_false, List.append_nil] at h
      exact left hx (ihx h)
    | true =>
      -- The last one of the kind on the other side is `x` too, behind some of another kind.
      induction ys using List.reverseRecOn with
      | nil => simp [hx] at h
      | append_singleton ys y ihy =>
        cases hy : p y with
        | false =>
          refine right hy (ihy ?_)
          rw [h, List.filter_append, List.filter_singleton, hy, cond_false, List.append_nil]
        | true =>
          rw [List.filter_append, List.filter_append, List.filter_singleton, List.filter_singleton, hx, hy] at h
          obtain ⟨hinit, hlast⟩ := List.append_inj' h rfl
          cases hlast
          exact both hx (ihx hinit)

namespace Conversation
variable {s : Script} {o : Options} {c c' d d' : Conversation} {log log' : List Turn} {input : Text} {a b : Answer}

/-! ### One line -/

/-- An answer uses no block but the one of its topic. -/
theorem uses_eq_false (hs : s.WellFormed) (hscript : c.script = s) {r : Rule} (hr : r ∈ s.rules)
    (htopic : s.topic? input ≠ some r.range) (ha : c.answer? input = some (c', a)) :
    Turn.uses s r.range.first (.said input a) = false := by
  subst hscript
  cases answer?_eq_some_iff.mp ha with
  | repeated => rfl
  | fixed => rfl
  | @told q before template hp hq =>
    have hrange : q.range ≠ r.range := by
      intro hrange
      rw [Script.topic?, hq, Option.map_some, hrange] at htopic
      exact htopic rfl
    have hfirst : q.range.first ≠ r.range.first := mt (hs.rules.range_eq (List.mem_of_getElem? hq) hr) hrange
    simp [Turn.uses, Answer.rule?, Answer.choice?, choice, hq, hfirst]

/-- To a new line, two conversations that used its block as often say the same. -/
theorem Tracks.answer_eq (h : Tracks s o c log) (h' : Tracks s o d log')
    (hc : c.previous ≠ some (Query.normalize input)) (hd : d.previous ≠ some (Query.normalize input))
    {topic : ReplyRange} (htopic : s.topic? input = some topic) (huses : s.uses topic.first log = s.uses topic.first log')
    (ha : c.answer? input = some (c', a)) (hb : d.answer? input = some (d', b)) : a = b := by
  obtain ⟨hscript, hoptions, -⟩ := id h
  obtain ⟨hscript', hoptions', -⟩ := id h'
  have hchoice : ∀ r, d.choice (Query.normalize input) r = c.choice (Query.normalize input) r := fun r => by
    rw [choice, choice, hscript, hscript']
  cases answer?_eq_some_iff.mp ha with
  | repeated hp => exact absurd hp hc
  | @fixed r reply _ hr hf hreply =>
    rw [hscript, ← hscript'] at hr hf
    rw [hoptions, ← hoptions'] at hreply
    rw [answer?_fixed rfl hd hr hf hreply, hchoice] at hb
    cases hb
    rfl
  | @told r before template _ hr hf hbefore ht =>
    rw [hscript] at hr hbefore
    have hrange : r.range = topic := by
      rw [Script.topic?, hr] at htopic
      exact Option.some.inj htopic
    have hbefore' : d.rotations[(s.select (Query.normalize input)).rule]? = some before := by
      rw [h'.rotations_getElem? hr, hrange, ← huses, ← hrange, ← h.rotations_getElem? hr, hbefore]
    have htelling : d.telling (Query.normalize input) r before template =
        c.telling (Query.normalize input) r before template := by
      rw [telling, telling, companions, companions, hscript, hscript', hoptions, hoptions']
    rw [hscript, ← hscript'] at hf ht
    rw [← hscript'] at hr hbefore'
    rw [hoptions, ← hoptions'] at hf
    rw [answer?_told rfl hd hr hf hbefore' ht, hchoice, htelling] at hb
    cases hb
    rw [hscript, hscript', hoptions, hoptions']

/-! ### Two runs -/

/-- Two logs that say the same on a topic and used its block as often. -/
structure SameOn (s : Script) (topic : ReplyRange) (log log' : List Turn) : Prop where
  turns : log.filter (Turn.isOn s topic) = log'.filter (Turn.isOn s topic)
  uses : s.uses topic.first log = s.uses topic.first log'

namespace SameOn
variable {topic : ReplyRange}

theorem symm (h : SameOn s topic log log') : SameOn s topic log' log := ⟨h.turns.symm, h.uses.symm⟩

theorem off (h : SameOn s topic log log') (htopic : s.topic? input ≠ some topic)
    (hidle : Turn.uses s topic.first (.said input a) = false) : SameOn s topic (log ++ [.said input a]) log' where
  turns := by
    rw [← h.turns, List.filter_append, List.filter_singleton]
    simp [Turn.isOn, htopic]
  uses := by simp [Script.uses_concat_said, hidle, h.uses]

theorem on (h : SameOn s topic log log') (turn : Turn) : SameOn s topic (log ++ [turn]) (log' ++ [turn]) where
  turns := by rw [List.filter_append, List.filter_append, h.turns]
  uses := by
    cases turn with
    | said input a => rw [Script.uses_concat_said, Script.uses_concat_said, h.uses]
    | reset => rw [Script.uses_concat_reset, Script.uses_concat_reset]

end SameOn

section Runs
variable {inputs inputs' : List Text}

/-- In a run over lines that do not repeat, the last line is a new one. -/
theorem run?_concat_new (hnew : Unrepeating (inputs ++ [input]))
    (h : (start s o).run? ((inputs ++ [input]).map .say) = some (c, log)) : ∃ c₁ log₁ a,
      (start s o).run? (inputs.map .say) = some (c₁, log₁) ∧ c₁.previous ≠ some (Query.normalize input) ∧
      c₁.answer? input = some (c, a) ∧ log = log₁ ++ [.said input a] := by
  rw [List.map_append, List.map_singleton] at h
  obtain ⟨c₁, log₁, turn, hrun, hcall, rfl⟩ := run?_concat_eq_some_iff.mp h
  obtain ⟨a, ha, rfl⟩ := call?_say_eq_some_iff.mp hcall
  refine ⟨c₁, log₁, a, hrun, fun hprevious => ?_, ha, rfl⟩
  rw [(recalls_of_run hrun).previous, List.getLast?_map] at hprevious
  obtain ⟨call, hlast, hquery⟩ := Option.bind_eq_some_iff.mp hprevious
  obtain ⟨earlier, hearlier, rfl⟩ := Option.map_eq_some_iff.mp hlast
  obtain ⟨-, -, hchain⟩ := List.isChain_append.mp hnew
  exact hchain earlier hearlier input rfl (Option.some.inj hquery)

theorem sameOn_of_run (hs : s.WellFormed) {r : Rule} (hr : r ∈ s.rules) (hnew : Unrepeating inputs)
    (hnew' : Unrepeating inputs')
    (htopic : inputs.filter (s.topic? · = some r.range) = inputs'.filter (s.topic? · = some r.range))
    (hc : (start s o).run? (inputs.map .say) = some (c, log))
    (hd : (start s o).run? (inputs'.map .say) = some (d, log')) : SameOn s r.range log log' := by
  refine filter_eq_induction (motive := fun inputs inputs' => ∀ {c log d log'},
    Unrepeating inputs → Unrepeating inputs' →
    (start s o).run? (inputs.map .say) = some (c, log) → (start s o).run? (inputs'.map .say) = some (d, log') →
    SameOn s r.range log log') ?nil ?left ?right ?both htopic hnew hnew' hc hd
  case nil =>
    intro c log d log' _ _ hc hd
    cases hc
    cases hd
    exact ⟨rfl, rfl⟩
  case left =>
    intro inputs inputs' x hx ih c log d log' hnew hnew' hc hd
    obtain ⟨c₁, log₁, a, hc₁, -, ha, rfl⟩ := run?_concat_new hnew hc
    have htopic : s.topic? x ≠ some r.range := of_decide_eq_false hx
    have hidle := uses_eq_false hs (tracks_of_run hs o hc₁).script hr htopic ha
    exact (ih hnew.left_of_append hnew' hc₁ hd).off htopic hidle
  case right =>
    intro inputs inputs' y hy ih c log d log' hnew hnew' hc hd
    obtain ⟨d₁, log₁, b, hd₁, -, hb, rfl⟩ := run?_concat_new hnew' hd
    have htopic : s.topic? y ≠ some r.range := of_decide_eq_false hy
    have hidle := uses_eq_false hs (tracks_of_run hs o hd₁).script hr htopic hb
    exact ((ih hnew hnew'.left_of_append hc hd₁).symm.off htopic hidle).symm
  case both =>
    intro inputs inputs' x hx ih c log d log' hnew hnew' hc hd
    obtain ⟨c₁, log₁, a, hc₁, hprevious, ha, rfl⟩ := run?_concat_new hnew hc
    obtain ⟨d₁, log₂, b, hd₁, hprevious', hb, rfl⟩ := run?_concat_new hnew' hd
    have hsame := ih hnew.left_of_append hnew'.left_of_append hc₁ hd₁
    -- Both blocks were used as often, so they point to the same reply.
    obtain rfl : a = b := (tracks_of_run hs o hc₁).answer_eq (tracks_of_run hs o hd₁) hprevious hprevious'
      (of_decide_eq_true hx) hsame.uses ha hb
    exact hsame.on _

/-- Two rows of lines, neither with a query twice in a row, that have the same lines on each topic in the
    same order: the `m`th line on a topic gets the same answer in both, and every rotation ends up the
    same. The order between lines on different topics changes nothing. -/
theorem run?_of_topics (hs : s.Loaded) (o : Options) (hnew : Unrepeating inputs) (hnew' : Unrepeating inputs')
    (htopics : ∀ r ∈ s.rules,
      inputs.filter (s.topic? · = some r.range) = inputs'.filter (s.topic? · = some r.range)) :
    ∃ c log d log', (start s o).run? (inputs.map .say) = some (c, log) ∧ log.map Turn.call = inputs.map .say ∧
      (start s o).run? (inputs'.map .say) = some (d, log') ∧ log'.map Turn.call = inputs'.map .say ∧
      (∀ r ∈ s.rules, log.filter (Turn.isOn s r.range) = log'.filter (Turn.isOn s r.range)) ∧
      ∀ i, c.rotation? i = d.rotation? i := by
  have wf := hs.wellFormed
  obtain ⟨c, log, hc⟩ := exists_run wf o (inputs.map .say)
  obtain ⟨d, log', hd⟩ := exists_run wf o (inputs'.map .say)
  have hsame : ∀ r ∈ s.rules, SameOn s r.range log log' := fun r hr =>
    sameOn_of_run wf hr hnew hnew' (htopics r hr) hc hd
  refine ⟨c, log, d, log', hc, map_call_of_run? hc, hd, map_call_of_run? hd, fun r hr => (hsame r hr).turns,
    fun i => ?_⟩
  rw [rotation?, rotation?, (tracks_of_run wf o hc).rotations, (tracks_of_run wf o hd).rotations]
  have hrotations : s.rules.map (fun r => s.uses r.range.first log % r.range.size) =
      s.rules.map (fun r => s.uses r.range.first log' % r.range.size) :=
    List.map_congr_left fun r hr => by rw [(hsame r hr).uses]
  rw [hrotations]

/-- Two blocks, one with two keywords, and the fallback rule take turns in two ways. -/
theorem run?_of_topics_turn :
    let s : Script := ⟨[⟨['A'], ⟨0, 1⟩, 1⟩, ⟨['B'], ⟨0, 1⟩, 2⟩, ⟨['C'], ⟨2, 4⟩, 7⟩, ⟨['N'], ⟨5, 5⟩, 13⟩],
      [['U'], ['V', '*'], ['W'], ['X'], ['Y'], ['Z']], 3⟩
    let inputs : List Text := [['a'], ['b'], ['c'], ['q'], ['a', ' ', 'd'], ['c', '!']]
    let inputs' : List Text := [['c'], ['a'], ['c', '!'], ['b'], ['q'], ['a', ' ', 'd']]
    s.Loaded ∧ Unrepeating inputs ∧ Unrepeating inputs' ∧
      (∀ r ∈ s.rules, inputs.filter (s.topic? · = some r.range) = inputs'.filter (s.topic? · = some r.range)) ∧
      ∃ c log d log', (start s .classic).run? (inputs.map .say) = some (c, log) ∧
        (start s .classic).run? (inputs'.map .say) = some (d, log') ∧
        log.filter (Turn.isOn s ⟨0, 1⟩) = log'.filter (Turn.isOn s ⟨0, 1⟩) ∧ c.rotation? 2 = d.rotation? 2 := by
  intro s inputs inputs'
  have hs : s.Loaded :=
    ⟨['N'], ["A", "B", "!", "U", "V*", ".", "C", "!", "W", "X", "Y", ".", "N", "!", "Z", "."].map String.toList, by rfl⟩
  have hnew : Unrepeating inputs := by
    unfold Unrepeating
    decide
  have hnew' : Unrepeating inputs' := by
    unfold Unrepeating
    decide
  have htopics : ∀ r ∈ s.rules,
      inputs.filter (s.topic? · = some r.range) = inputs'.filter (s.topic? · = some r.range) := by decide
  obtain ⟨c, log, d, log', hc, -, hd, -, hturns, hrotations⟩ := run?_of_topics hs .classic hnew hnew' htopics
  exact ⟨hs, hnew, hnew', htopics, c, log, d, log', hc, hd, hturns _ (List.mem_cons_self ..), hrotations 2⟩

end Runs

end Conversation

end Dialogue
