import Dialogue.Proofs.Conversation.Run

/-! # Rotation is a count of uses

A block is used by every answer that one of its rules gives, unless the answer repeats or a fixed reply
stands for it. The rotations of a conversation are, for each rule, the uses of its block since the last
reset, modulo its number of replies (`Tracks`). -/

namespace Dialogue

def Answer.advances (a : Answer) : Bool := !a.flags .repeated && !a.flags .overridden

namespace Turn

def isReset : Turn → Bool
  | .reset => true
  | .said .. => false

/-- Whether the turn is an answer by a rule with this first reply that moves its rotation. -/
def uses (s : Script) (first : Nat) : Turn → Bool
  | .said _ a => a.advances && (a.rule?.bind (s.rules[·]?)).any (·.range.first = first)
  | .reset => false

end Turn

/-- How often the block with this first reply was used since the last reset. -/
def Script.uses (s : Script) (first : Nat) (log : List Turn) : Nat :=
  (log.rtakeWhile (!·.isReset)).countP (Turn.uses s first)

theorem Script.uses_concat_said (s : Script) (first : Nat) (log : List Turn) (input : Text) (a : Answer) :
    s.uses first (log ++ [.said input a]) = s.uses first log + if Turn.uses s first (.said input a) then 1 else 0 := by
  rw [uses, List.rtakeWhile_concat_pos _ _ _ (by simp [Turn.isReset]), List.countP_append, List.countP_singleton]
  rfl

theorem Script.uses_concat_reset (s : Script) (first : Nat) (log : List Turn) :
    s.uses first (log ++ [.reset]) = 0 := by
  rw [uses, List.rtakeWhile_concat_neg _ _ _ (by simp [Turn.isReset])]
  rfl

namespace ReplyRange

theorem size_pos (r : ReplyRange) : 0 < r.size := Nat.succ_pos _

theorem next_eq {r : ReplyRange} (hr : r.first ≤ r.last) {offset : Nat} (ho : offset < r.size) :
    r.next offset = (offset + 1) % r.size := by
  unfold next
  rw [size] at ho ⊢
  by_cases hlast : offset + 1 = r.last - r.first + 1
  · rw [if_pos (by omega), hlast, Nat.mod_self]
  · rw [if_neg (by omega), Nat.mod_eq_of_lt (by omega)]

end ReplyRange

namespace Conversation

/-- The conversation that these turns lead to. -/
structure Tracks (s : Script) (o : Options) (c : Conversation) (log : List Turn) : Prop where
  script : c.script = s
  options : c.options = o
  rotations : c.rotations = s.rules.map fun r => s.uses r.range.first log % r.range.size

namespace Tracks
variable {s : Script} {o : Options} {c c' : Conversation} {log : List Turn}

theorem start (s : Script) (o : Options) : Tracks s o (start s o) [] where
  script := rfl
  options := rfl
  rotations := by simp [Conversation.start, Script.uses, List.map_const']

theorem reset (h : Tracks s o c log) : Tracks s o c.reset (log ++ [.reset]) where
  script := h.script
  options := h.options
  rotations := by simp [Conversation.reset, Conversation.start, Script.uses_concat_reset, h.script, List.map_const']

theorem rotations_getElem? (h : Tracks s o c log) {i : Nat} {r : Rule} (hr : s.rules[i]? = some r) :
    c.rotations[i]? = some (s.uses r.range.first log % r.range.size) := by
  rw [h.rotations, List.getElem?_map, hr]
  rfl

/-- An answer that uses no block leaves the rotations as they are. -/
theorem idle (h : Tracks s o c log) {input : Text} {a : Answer} (ha : a.advances = false)
    (hscript : c'.script = c.script) (hoptions : c'.options = c.options) (hrot : c'.rotations = c.rotations) :
    Tracks s o c' (log ++ [.said input a]) where
  script := hscript.trans h.script
  options := hoptions.trans h.options
  rotations := by
    rw [hrot, h.rotations]
    simp [Script.uses_concat_said, Turn.uses, ha]

/-- The rule that answers moves the rotation of its whole block on. -/
theorem rotate (hs : s.WellFormed) (h : Tracks s o c log) {input : Text} {a : Answer} (ha : a.advances = true) {i : Nat}
    (hi : a.rule? = some i) {r : Rule} (hr : s.rules[i]? = some r) (hscript : c'.script = c.script)
    (hoptions : c'.options = c.options) (hrot : c'.rotations = c.rotations) :
    Tracks s o (c'.rotate r.range.first (r.range.next (s.uses r.range.first log % r.range.size)))
      (log ++ [.said input a]) where
  script := hscript.trans h.script
  options := hoptions.trans h.options
  rotations := by
    have huses : ∀ first, Turn.uses s first (.said input a) = decide (r.range.first = first) := by
      intro first
      simp [Turn.uses, ha, hi, hr]
    have hmem := List.mem_of_getElem? hr
    show List.zipWith _ c'.script.rules c'.rotations = _
    rw [hscript, hrot, h.script, h.rotations, List.zipWith_map_right, List.zipWith_self]
    refine List.map_congr_left fun q hq => ?_
    rw [Script.uses_concat_said, huses]
    by_cases hfirst : q.range.first = r.range.first
    · -- Rules with one first reply have one range, so the offset that is copied is the one of `q`.
      have hrange : q.range = r.range := hs.rules.range_eq hq hmem hfirst
      rw [if_pos hfirst, hrange, ReplyRange.next_eq (hs.rules.ranges r hmem).1 (Nat.mod_lt _ r.range.size_pos),
        Nat.mod_add_mod, if_pos (decide_eq_true rfl)]
    · rw [if_neg hfirst, if_neg (by simpa using Ne.symm hfirst), Nat.add_zero]

theorem exists_reply (hs : s.WellFormed) {i : Nat} {r : Rule} (hr : s.rules[i]? = some r) (log : List Turn) :
    ∃ t, s.replies[r.range.first + s.uses r.range.first log % r.range.size]? = some t := by
  have hlt : r.range.first + s.uses r.range.first log % r.range.size < s.replies.length := by
    have hrange := hs.rules.ranges r (List.mem_of_getElem? hr)
    have hmod := Nat.mod_lt (s.uses r.range.first log) r.range.size_pos
    unfold ReplyRange.size at *
    omega
  exact ⟨_, List.getElem?_eq_getElem hlt⟩

/-- A new line is answered by the rule that is chosen for it, with the reply that the uses of its block so
    far point to, unless a fixed reply stands for the fallback rule's. -/
theorem told (hs : s.WellFormed) (h : Tracks s o c log) {input : Text} {x : Selection}
    (hx : s.select (Query.normalize input) = x) (hprev : c.previous ≠ some (Query.normalize input)) {r : Rule}
    (hr : s.rules[x.rule]? = some r) (hf : x.rule ≠ s.fallback ∨ o.noMatchReply = none) :
    ∃ t c' a, s.replies[r.range.first + s.uses r.range.first log % r.range.size]? = some t ∧
      c.answer? input = some (c', a) ∧ Tracks s o c' (log ++ [.said input a]) ∧ a.rule? = some x.rule ∧
      a.template? = some t ∧ a.reply = (o.fill t x.remainder).reply := by
  obtain ⟨t, ht⟩ := exists_reply hs hr log
  have hbefore := h.rotations_getElem? hr
  obtain ⟨hscript, hoptions, -⟩ := id h
  subst hscript hoptions hx
  have hf' : (c.script.select (Query.normalize input)).isFallback c.script = false ∨ c.options.noMatchReply = none :=
    hf.imp_left decide_eq_false
  refine ⟨t, _, _, ht, answer?_told rfl hprev hr hf' hbefore ht, ?_, rfl, rfl, rfl⟩
  exact h.rotate hs rfl rfl hr rfl rfl rfl

/-- Every line is answered. An answer that uses a block takes the reply that the uses so far point to. -/
theorem answer (hs : s.WellFormed) (h : Tracks s o c log) (input : Text) : ∃ c' a, c.answer? input = some (c', a) ∧
    Tracks s o c' (log ++ [.said input a]) ∧
    (a.advances = true → ∃ i r t, a.rule? = some i ∧ s.rules[i]? = some r ∧ a.template? = some t ∧
      s.replies[r.range.first + s.uses r.range.first log % r.range.size]? = some t) := by
  by_cases hprev : c.previous = some (Query.normalize input)
  · exact ⟨_, _, answer?_repeated rfl hprev, h.idle rfl rfl rfl rfl, fun ha => by cases ha⟩
  obtain ⟨r, hr⟩ := Script.exists_rule_select hs (Query.normalize input)
  by_cases hf : (s.select (Query.normalize input)).rule ≠ s.fallback ∨ o.noMatchReply = none
  · obtain ⟨t, c', a, ht, ha, h', hrule, htemplate, -⟩ := h.told hs rfl hprev hr hf
    exact ⟨c', a, ha, h', fun _ => ⟨_, r, t, hrule, hr, htemplate, ht⟩⟩
  · rw [not_or, not_not] at hf
    obtain ⟨hfallback, hreply⟩ := hf
    obtain ⟨reply, hreply⟩ := Option.ne_none_iff_exists'.mp hreply
    obtain ⟨hscript, hoptions, -⟩ := id h
    subst hscript hoptions
    refine ⟨_, _, answer?_fixed rfl hprev hr (decide_eq_true hfallback) hreply, ?_, fun ha => by cases ha⟩
    exact h.idle rfl rfl rfl rfl

theorem call (hs : s.WellFormed) (h : Tracks s o c log) (call : Call) : ∃ c' turn, c.call? call = some (c', turn) ∧
    Tracks s o c' (log ++ [turn]) := by
  cases call with
  | say input =>
    obtain ⟨c', a, ha, h', -⟩ := h.answer hs input
    exact ⟨c', .said input a, call?_say_eq_some_iff.mpr ⟨a, ha, rfl⟩, h'⟩
  | reset => exact ⟨c.reset, .reset, rfl, h.reset⟩

theorem of_call? (hs : s.WellFormed) (h : Tracks s o c log) {call : Call} {turn : Turn}
    (hcall : c.call? call = some (c', turn)) : Tracks s o c' (log ++ [turn]) := by
  obtain ⟨c₁, turn₁, hcall₁, h'⟩ := h.call hs call
  rw [hcall] at hcall₁
  cases hcall₁
  exact h'

end Tracks

section Runs
variable {s : Script} {c c' : Conversation} {log : List Turn}

theorem tracks_of_run (hs : s.WellFormed) (o : Options) {calls : List Call}
    (h : (start s o).run? calls = some (c, log)) : Tracks s o c log :=
  run?_induction (motive := Tracks s o) (Tracks.start s o) (fun ht hcall => ht.of_call? hs hcall) h

/-- No call fails. -/
theorem exists_run (hs : s.WellFormed) (o : Options) (calls : List Call) :
    ∃ c log, (start s o).run? calls = some (c, log) := by
  induction calls using List.reverseRecOn with
  | nil => exact ⟨_, _, rfl⟩
  | append_singleton calls call ih =>
    obtain ⟨c, log, hrun⟩ := ih
    obtain ⟨c', turn, hcall, -⟩ := (tracks_of_run hs o hrun).call hs call
    exact ⟨c', log ++ [turn], run?_concat_eq_some_iff.mpr ⟨c, log, turn, hrun, hcall, rfl⟩⟩

/-- After any calls, rotation is history: the rotation of a rule is the number of uses of its block since
    the last reset, modulo its number of replies. The next line is answered; an answer that uses a block
    takes the reply that the uses so far point to, and every other rotation stays. -/
theorem rotation?_eq_uses (hs : s.Loaded) (o : Options) (calls : List Call) :
    ∃ c log, (start s o).run? calls = some (c, log) ∧
      (∀ i r, s.rules[i]? = some r → c.rotation? i = some (s.uses r.range.first log % r.range.size)) ∧
      (∀ i j r q, s.rules[i]? = some r → s.rules[j]? = some q → r.range = q.range → c.rotation? i = c.rotation? j) ∧
      ∀ input, ∃ c' a, c.answer? input = some (c', a) ∧
        (a.advances = true → ∃ i r t, a.rule? = some i ∧ s.rules[i]? = some r ∧ a.template? = some t ∧
          s.replies[r.range.first + s.uses r.range.first log % r.range.size]? = some t ∧
          (s.uses r.range.first log = r.range.size → s.replies[r.range.first]? = some t)) ∧
        ∀ i r, s.rules[i]? = some r → Turn.uses s r.range.first (.said input a) = false →
          c'.rotation? i = c.rotation? i := by
  have wf := hs.wellFormed
  obtain ⟨c, log, hrun⟩ := exists_run wf o calls
  have h := tracks_of_run wf o hrun
  refine ⟨c, log, hrun, fun i r hr => h.rotations_getElem? hr, fun i j r q hr hq hrange => ?_, fun input => ?_⟩
  · rw [rotation?, rotation?, h.rotations_getElem? hr, h.rotations_getElem? hq, hrange]
  · obtain ⟨c', a, ha, h', htold⟩ := h.answer wf input
    refine ⟨c', a, ha, fun hadv => ?_, fun i r hr hidle => ?_⟩
    · obtain ⟨i, r, t, hi, hr, ht, hreply⟩ := htold hadv
      refine ⟨i, r, t, hi, hr, ht, hreply, fun hfull => ?_⟩
      rwa [hfull, Nat.mod_self] at hreply
    · rw [rotation?, rotation?, h.rotations_getElem? hr, h'.rotations_getElem? hr, Script.uses_concat_said, hidle]
      rfl

/-- Two rules of one block, a reset, a repeated line and a line that no rule knows. -/
theorem rotation?_eq_uses_shared :
    let s : Script := ⟨[⟨['A'], ⟨0, 1⟩, 1⟩, ⟨['B'], ⟨0, 1⟩, 2⟩, ⟨['N'], ⟨2, 2⟩, 7⟩], [['X'], ['Y'], ['Z']], 2⟩
    s.Loaded ∧ ∃ c log, (start s .classic).run? [.say ['a'], .reset, .say ['b'], .say ['b'], .say ['q'],
        .say ['a', ' ', 'b'], .say ['b', '!']] = some (c, log) ∧
      c.rotation? 0 = some (s.uses 0 log % 2) ∧ c.rotation? 1 = some (s.uses 0 log % 2) := by
  intro s
  have hs : s.Loaded :=
    ⟨['N'], ["A", "B", "!", "X", "Y", ".", "N", "!", "Z", "."].map String.toList, by rfl⟩
  obtain ⟨c, log, hrun, hrot, -⟩ := rotation?_eq_uses hs .classic
    [.say ['a'], .reset, .say ['b'], .say ['b'], .say ['q'], .say ['a', ' ', 'b'], .say ['b', '!']]
  exact ⟨hs, c, log, hrun, hrot 0 _ rfl, hrot 1 _ rfl⟩

end Runs

end Conversation

end Dialogue
