import Dialogue.Proofs.Conversation.Rotation

/-! # Repeats

A conversation stores one query and one count. They tell the last line that was said and how often in a
row it was said (`Recalls`): a line is a repeat when the line before it, with no reset between them, has
its query, and what is said to it depends on the length of the row. -/

namespace Dialogue

/-- The query of a line that was said. -/
def Call.query? : Call → Option Text
  | .say input => some (Query.normalize input)
  | .reset => none

/-- How many of the last calls, one after another, say a line with this query. -/
def streak (query : Text) (calls : List Call) : Nat := (calls.rtakeWhile (·.query? = some query)).length

theorem streak_concat (query : Text) (calls : List Call) (call : Call) :
    streak query (calls ++ [call]) = if call.query? = some query then streak query calls + 1 else 0 := by
  unfold streak
  split
  · rename_i h
    rw [List.rtakeWhile_concat_pos _ _ _ (by simpa using h), List.length_append, List.length_singleton]
  · rename_i h
    rw [List.rtakeWhile_concat_neg _ _ _ (by simpa using h), List.length_nil]

theorem streak_concat_say (input : Text) (calls : List Call) : streak (Query.normalize input) (calls ++ [.say input]) =
    streak (Query.normalize input) calls + 1 := by
  have hsays : Call.query? (.say input) = some (Query.normalize input) := rfl
  rw [streak_concat, if_pos hsays]

theorem streak_le_length (query : Text) (calls : List Call) : streak query calls ≤ calls.length :=
  (List.rtakeWhile_suffix _ _).length_le

/-- There is a row where the last call said a line with the query. -/
theorem streak_pos_iff {query : Text} {calls : List Call} :
    0 < streak query calls ↔ ∃ input, calls.getLast? = some (.say input) ∧ Query.normalize input = query := by
  rcases List.eq_nil_or_concat' calls with rfl | ⟨calls, call, rfl⟩
  · simp [streak]
  · rw [streak_concat, List.getLast?_concat]
    cases call with
    | say input => by_cases h : Query.normalize input = query <;> simp [Call.query?, h]
    | reset => simp [Call.query?]

namespace Conversation
variable {c c' : Conversation} {calls : List Call} {input query : Text} {a : Answer}

/-! ### One call -/

/-- A new line is stored and starts a count, whatever is said to it. -/
theorem answer?_new (hp : c.previous ≠ some (Query.normalize input)) (h : c.answer? input = some (c', a)) :
    c'.previous = some (Query.normalize input) ∧ c'.repeats = 0 ∧ a.flags .repeated = false := by
  cases answer?_eq_some_iff.mp h with
  | repeated hrepeat => exact absurd hrepeat hp
  | fixed => exact ⟨rfl, rfl, rfl⟩
  | told => exact ⟨rfl, rfl, rfl⟩

/-! ### Runs -/

/-- What a conversation stores after some calls since its start. -/
structure Recalls (c : Conversation) (calls : List Call) : Prop where
  previous : c.previous = calls.getLast?.bind Call.query?
  repeats : ∀ query, c.previous = some query → c.repeats + 1 = streak query calls

namespace Recalls

theorem start (s : Script) (o : Options) : Recalls (start s o) [] where
  previous := rfl
  repeats query h := by cases h

theorem reset (c : Conversation) (calls : List Call) : Recalls c.reset (calls ++ [.reset]) where
  previous := by
    rw [List.getLast?_concat]
    rfl
  repeats query h := by cases h

theorem previous_eq_some_iff (h : Recalls c calls) : c.previous = some query ↔ 0 < streak query calls := by
  rw [h.previous, streak_pos_iff]
  cases hlast : calls.getLast? with
  | none => simp
  | some call => cases call <;> simp [Call.query?]

theorem say (h : Recalls c calls) (ha : c.answer? input = some (c', a)) : Recalls c' (calls ++ [.say input]) := by
  by_cases hp : c.previous = some (Query.normalize input)
  · rw [answer?_repeated rfl hp] at ha
    cases ha
    refine ⟨?_, fun query hquery => ?_⟩
    · rw [List.getLast?_concat]
      exact hp
    · cases hp.symm.trans hquery
      rw [streak_concat_say, ← h.repeats _ hp]
  · obtain ⟨hprevious, hrepeats, -⟩ := answer?_new hp ha
    refine ⟨?_, fun query hquery => ?_⟩
    · rw [List.getLast?_concat]
      exact hprevious
    · cases hprevious.symm.trans hquery
      have hzero : streak (Query.normalize input) calls = 0 := Nat.eq_zero_of_not_pos (mt h.previous_eq_some_iff.mpr hp)
      rw [streak_concat_say, hzero, hrepeats]

theorem call (h : Recalls c calls) {call : Call} {turn : Turn} (hcall : c.call? call = some (c', turn)) :
    Recalls c' (calls ++ [call]) := by
  cases call with
  | say input =>
    obtain ⟨a, ha, -⟩ := call?_say_eq_some_iff.mp hcall
    exact h.say ha
  | reset =>
    cases hcall
    exact reset c calls

end Recalls

section Runs
variable {s : Script} {o : Options} {log : List Turn}

theorem recalls_of_run (h : (start s o).run? calls = some (c, log)) : Recalls c calls := by
  induction calls using List.reverseRecOn generalizing c log with
  | nil =>
    cases h
    exact Recalls.start s o
  | append_singleton calls call ih =>
    obtain ⟨c₁, log₁, turn, hrun, hcall, rfl⟩ := run?_concat_eq_some_iff.mp h
    exact (ih hrun).call hcall

/-- After any calls, the next line is a repeat when the call before it said a line with the same query. The
    `m`th line of a row gets the limit reply from the third on, where there is one, or else the repeat
    reply, and moves no rotation. Every line leaves its query behind. -/
theorem repeated_iff_streak (hs : s.Loaded) (o : Options) (calls : List Call) (input : Text) :
    ∃ c log c' a, (start s o).run? calls = some (c, log) ∧ c.answer? input = some (c', a) ∧
      (a.flags .repeated = true ↔
        ∃ earlier, calls.getLast? = some (.say earlier) ∧ Query.normalize earlier = Query.normalize input) ∧
      (∀ m, streak (Query.normalize input) (calls ++ [.say input]) = m → 2 ≤ m →
        a.reply = (if 3 ≤ m then o.repeatLimitReply.getD o.repeatReply else o.repeatReply) ∧
        c'.rotations = c.rotations ∧ c'.previous = c.previous) ∧
      c'.previous = some (Query.normalize input) := by
  obtain ⟨c, log, hrun⟩ := exists_run hs.wellFormed o calls
  have htracks := tracks_of_run hs.wellFormed o hrun
  have hrecalls := recalls_of_run hrun
  obtain ⟨c', a, ha, -⟩ := htracks.answer hs.wellFormed input
  refine ⟨c, log, c', a, hrun, ha, ?_⟩
  rw [← streak_pos_iff, ← hrecalls.previous_eq_some_iff, streak_concat_say]
  by_cases hp : c.previous = some (Query.normalize input)
  · rw [answer?_repeated rfl hp] at ha
    cases ha
    refine ⟨iff_of_true rfl hp, fun m hm _ => ⟨?_, rfl, rfl⟩, hp⟩
    show c.options.repeatReplyAt (c.repeats + 1) = _
    rw [← hm, ← hrecalls.repeats _ hp, htracks.options, Options.repeatReplyAt]
    cases o.repeatLimitReply <;> simp
  · obtain ⟨hprevious, -, hflag⟩ := answer?_new hp ha
    have hstreak := mt hrecalls.previous_eq_some_iff.mpr hp
    refine ⟨iff_of_false (by simp [hflag]) hp, fun m hm hle => absurd hle (by omega), hprevious⟩

/-- A row that a reset cut off, and after it the third line of a row, each line written in its own way. -/
theorem repeated_iff_streak_limit :
    let s : Script := ⟨[⟨['A'], ⟨0, 1⟩, 1⟩, ⟨['N'], ⟨2, 2⟩, 6⟩], [['X'], ['Y'], ['Z']], 1⟩
    let o : Options := { Options.classic with repeatLimitReply := some "STOP IT.".toList }
    s.Loaded ∧ ∃ c log c' a, (start s o).run? [.say ['a'], .say ['A', '!'], .say ['a'], .reset, .say ['a', '?'],
        .say ['A']] = some (c, log) ∧ c.answer? ['a', '!'] = some (c', a) ∧ a.flags .repeated = true ∧
      a.reply = "STOP IT.".toList ∧ c'.rotations = c.rotations := by
  intro s o
  let calls : List Call := [.say ['a'], .say ['A', '!'], .say ['a'], .reset, .say ['a', '?'], .say ['A']]
  have hs : s.Loaded := ⟨['N'], ["A", "!", "X", "Y", ".", "N", "!", "Z", "."].map String.toList, by rfl⟩
  obtain ⟨c, log, c', a, hrun, ha, hflag, hrow, -⟩ := repeated_iff_streak hs o calls ['a', '!']
  have hthird : streak (Query.normalize ['a', '!']) (calls ++ [.say ['a', '!']]) = 3 := by decide
  obtain ⟨hreply, hrotations, -⟩ := hrow 3 hthird (by decide)
  exact ⟨hs, c, log, c', a, hrun, ha, hflag.mpr ⟨['A'], rfl, by decide⟩, hreply, hrotations⟩

end Runs

end Conversation

end Dialogue
