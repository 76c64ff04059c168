import Dialogue.Proofs.Conjugation.Scan
import Dialogue.Proofs.Conversation.Repeat
import Dialogue.Proofs.Selection.Cut

/-! # No access fails

The answer to a line, made with checked accesses: lists are read and written at places, texts are cut by
bytes, the count of repeats has 64 bits, and an access that fails leaves no answer. In a conversation that
a loaded script started, every access of every call succeeds, and the answers are the same
(`checkedRun?_eq_run?`). -/

namespace Dialogue
open Text

/-! ### Checked accesses -/

/-- The next number, where it has 64 bits. -/
def next64? (n : Nat) : Option Nat := if n + 1 < UInt64.size then some (n + 1) else none

/-- The list with a new entry at a place. -/
def setAt? (i x : Nat) (xs : List Nat) : Option (List Nat) :=
  if i < xs.length then some (xs.set i x) else none

/-- The phrase as it is cut out of the keyword. -/
def Rule.checkedPhrase? (r : Rule) : Option Text := slice? 1 (r.keyword.byteLength - 1) r.keyword

/-- The rest of the query is cut off at the last byte of the keyword. -/
def Script.checkedSelect? (s : Script) (query : Text) : Option Selection :=
  match s.hit? query with
  | some hit =>
    if hit.rule = s.fallback then some ⟨s.fallback, some hit, []⟩
    else do
      let r ← s.rules[hit.rule]?
      let remainder ← dropBytes? (hit.offset + r.keyword.byteLength - 1) query
      return ⟨hit.rule, some hit, remainder⟩
  | none => some ⟨s.fallback, none, []⟩

def Options.checkedFill? (o : Options) (template rest : Text) : Option Filling :=
  if Template.isOpen template ∧ ¬ Query.isBare rest then do
    let conjugated ← o.conjugation.scan? rest
    return ⟨Template.ask (template.dropLast ++ conjugated), some conjugated⟩
  else some (o.fill template rest)

namespace Conversation

/-- Gives the rules with this first reply an offset, one place after another from `j` on, and leaves out
    the place `i`. -/
def copy? (first offset i : Nat) : Nat → List Rule → List Nat → Option (List Nat)
  | _, [], rotations => some rotations
  | j, q :: rules, rotations => do
    let rotations ← if j ≠ i ∧ q.range.first = first then setAt? j offset rotations else some rotations
    copy? first offset i (j + 1) rules rotations

/-- Moves a rule on and has the rules of its block follow. -/
def advance? (c : Conversation) (i : Nat) : Option (Conversation × Nat) := do
  let r ← c.script.rules[i]?
  let before ← c.rotations[i]?
  let after := r.range.next before
  let rotations ← setAt? i after c.rotations
  let rotations ← copy? r.range.first after i 0 c.script.rules rotations
  return ({ c with rotations }, after)

def checkedTell? (c : Conversation) (query : Text) (choice : Choice) (range : ReplyRange) :
    Option (Conversation × Answer) := do
  let before ← c.rotations[choice.selection.rule]?
  let template ← c.script.replies[range.first + before]?
  let filling ← c.options.checkedFill? template choice.selection.remainder
  let (c', after) ← c.advance? choice.selection.rule
  let telling : Telling := ⟨template, filling.conjugated, before, after, c.companions range.first⟩
  return (c', ⟨query, filling.reply, .told choice telling⟩)

def checkedAnswer? (c : Conversation) (input : Text) : Option (Conversation × Answer) :=
  let query := Query.normalize input
  if c.previous = some query then do
    let count ← next64? c.repeats
    return ({ c with repeats := count }, ⟨query, c.options.repeatReplyAt count, .repeated count⟩)
  else do
    let c := c.heard query
    let selection ← c.script.checkedSelect? query
    let rule ← c.script.rules[selection.rule]?
    let phrase ← rule.checkedPhrase?
    let choice : Choice := ⟨selection, phrase, selection.isFallback c.script⟩
    match choice.isFallback, c.options.noMatchReply with
    | true, some reply => return (c, ⟨query, reply, .fixed choice⟩)
    | _, _ => c.checkedTell? query choice rule.range

def checkedCall? (c : Conversation) : Call → Option (Conversation × Turn)
  | .say input => (c.checkedAnswer? input).map fun (c, a) => (c, .said input a)
  | .reset => some (c.reset, .reset)

def checkedRun? (c : Conversation) (calls : List Call) : Option (Conversation × List Turn) :=
  calls.foldlM (fun (c, log) call => (c.checkedCall? call).map fun (c, turn) => (c, log ++ [turn])) (c, [])

end Conversation

/-! ### Each access succeeds -/

theorem Rule.checkedPhrase?_eq (r : Rule) : r.checkedPhrase? = some r.phrase := by
  rw [checkedPhrase?, keyword, byteLength_pad, Nat.add_sub_cancel]
  exact slice?_append [' '] r.phrase [' ']

/-- The last byte of a keyword is its closing space, where the rest of the query starts. -/
theorem Script.checkedSelect?_eq (s : Script) (query : Text) : s.checkedSelect? query = some (s.select query) := by
  unfold checkedSelect?
  cases hhit : s.hit? query with
  | none => rw [select_of_unhit hhit]
  | some hit =>
    dsimp only
    split
    · rename_i hrule
      rw [select_of_sentinel hhit hrule]
    · rename_i hrule
      obtain ⟨r, hwins⟩ := hit?_eq_some_iff_wins.mp hhit
      rw [select_of_hit hhit hrule, hwins.rule]
      show (dropBytes? _ query).bind _ = _
      rw [hwins.dropBytes?]
      rfl

theorem Options.checkedFill?_eq (o : Options) (template rest : Text) :
    o.checkedFill? template rest = some (o.fill template rest) := by
  unfold checkedFill?
  split
  · rename_i h
    rw [Conjugation.scan?_eq, fill, if_pos h.1, if_neg h.2]
    rfl
  · rfl

namespace Conversation
variable {c : Conversation} {i : Nat} {r : Rule} {first offset before : Nat}

/-- The copies reach the rules with the first reply. The place that is left out has the offset already. -/
theorem copy?_eq {rules : List Rule} (done : List Nat) {rest : List Nat} (hlen : rest.length = rules.length)
    (hi : ∀ k, i = done.length + k → rest[k]? = some offset) :
    copy? first offset i done.length rules (done ++ rest) =
      some (done ++ List.zipWith (fun q o => if q.range.first = first then offset else o) rules rest) := by
  induction rules generalizing done rest with
  | nil =>
    rw [List.length_eq_zero_iff.mp hlen]
    rfl
  | cons q rules ih =>
    obtain ⟨o, rest, rfl⟩ := List.exists_cons_of_length_eq_add_one hlen
    have hrest : rest.length = rules.length := Nat.succ.inj hlen
    -- What stands at this place after the step, and the rest of the list goes on as before.
    have hstep : ∀ x, copy? first offset i (done.length + 1) rules (done ++ [x] ++ rest) =
        some (done ++ [x] ++ List.zipWith (fun q o => if q.range.first = first then offset else o) rules rest) := by
      intro x
      have h := ih (done ++ [x]) hrest fun k hk => hi (k + 1) (by simp at hk; omega)
      rwa [List.length_append, List.length_singleton] at h
    rw [copy?, List.zipWith_cons_cons]
    by_cases hq : done.length ≠ i ∧ q.range.first = first
    · have hset : setAt? done.length offset (done ++ o :: rest) = some (done ++ [offset] ++ rest) := by
        rw [setAt?, if_pos (by simp)]
        simp
      rw [if_pos hq, hset, if_pos hq.2]
      exact (hstep offset).trans (by simp)
    · have ho : (if q.range.first = first then offset else o) = o := by
        split
        · have := hi 0 (by simp_all)
          simp_all
        · rfl
      rw [if_neg hq, ho]
      have h := hstep o
      rw [List.append_assoc] at h
      exact h.trans (by simp)

/-- The offset of a rule may be written ahead of its block's. -/
theorem rotate_set (hr : c.script.rules[i]? = some r) (offset : Nat) :
    ({ c with rotations := c.rotations.set i offset } : Conversation).rotate r.range.first offset =
      c.rotate r.range.first offset := by
  unfold rotate
  congr 1
  refine List.ext_getElem? fun k => ?_
  rw [List.getElem?_zipWith, List.getElem?_zipWith]
  by_cases hk : i = k
  · subst hk
    rw [hr, List.getElem?_set_self']
    cases c.rotations[i]? <;> simp
  · rw [List.getElem?_set_ne hk]

theorem advance?_eq (hlen : c.rotations.length = c.script.rules.length) (hr : c.script.rules[i]? = some r)
    (hbefore : c.rotations[i]? = some before) :
    c.advance? i = some (c.rotate r.range.first (r.range.next before), r.range.next before) := by
  have hi : i < c.rotations.length := (List.getElem?_eq_some_iff.mp hbefore).1
  have hcopy : copy? r.range.first (r.range.next before) i 0 c.script.rules
        (c.rotations.set i (r.range.next before)) =
      some (c.rotate r.range.first (r.range.next before)).rotations := by
    rw [← rotate_set hr]
    refine copy?_eq [] (List.length_set.trans hlen) fun k hk => ?_
    rw [List.length_nil, Nat.zero_add] at hk
    rw [← hk, List.getElem?_set_self hi]
  simp only [advance?, hr, hbefore, setAt?, if_pos hi, hcopy, Option.bind_eq_bind, Option.bind_some]
  rfl

variable {input : Text}

theorem checkedTell?_eq (query : Text) (choice : Choice) (hlen : c.rotations.length = c.script.rules.length)
    (hr : c.script.rules[choice.selection.rule]? = some r) :
    c.checkedTell? query choice r.range = c.tell? query choice r.range := by
  unfold checkedTell? tell?
  cases hbefore : c.rotations[choice.selection.rule]? with
  | none => rfl
  | some before =>
    simp only [Options.checkedFill?_eq, advance?_eq hlen hr hbefore, Option.bind_eq_bind, Option.bind_some]

theorem checkedAnswer?_eq (hlen : c.rotations.length = c.script.rules.length)
    (hcount : c.previous = some (Query.normalize input) → c.repeats + 1 < UInt64.size) :
    c.checkedAnswer? input = c.answer? input := by
  unfold checkedAnswer? answer?
  by_cases hp : c.previous = some (Query.normalize input)
  · simp only [if_pos hp, next64?, if_pos (hcount hp)]
    rfl
  · simp only [if_neg hp, heard, Script.checkedSelect?_eq, Rule.checkedPhrase?_eq, Option.bind_eq_bind,
      Option.bind_some]
    cases hr : c.script.rules[(c.script.select (Query.normalize input)).rule]? with
    | none => rfl
    | some r =>
      have htell := checkedTell?_eq (c := c.heard (Query.normalize input)) (Query.normalize input)
        (c.choice (Query.normalize input) r) hlen hr
      simp only [heard, choice] at htell
      simp only [Option.bind_some]
      -- A fixed reply makes no access, so the two answers differ at most in what the rule tells.
      exact htell ▸ rfl

theorem checkedCall?_eq (hlen : c.rotations.length = c.script.rules.length)
    (hcount : ∀ query, c.previous = some query → c.repeats + 1 < UInt64.size) (call : Call) :
    c.checkedCall? call = c.call? call := by
  cases call with
  | say input => rw [checkedCall?, checkedAnswer?_eq hlen (hcount _), call?]
  | reset => rfl

/-! ### Runs -/

theorem checkedRun?_concat (c : Conversation) (calls : List Call) (call : Call) :
    c.checkedRun? (calls ++ [call]) = (c.checkedRun? calls).bind fun (c', log) =>
      (c'.checkedCall? call).map fun (c'', turn) => (c'', log ++ [turn]) := by
  simp only [checkedRun?, List.foldlM_append, List.foldlM_cons, List.foldlM_nil, bind_pure]
  rfl

section Runs
variable {s : Script} {o : Options} {calls : List Call}

theorem Tracks.length_rotations {log : List Turn} (h : Tracks s o c log) :
    c.rotations.length = c.script.rules.length := by
  rw [h.rotations, h.script, List.length_map]

/-- A row of repeats is no longer than the conversation, so its count fits. -/
theorem checkedRun?_of_run {log : List Turn} (wf : s.WellFormed) (hcalls : calls.length < UInt64.size)
    (h : (start s o).run? calls = some (c, log)) : (start s o).checkedRun? calls = some (c, log) := by
  induction calls using List.reverseRecOn generalizing c log with
  | nil =>
    cases h
    rfl
  | append_singleton calls call ih =>
    rw [List.length_append, List.length_singleton] at hcalls
    obtain ⟨c₁, log₁, turn, hrun, hlast, rfl⟩ := run?_concat_eq_some_iff.mp h
    have hcount : ∀ query, c₁.previous = some query → c₁.repeats + 1 < UInt64.size := by
      intro query hquery
      have hrow := (recalls_of_run hrun).repeats query hquery
      have hle := streak_le_length query calls
      omega
    have hcall := (checkedCall?_eq (tracks_of_run wf o hrun).length_rotations hcount call).trans hlast
    rw [checkedRun?_concat, ih (Nat.lt_of_succ_lt hcalls) hrun]
    simp [hcall]

/-- In a conversation of fewer than 2⁶⁴ calls every access succeeds and gives what the answers need. The
    rotation of a rule points to one of its replies after each of them. -/
theorem checkedRun?_eq_run? (hs : s.Loaded) (o : Options) (calls : List Call) (hcalls : calls.length < UInt64.size) :
    ∃ c log, (start s o).checkedRun? calls = some (c, log) ∧ (start s o).run? calls = some (c, log) ∧
      c.rotations.length = s.rules.length ∧
      ∀ i r, s.rules[i]? = some r → ∃ offset, c.rotation? i = some offset ∧ offset < r.range.size ∧
        r.range.first + offset < s.replies.length := by
  have wf := hs.wellFormed
  obtain ⟨c, log, hrun⟩ := exists_run wf o calls
  have htracks := tracks_of_run wf o hrun
  refine ⟨c, log, checkedRun?_of_run wf hcalls hrun, hrun, ?_, fun i r hr =>
    ⟨_, htracks.rotations_getElem? hr, Nat.mod_lt _ r.range.size_pos, ?_⟩⟩
  · rw [htracks.length_rotations, htracks.script]
  · obtain ⟨t, ht⟩ := Tracks.exists_reply wf hr log
    exact (List.getElem?_eq_some_iff.mp ht).1

/-- A script and a table with characters of several bytes, a repeated line and a reset. -/
theorem checkedRun?_eq_run?_wide :
    let s : Script :=
      ⟨[⟨['Ä'], ⟨0, 1⟩, 1⟩, ⟨['A'], ⟨0, 1⟩, 2⟩, ⟨['N'], ⟨2, 2⟩, 7⟩], [['é', '*'], ['Y'], ['Z']], 2⟩
    let o : Options := { Options.classic with conjugation := ⟨[Conjugation.ofWords "B" "日本"]⟩ }
    let calls : List Call :=
      [.say ['a', ' ', 'b', ' ', 'b'], .say ['A', ' ', 'B', ' ', 'B'], .reset, .say ['a', ' ', 'b']]
    s.Loaded ∧ Conjugation.ofPairs [([' ', 'B', ' '], [' ', '日', '本', ' '])] = .ok o.conjugation ∧
      calls.length < UInt64.size ∧ ∃ c log, (start s o).checkedRun? calls = some (c, log) ∧
        (start s o).run? calls = some (c, log) ∧ ∃ offset, c.rotation? 1 = some offset ∧ offset < 2 := by
  intro s o calls
  have hs : s.Loaded := ⟨['N'], ["Ä", "A", "!", "é*", "Y", ".", "N", "!", "Z", "."].map String.toList, by rfl⟩
  have hcalls : calls.length < UInt64.size := by decide
  obtain ⟨c, log, hchecked, hrun, -, hrot⟩ := checkedRun?_eq_run? hs o calls hcalls
  obtain ⟨offset, hoffset, hlt, -⟩ := hrot 1 _ rfl
  exact ⟨hs, rfl, hcalls, c, log, hchecked, hrun, offset, hoffset, hlt⟩

end Runs

end Conversation

end Dialogue
