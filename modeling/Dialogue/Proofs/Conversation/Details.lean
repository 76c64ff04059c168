import Dialogue.Proofs.Conjugation.Words
import Dialogue.Proofs.Conversation.Rotation

/-! # The details explain the reply

The details of an answer say which of the three ways led to it: a repeat has one flag and nothing else
(`IsRepeat`), a fixed reply has a rule but no template (`IsFixed`), and any other reply follows from its
template, the rest of the query and the flags alone (`Tells`). -/

namespace Dialogue

namespace Answer

/-- The answer repeats, and its details say nothing else. -/
structure IsRepeat (a : Answer) : Prop where
  flags : ∀ f, a.flags f = true ↔ f = .repeated
  rule : a.rule? = none
  phrase : a.phrase? = none
  matchOffset : a.matchOffset? = none
  template : a.template? = none
  conjugated : a.conjugated? = none

/-- The rule of the answer is the one that is chosen for its query. -/
structure Chooses (s : Script) (o : Options) (a : Answer) : Prop where
  rule : a.rule? = some (s.select a.query).rule
  phrase : a.phrase? = s.rules[(s.select a.query).rule]?.map (·.phrase)
  matchOffset : a.matchOffset? = (s.select a.query).hit.map (·.offset)
  remainder : a.remainder = (s.select a.query).remainder
  fallback : a.flags .fallback = true ↔ (s.select a.query).rule = s.fallback
  overridden : a.flags .overridden = true ↔ (s.select a.query).rule = s.fallback ∧ o.noMatchReply ≠ none

/-- The options' reply stands for the fallback rule's. -/
structure IsFixed (o : Options) (a : Answer) : Prop where
  flags : ∀ f, a.flags f = true ↔ f = .fallback ∨ f = .overridden
  reply : o.noMatchReply = some a.reply
  template : a.template? = none
  conjugated : a.conjugated? = none

/-- The reply is the template `t`, with the rest of the query in place of a wildcard at its end. -/
structure Tells (o : Options) (t : Text) (a : Answer) : Prop where
  template : a.template? = some t
  wildcard : a.flags .wildcard = true ↔ ['*'] <:+ t
  spliced : a.flags .spliced = true ↔ a.flags .wildcard = true ∧ a.remainder ≠ [] ∧ a.remainder ≠ [' ']
  conjugated : a.conjugated? = if a.flags .spliced then some (o.conjugation.apply a.remainder) else none
  known : a.flags .spliced = true → a.flags .fallback = false
  plain : a.flags .wildcard = false → a.reply = t
  filled : a.flags .wildcard = true → ∃ body,
    body = (match a.conjugated? with
      | some conjugated => t.dropLast ++ conjugated
      | none => if o.dropUnfilledWildcard then t.dropLast else t) ∧
    a.reply = (if body.getLast? = some ' ' then body.dropLast else body) ++ ['?']

end Answer

/-! ### The parts of a reply -/

theorem Template.isOpen_iff {t : Text} : isOpen t = true ↔ ['*'] <:+ t := by
  rw [isOpen, decide_eq_true_eq]
  constructor
  · intro h
    obtain ⟨stem, rfl⟩ := List.getLast?_eq_some_iff.mp h
    exact ⟨stem, rfl⟩
  · rintro ⟨stem, rfl⟩
    exact List.getLast?_concat

theorem Query.isBare_iff {rest : Text} : isBare rest = true ↔ rest = [] ∨ rest = [' '] := by simp [isBare]

namespace Options
variable {o : Options} {t rest : Text}

theorem conjugated_fill : (o.fill t rest).conjugated =
    if Template.isOpen t && !Query.isBare rest then some (o.conjugation.apply rest) else none := by
  unfold fill
  cases Template.isOpen t with
  | false => rfl
  | true => cases Query.isBare rest <;> rfl

theorem reply_fill : (o.fill t rest).reply =
    if Template.isOpen t then
      Template.ask (match (o.fill t rest).conjugated with
        | some conjugated => t.dropLast ++ conjugated
        | none => if o.dropUnfilledWildcard then t.dropLast else t)
    else t := by
  unfold fill
  cases Template.isOpen t with
  | false => rfl
  | true => cases Query.isBare rest <;> rfl

end Options

/-! ### The three ways to an answer -/

namespace Conversation
variable {s : Script} {o : Options} {c : Conversation} {query : Text}

theorem isRepeat (query reply : Text) (count : Nat) : (Answer.mk query reply (.repeated count)).IsRepeat where
  flags f := by simp [Answer.flags]
  rule := rfl
  phrase := rfl
  matchOffset := rfl
  template := rfl
  conjugated := rfl

theorem isFixed {reply : Text} (hreply : o.noMatchReply = some reply) (query : Text) (choice : Choice) :
    (Answer.mk query reply (.fixed choice)).IsFixed o where
  flags f := by simp [Answer.flags]
  reply := hreply
  template := rfl
  conjugated := rfl

theorem chooses_fixed {r : Rule} {reply : Text} (hr : c.script.rules[(c.script.select query).rule]? = some r)
    (hf : (c.script.select query).isFallback c.script = true)
    (hreply : c.options.noMatchReply = some reply) :
    (Answer.mk query reply (.fixed (c.choice query r))).Chooses c.script c.options where
  rule := rfl
  phrase := (congrArg (Option.map Rule.phrase) hr).symm
  matchOffset := rfl
  remainder := rfl
  fallback := iff_of_true rfl (of_decide_eq_true hf)
  overridden := iff_of_true rfl ⟨of_decide_eq_true hf, by simp [hreply]⟩

theorem chooses_told {r : Rule} (hr : c.script.rules[(c.script.select query).rule]? = some r)
    (hf : (c.script.select query).isFallback c.script = false ∨ c.options.noMatchReply = none)
    (reply : Text) (telling : Telling) :
    (Answer.mk query reply (.told (c.choice query r) telling)).Chooses c.script c.options where
  rule := rfl
  phrase := (congrArg (Option.map Rule.phrase) hr).symm
  matchOffset := rfl
  remainder := rfl
  fallback := decide_eq_true_iff
  overridden := by
    refine iff_of_false Bool.false_ne_true ?_
    rintro ⟨hrule, hreply⟩
    rcases hf with hf | hf
    · exact of_decide_eq_false hf hrule
    · exact hreply hf

/-- The fallback rule leaves nothing of the query to put into its reply. -/
theorem tells {x : Selection} {isFallback : Bool} (hfallback : isFallback = true → x.remainder = [])
    (o : Options) (query phrase t : Text) (before after synced : Nat) :
    (Answer.mk query (o.fill t x.remainder).reply (.told ⟨x, phrase, isFallback⟩
      ⟨t, (o.fill t x.remainder).conjugated, before, after, synced⟩)).Tells o t := by
  have hspliced : (o.fill t x.remainder).conjugated.isSome = true ↔
      Template.isOpen t = true ∧ x.remainder ≠ [] ∧ x.remainder ≠ [' '] := by
    rw [Options.conjugated_fill, ← not_or, ← Query.isBare_iff]
    simp
  refine ⟨rfl, Template.isOpen_iff, hspliced, ?conjugated, ?known, ?plain, ?filled⟩
  case conjugated =>
    show (o.fill t x.remainder).conjugated =
      if (o.fill t x.remainder).conjugated.isSome then some (o.conjugation.apply x.remainder) else none
    rw [Options.conjugated_fill]
    split <;> rfl
  case known =>
    intro h
    have hrest := (hspliced.mp h).2.1
    exact Bool.eq_false_iff.mpr (mt hfallback hrest)
  case plain =>
    intro h
    show (o.fill t x.remainder).reply = t
    have hopen : ¬ Template.isOpen t = true := Bool.eq_false_iff.mp h
    rw [Options.reply_fill, if_neg hopen]
  case filled =>
    intro h
    have hopen : Template.isOpen t = true := h
    refine ⟨_, rfl, ?_⟩
    show (o.fill t x.remainder).reply = _
    rw [Options.reply_fill, if_pos hopen]
    rfl

theorem rotation?_rotate {i before : Nat} {r : Rule} (hr : c.script.rules[i]? = some r)
    (hbefore : c.rotations[i]? = some before) (offset : Nat) :
    (c.rotate r.range.first offset).rotation? i = some offset := by
  show (List.zipWith _ c.script.rules c.rotations)[i]? = some offset
  rw [List.getElem?_zipWith, hr, hbefore]
  simp

/-- In every conversation over a script that was read, the details of an answer explain it. A repeat says
    nothing else and moves no rotation. Any other answer is by the rule that is chosen for its query. A
    reply of the options stands for the fallback rule's where there is one. Any other reply comes from the
    template that the rotation of the rule points to, with the rest of the query in place of its wildcard,
    in other persons, where something is left of the query. -/
theorem details_explain_reply (hs : s.Loaded) (o : Options) (calls : List Call) (input : Text) :
    ∃ c log c' a, (start s o).run? calls = some (c, log) ∧ c.answer? input = some (c', a) ∧
      a.query = Query.normalize input ∧
      (a.flags .repeated = true → a.IsRepeat ∧ c'.rotations = c.rotations) ∧
      (a.flags .repeated = false → a.Chooses s o ∧
        (a.flags .overridden = true → a.IsFixed o ∧ c'.rotations = c.rotations) ∧
        (a.flags .overridden = false → ∃ r t, s.rules[(s.select a.query).rule]? = some r ∧
          c.rotation? (s.select a.query).rule = some a.rotationBefore ∧
          s.replies[r.range.first + a.rotationBefore]? = some t ∧ a.Tells o t ∧
          c'.rotation? (s.select a.query).rule = some a.rotationAfter)) := by
  have wf := hs.wellFormed
  obtain ⟨c, log, hrun⟩ := exists_run wf o calls
  have h := tracks_of_run wf o hrun
  obtain ⟨c', a, ha, -⟩ := h.answer wf input
  obtain ⟨hscript, hoptions, -⟩ := id h
  subst hscript hoptions
  refine ⟨c, log, c', a, hrun, ha, ?_⟩
  cases answer?_eq_some_iff.mp ha with
  | repeated hp => exact ⟨rfl, fun _ => ⟨isRepeat _ _ _, rfl⟩, nofun⟩
  | fixed hp hr hf hreply =>
    exact ⟨rfl, nofun, fun _ => ⟨chooses_fixed hr hf hreply, fun _ => ⟨isFixed hreply _ _, rfl⟩, nofun⟩⟩
  | @told r before t hp hr hf hbefore ht =>
    have hfallback : (c.script.select (Query.normalize input)).isFallback c.script = true →
        (c.script.select (Query.normalize input)).remainder = [] := fun hrule =>
      Script.remainder_eq_nil_iff.mpr (of_decide_eq_true hrule)
    refine ⟨rfl, nofun, fun _ => ⟨chooses_told hr hf _ _, nofun, fun _ => ⟨r, t, hr, hbefore, ht, ?_, ?_⟩⟩⟩
    · exact tells hfallback _ _ _ _ _ _ _
    · exact rotation?_rotate hr hbefore _

/-- The second reply of a block takes in the rest of the query and loses the space that closes it. -/
theorem details_explain_reply_spliced :
    let s : Script := ⟨[⟨['A'], ⟨0, 1⟩, 1⟩, ⟨['N'], ⟨2, 2⟩, 6⟩], [['X'], ['Y', '*'], ['Z']], 1⟩
    s.Loaded ∧ ∃ c log c' a, (start s .classic).run? [.say ['a'], .say ['A', '!'], .say ['q']] = some (c, log) ∧
      c.answer? "A, my".toList = some (c', a) ∧ a.flags .spliced = true ∧ a.conjugated? = some " YOUR ".toList ∧
      a.reply = "Y YOUR?".toList := by
  intro s
  let calls : List Call := [.say ['a'], .say ['A', '!'], .say ['q']]
  have hs : s.Loaded := ⟨['N'], ["A", "!", "X", "Y*", ".", "N", "!", "Z", "."].map String.toList, by rfl⟩
  obtain ⟨c, log, c', a, hrun, ha, hquery, -, hnew⟩ := details_explain_reply hs .classic calls "A, my".toList
  have hway : ((start s .classic).run? calls).any (fun run => run.1.rotation? 0 = some 1 ∧
      (run.1.answer? "A, my".toList).any fun next => !next.2.flags .repeated && !next.2.flags .overridden) = true := by
    decide
  simp only [hrun, ha, Option.any_some, decide_eq_true_eq, Bool.and_eq_true, Bool.not_eq_true'] at hway
  obtain ⟨hrotation, hrepeated, hoverridden⟩ := hway
  obtain ⟨hchooses, -, htold⟩ := hnew hrepeated
  obtain ⟨r, t, hr, hbefore, ht, htells, -⟩ := htold hoverridden
  have hselect : s.select a.query = ⟨0, some ⟨0, [], "MY ".toList⟩, " MY ".toList⟩ := by
    rw [hquery]
    decide
  rw [hselect] at hr hbefore
  cases hr
  rw [Option.some.inj (hbefore.symm.trans hrotation)] at ht
  cases ht
  have hrest : a.remainder = " MY ".toList := by rw [hchooses.remainder, hselect]
  have hwildcard : a.flags .wildcard = true := htells.wildcard.mpr (by decide)
  have hspliced : a.flags .spliced = true := by
    refine htells.spliced.mpr ⟨hwildcard, ?_⟩
    rw [hrest]
    decide
  have hconjugated : a.conjugated? = some " YOUR ".toList := by
    have hplain : ∀ w ∈ [['M', 'Y']], Conjugation.Plain w := by
      intro w hw
      obtain rfl := List.mem_singleton.mp hw
      exact ⟨by decide, by decide⟩
    rw [htells.conjugated, if_pos hspliced, hrest]
    show some (Conjugation.standard.apply (Text.spaced [['M', 'Y']])) = _
    rw [Conjugation.apply_spaced Conjugation.standard_wordwise hplain]
    decide
  obtain ⟨body, hbody, hreply⟩ := htells.filled hwildcard
  rw [hconjugated] at hbody
  refine ⟨hs, c, log, c', a, hrun, ha, hspliced, hconjugated, ?_⟩
  rw [hreply, hbody]
  decide

end Conversation

end Dialogue
