import Dialogue.Proofs.Conversation.Details
import Dialogue.Proofs.Report.Details
import Dialogue.Proofs.Script.Texts

/-! # Every answer of a conversation can be read line by line

A query holds letters, digits and spaces (`Query.keeps`), and so does what a conjugation makes of its rest. All
other texts of an answer are lines of the script or fixed replies. So no text of an answer breaks a line, and
no reply looks like the line of a query: one that begins with a space has nothing in front of the rest of the
query, and is in upper case. -/

namespace Dialogue
open Text

/-! ### Changing persons -/

/-- A swap writes what it finds in the text or in its replacement. -/
theorem Swap.forall_mem_apply {p : Char → Prop} {s : Swap} {t : Text} (hs : ∀ c ∈ s.replacement, p c)
    (ht : ∀ c ∈ t, p c) : ∀ c ∈ s.apply t, p c := by
  have hparts : ∀ c ∈ s.replacement.body ++ s.replacement.padding, p c := by
    rw [body, padding, dropEnd_append_takeEnd]
    exact hs
  obtain ⟨hbody, hpadding⟩ := List.forall_mem_append.mp hparts
  induction t using Swap.apply.induct s with
  | case1 t ho =>
    rw [apply_of_none ho]
    exact ht
  | case2 t o ho _ ih =>
    rw [eq_of_occurrence? ho] at ht
    obtain ⟨hfront, hafter⟩ := List.forall_mem_append.mp ht
    obtain ⟨hbefore, -⟩ := List.forall_mem_append.mp hfront
    have hrest := ih (List.forall_mem_append.mpr ⟨hpadding, hafter⟩)
    rw [apply_of_some ho]
    exact List.forall_mem_append.mpr ⟨List.forall_mem_append.mpr ⟨hbefore, hbody⟩, hrest⟩

namespace Conjugation
variable {c : Conjugation} {t : Text}

/-- The conjugation writes what queries are made of, and marks. -/
def Spells (c : Conjugation) : Prop := ∀ s ∈ c.swaps, ∀ d ∈ s.replacement, Query.keeps d = true ∨ d = mark

theorem standard_spells : standard.Spells := by
  have hall : standard.swaps.all (fun s => s.replacement.all fun d => Query.keeps d || d = mark) = true := by rfl
  simpa [Spells] using hall

theorem keeps_foldl_apply {swaps : List Swap}
    (hs : ∀ s ∈ swaps, ∀ d ∈ s.replacement, Query.keeps d = true ∨ d = mark)
    (ht : ∀ d ∈ t, Query.keeps d = true ∨ d = mark) :
    ∀ d ∈ swaps.foldl (fun t s => s.apply t) t, Query.keeps d = true ∨ d = mark := by
  induction swaps generalizing t with
  | nil => exact ht
  | cons s swaps ih =>
    obtain ⟨hfirst, hswaps⟩ := List.forall_mem_cons.mp hs
    exact ih hswaps (Swap.forall_mem_apply hfirst ht)

theorem keeps_closeWithMe (ht : ∀ d ∈ t, Query.keeps d = true) : ∀ d ∈ closeWithMe t, Query.keeps d = true := by
  by_cases hclose : pad ['I'] <:+ t
  · obtain ⟨head, rfl⟩ := hclose
    rw [closeWithMe_append]
    have hobject : (pad ['M', 'E']).all Query.keeps = true := by rfl
    exact List.forall_mem_append.mpr ⟨(List.forall_mem_append.mp ht).1, List.all_eq_true.mp hobject⟩
  · rw [closeWithMe_of_not_suffix hclose]
    exact ht

/-- What becomes of a text in other persons is made of what queries are made of. -/
theorem Spells.keeps_apply (h : c.Spells) (ht : ∀ d ∈ t, Query.keeps d = true) :
    ∀ d ∈ c.apply t, Query.keeps d = true := by
  refine keeps_closeWithMe fun d hd => ?_
  obtain ⟨hd, hmark⟩ := List.mem_filter.mp hd
  exact (keeps_foldl_apply h (fun d hd => Or.inl (ht d hd)) d hd).resolve_right (of_decide_eq_true hmark)

end Conjugation

/-! ### Replies -/

theorem Query.notMem_of_keeps {c : Char} {t : Text} (hc : keeps c = false) (ht : ∀ d ∈ t, keeps d = true) : c ∉ t :=
  fun hmem => by simp [ht c hmem] at hc

theorem Script.keeps_of_mem_remainder {s : Script} {query : Text} (h : ∀ c ∈ query, Query.keeps c = true) :
    ∀ c ∈ (s.select query).remainder, Query.keeps c = true := by
  by_cases hrule : (s.select query).rule = s.fallback
  · rw [remainder_eq_nil_iff.mpr hrule]
    exact List.forall_mem_nil _
  · exact fun c hc => h c ((remainder_suffix hrule).1.subset hc)

theorem Template.exists_ask (t : Text) : ∃ stem, stem <+: t ∧ ask t = stem ++ ['?'] := by
  unfold ask
  split
  · exact ⟨t.dropLast, List.dropLast_prefix t, rfl⟩
  · exact ⟨t, List.prefix_rfl, rfl⟩

namespace Report
variable {t middle : Text}

theorem Outer.ask (h : Outer t) : Outer (Template.ask t) := by
  obtain ⟨stem, hstem, hask⟩ := Template.exists_ask t
  rw [hask]
  refine ⟨?_, ?_⟩
  · simpa using fun hmem => h.feed (hstem.subset hmem)
  · rcases h.opening with hhead | hq
    · left
      obtain ⟨rest, rfl⟩ := hstem
      cases stem with
      | nil => simp
      | cons c stem => simpa using hhead
    · right
      simpa using fun hmem => hq (hstem.subset hmem)

/-- A template that has its wildcard behind nothing else gives a reply in upper case. -/
theorem outer_dropLast_append (hfeed : '\n' ∉ t) (hhead : t.head? ≠ some ' ')
    (hmiddle : ∀ c ∈ middle, Query.keeps c = true) : Outer (t.dropLast ++ middle) := by
  have hfeed' : '\n' ∉ middle := Query.notMem_of_keeps (by simp [Query.keeps]) hmiddle
  have hq : 'q' ∉ middle := Query.notMem_of_keeps (by simp [Query.keeps]) hmiddle
  refine ⟨?_, ?_⟩
  · rw [List.mem_append, not_or]
    exact ⟨fun hmem => hfeed (List.dropLast_subset t hmem), hfeed'⟩
  · cases hstem : t.dropLast with
    | nil => exact Or.inr hq
    | cons c stem =>
      left
      obtain ⟨rest, hrest⟩ := List.dropLast_prefix t
      rw [hstem] at hrest
      rw [← hrest] at hhead
      exact hhead

end Report

namespace Options
variable {o : Options}

/-- The replies and the conjugation of the options leave answers legible. -/
structure Legible (o : Options) : Prop where
  repeated : ∀ count, Report.Outer (o.repeatReplyAt count)
  fixed : ∀ reply ∈ o.noMatchReply, Report.Outer reply
  spells : o.conjugation.Spells

theorem legible_classic (drop : Bool) : Legible { classic with dropUnfilledWildcard := drop } where
  repeated count := by
    have hreply : Report.Outer repeatReplyText := ⟨by decide, by decide⟩
    exact hreply
  fixed reply hreply := by cases hreply
  spells := Conjugation.standard_spells

theorem Legible.outer_fill (h : o.Legible) {t rest : Text} (hfeed : '\n' ∉ t) (hhead : t.head? ≠ some ' ')
    (hrest : ∀ c ∈ rest, Query.keeps c = true) : Report.Outer (o.fill t rest).reply := by
  have hplain : Report.Outer t := ⟨hfeed, Or.inl hhead⟩
  have hdropped : Report.Outer t.dropLast := by
    simpa using Report.outer_dropLast_append hfeed hhead (List.forall_mem_nil _)
  unfold fill
  split
  · split
    · refine Report.Outer.ask ?_
      split
      · exact hdropped
      · exact hplain
    · exact (Report.outer_dropLast_append hfeed hhead (h.spells.keeps_apply hrest)).ask
  · exact hplain

end Options

/-! ### Answers -/

namespace Answer
variable {query reply : Text} {choice : Choice} {telling : Telling}

theorem legible_repeated (hreply : Report.Outer reply) (hquery : '\n' ∉ query) (count : Nat) :
    (Answer.mk query reply (.repeated count)).Legible where
  reply := hreply
  query := hquery
  phrase t ht := by cases ht
  template t ht := by cases ht
  remainder := List.not_mem_nil
  conjugated t ht := by cases ht

theorem legible_fixed (hreply : Report.Outer reply) (hquery : '\n' ∉ query) (hphrase : '\n' ∉ choice.phrase)
    (hremainder : '\n' ∉ choice.selection.remainder) : (Answer.mk query reply (.fixed choice)).Legible where
  reply := hreply
  query := hquery
  phrase t ht := by
    cases ht
    exact hphrase
  template t ht := by cases ht
  remainder := hremainder
  conjugated t ht := by cases ht

theorem legible_told (hreply : Report.Outer reply) (hquery : '\n' ∉ query) (hphrase : '\n' ∉ choice.phrase)
    (hremainder : '\n' ∉ choice.selection.remainder) (htemplate : '\n' ∉ telling.template)
    (hconjugated : ∀ t ∈ telling.conjugated, '\n' ∉ t) : (Answer.mk query reply (.told choice telling)).Legible where
  reply := hreply
  query := hquery
  phrase t ht := by
    cases ht
    exact hphrase
  template t ht := by
    cases ht
    exact htemplate
  remainder := hremainder
  conjugated := hconjugated

end Answer

def Turn.Legible : Turn → Prop
  | .said _ a => a.Legible
  | .reset => True

namespace Conversation
variable {c c' : Conversation} {s : Script} {o : Options} {query : Text} {a : Answer}

theorem legible_of_answers (hs : c.script.Legible) (ho : c.options.Legible) (hquery : ∀ d ∈ query, Query.keeps d = true)
    (h : Answers c query c' a) : a.Legible := by
  have hkept {t : Text} (ht : ∀ d ∈ t, Query.keeps d = true) : '\n' ∉ t :=
    Query.notMem_of_keeps (by simp [Query.keeps]) ht
  have hremainder := Script.keeps_of_mem_remainder (s := c.script) hquery
  have hphrase {i : Nat} {r : Rule} (hr : c.script.rules[i]? = some r) : '\n' ∉ r.phrase :=
    hs.phrases r (List.mem_of_getElem? hr)
  cases h with
  | repeated hp => exact Answer.legible_repeated (ho.repeated _) (hkept hquery) _
  | fixed hp hr hf hreply =>
    exact Answer.legible_fixed (ho.fixed _ hreply) (hkept hquery) (hphrase hr) (hkept hremainder)
  | told hp hr hf hbefore ht =>
    have hmem := List.mem_of_getElem? ht
    have hreply := ho.outer_fill (hs.replies _ hmem) (hs.openings _ hmem) hremainder
    refine Answer.legible_told hreply (hkept hquery) (hphrase hr) (hkept hremainder) (hs.replies _ hmem) ?_
    intro t ht
    rw [telling, Option.mem_def, Options.conjugated_fill] at ht
    split at ht
    · cases ht
      exact hkept (ho.spells.keeps_apply hremainder)
    · cases ht

theorem legible_of_answer? (hs : c.script.Legible) (ho : c.options.Legible) {input : Text}
    (h : c.answer? input = some (c', a)) : a.Legible :=
  legible_of_answers hs ho (fun _ => Query.keeps_of_mem_normalize) (answer?_eq_some_iff.mp h)

/-- The conversation goes on with the script and the options that it has. -/
theorem Answers.unchanged (h : Answers c query c' a) : c'.script = c.script ∧ c'.options = c.options := by
  cases h <;> exact ⟨rfl, rfl⟩

/-- Whatever is said, all answers are legible. -/
theorem legible_of_run? (hs : s.Legible) (ho : o.Legible) {calls : List Call} {log : List Turn}
    (h : (start s o).run? calls = some (c, log)) : ∀ turn ∈ log, turn.Legible := by
  have hall : c.script.Legible ∧ c.options.Legible ∧ ∀ turn ∈ log, turn.Legible := by
    refine run?_induction (motive := fun c log => c.script.Legible ∧ c.options.Legible ∧ ∀ turn ∈ log, turn.Legible)
      ⟨hs, ho, List.forall_mem_nil _⟩ ?_ h
    intro c log call c' turn hlog hcall
    obtain ⟨hs, ho, hlog⟩ := hlog
    cases call with
    | say input =>
      obtain ⟨a, ha, rfl⟩ := call?_say_eq_some_iff.mp hcall
      obtain ⟨hscript, hoptions⟩ := (answer?_eq_some_iff.mp ha).unchanged
      have hturn : (Turn.said input a).Legible := legible_of_answer? hs ho ha
      exact ⟨hscript ▸ hs, hoptions ▸ ho, List.forall_mem_append.mpr ⟨hlog, by simpa using hturn⟩⟩
    | reset =>
      cases hcall
      exact ⟨hs, ho, List.forall_mem_append.mpr ⟨hlog, by simp [Turn.Legible]⟩⟩
  exact hall.2.2

end Conversation

end Dialogue
