import Dialogue.Proofs.Command.Arguments

/-! # What options and a line to answer mean together

Where no request and no misuse ends the options, an argument list means its lines to answer, its last path, its
last colour and the flags that it has. The order of the options matters for paths and colours alone, and a
line means the same behind all options as with an option of its own. -/

namespace Dialogue.Command
open Text

/-- Settings with a line to answer are no request if the line is blank, and are one otherwise. -/
theorem Settings.request_eq_error_iff {s : Settings} {m : Misuse} :
    s.request = .error m ↔ m = .emptyInput ∧ ∃ line ∈ s.input, line.trim = [] := by
  unfold request
  cases h : s.input with
  | none => simp
  | some line =>
    by_cases hline : line.trim = []
    · have hblank : ∃ l ∈ some line, l.trim = [] := ⟨line, rfl, hline⟩
      simp only [if_pos hline, hblank, and_true, Except.error.injEq]
      exact eq_comm
    · simp [hline]

namespace Invocation
variable {v w : Invocation} {colour : Bool}

theorem sources_of_length_lt_two (h : ¬ 2 ≤ v.sources.length) : v.sources = [] ∨ ∃ line, v.sources = [line] :=
  (Nat.le_one_iff_eq_zero_or_eq_one.mp (Nat.le_of_lt_succ (Nat.not_le.mp h))).imp List.length_eq_zero_iff.mp
    List.length_eq_one_iff.mp

/-- Nothing ends the options but their end or a line to answer. -/
def Complete (v : Invocation) : Prop := v.ending.verdict? = none

theorem Complete.verdict?_eq (h : v.Complete) :
    v.verdict? = if 2 ≤ v.sources.length then some (.misuse .secondInput) else none := by
  rw [Invocation.verdict?_eq, h]

theorem Complete.verdict?_eq_none_iff (h : v.Complete) : v.verdict? = none ↔ v.sources.length ≤ 1 := by
  rw [h.verdict?_eq]
  split
  · simp
    omega
  · simp
    omega

theorem Complete.ofArguments_eq (h : v.Complete) (colour : Bool) : Request.ofArguments colour v.args =
    if 2 ≤ v.sources.length then .error .secondInput else (v.total colour).request := by
  rw [ofArguments_args, h.verdict?_eq]
  by_cases hlines : 2 ≤ v.sources.length
  · rw [if_pos hlines, if_pos hlines]
    rfl
  · rw [if_neg hlines, if_neg hlines]

/-- Lists with the same lines to answer and the same settings beside mean the same. Where there are several
    lines, they may come in any order. -/
theorem Complete.congr (hv : v.Complete) (hw : w.Complete) (hlines : w.sources.Perm v.sources)
    (hrest : ({ w.total colour with input := none } : Settings) = { v.total colour with input := none }) :
    Request.ofArguments colour w.args = Request.ofArguments colour v.args := by
  rw [hv.ofArguments_eq, hw.ofArguments_eq, hlines.length_eq]
  by_cases htwo : 2 ≤ v.sources.length
  · rw [if_pos htwo, if_pos htwo]
  · have hsources : w.sources = v.sources := by
      rcases sources_of_length_lt_two htwo with hnone | ⟨line, hone⟩
      · rw [hnone] at hlines ⊢
        exact hlines.eq_nil
      · rw [hone] at hlines ⊢
        exact List.perm_singleton.mp hlines
    have htotal : w.total colour = v.total colour := by
      have hinput : (w.total colour).input = (v.total colour).input := congrArg List.head? hsources
      calc w.total colour
          = { ({ w.total colour with input := none } : Settings) with input := (w.total colour).input } := rfl
        _ = v.total colour := by rw [hrest, hinput]
    rw [if_neg htwo, if_neg htwo, htotal]

/-- Options may change places, but for paths among themselves and colours among themselves. -/
theorem Complete.reorder (hv : v.Complete) (hending : w.ending = v.ending) (hperm : w.settings.Perm v.settings)
    (hpath : w.settings.filterMap Setting.path? = v.settings.filterMap Setting.path?)
    (hcolour : w.settings.filterMap Setting.colour? = v.settings.filterMap Setting.colour?) :
    Request.ofArguments colour w.args = Request.ofArguments colour v.args := by
  have hw : w.Complete := (congrArg Ending.verdict? hending).trans hv
  have hlines : w.sources.Perm v.sources := by
    rw [sources, sources, hending]
    exact (hperm.filterMap _).append_right _
  refine hv.congr hw hlines ?_
  simp only [total, Settings.total, hpath, hcolour, hperm.any_eq]

/-- A line behind all options means what it means with an option of its own. -/
theorem Complete.line_eq_option (hv : v.Complete) {line : Text} (hline : v.ending.line? = some line) :
    Request.ofArguments colour v.args =
      Request.ofArguments colour (v.settings.flatMap Setting.args ++ ["--input".toList, line]) := by
  obtain ⟨w, hw⟩ : ∃ w : Invocation, w = ⟨v.settings ++ [.input false line], .nothing, trivial⟩ := ⟨_, rfl⟩
  have hargs : w.args = v.settings.flatMap Setting.args ++ ["--input".toList, line] := by
    simp [hw, args, Ending.args, Setting.args]
  have hcomplete : w.Complete := by
    rw [hw]
    rfl
  have hlines : v.sources = w.sources := by
    have hnothing : Ending.nothing.line? = none := rfl
    rw [sources, sources, hline, hw, hnothing]
    simp [Setting.line?]
  rw [← hargs]
  refine hcomplete.congr hv (List.Perm.of_eq hlines) ?_
  simp [hw, total, Settings.total, Setting.path?, Setting.colour?, Setting.isVerbose]

theorem total_eq_iff {st : Settings} : v.total colour = st ↔ st.input = v.sources.head? ∧ st.script = v.path? ∧
    (st.verbose = true ↔ ∃ short, .verbose short ∈ v.settings) ∧
    st.colour = (v.settings.filterMap Setting.colour?).getLast?.getD colour ∧
    (st.dropUnfilledWildcard = true ↔ .dropUnfilledWildcard ∈ v.settings) := by
  have hverbose : v.settings.any Setting.isVerbose = true ↔ ∃ short, .verbose short ∈ v.settings := by
    rw [List.any_eq_true]
    constructor
    · rintro ⟨g, hg, hflag⟩
      cases g with
      | verbose short => exact ⟨short, hg⟩
      | colour => cases hflag
      | dropUnfilledWildcard => cases hflag
      | script => cases hflag
      | input => cases hflag
      | attachedScript => cases hflag
      | attachedInput => cases hflag
    · rintro ⟨short, hg⟩
      exact ⟨_, hg, rfl⟩
  have hdrop : v.settings.any (· = .dropUnfilledWildcard) = true ↔ .dropUnfilledWildcard ∈ v.settings := by simp
  obtain ⟨input, script, verbose, on, drop⟩ := st
  rw [← hverbose, ← hdrop, ← Bool.eq_iff_iff, ← Bool.eq_iff_iff, total, Settings.mk.injEq, path?]
  exact and_congr eq_comm (and_congr eq_comm (and_congr eq_comm (and_congr eq_comm eq_comm)))

/-- Where nothing ends the options but their end or a line to answer, the list is misuse if it has several
    lines, or one that is blank, and otherwise it gives that line, the last path, the last colour and the flags
    that occur. Options may change places, but for paths among themselves and colours among themselves. The
    arguments behind the options are not read as options: they are joined to one line, which means what it
    means with an option of its own. -/
theorem ofArguments_meaning (h : v.Complete) (colour : Bool) :
    (Request.ofArguments colour v.args = .error .secondInput ↔ 2 ≤ v.sources.length) ∧
    (Request.ofArguments colour v.args = .error .emptyInput ↔ ∃ line, v.sources = [line] ∧ line.trim = []) ∧
    (∀ st, Request.ofArguments colour v.args = .ok (.talk st) ↔
      v.sources.length ≤ 1 ∧ (∀ line ∈ v.sources, line.trim ≠ []) ∧
        st.input = v.sources.head? ∧ st.script = (v.settings.filterMap Setting.path?).getLast? ∧
        (st.verbose = true ↔ ∃ short, .verbose short ∈ v.settings) ∧
        st.colour = (v.settings.filterMap Setting.colour?).getLast?.getD colour ∧
        (st.dropUnfilledWildcard = true ↔ .dropUnfilledWildcard ∈ v.settings)) ∧
    (∀ w : Invocation, w.ending = v.ending → w.settings.Perm v.settings →
      w.settings.filterMap Setting.path? = v.settings.filterMap Setting.path? →
      w.settings.filterMap Setting.colour? = v.settings.filterMap Setting.colour? →
      Request.ofArguments colour w.args = Request.ofArguments colour v.args) ∧
    (∀ line, v.ending.line? = some line → Request.ofArguments colour v.args =
      Request.ofArguments colour (v.settings.flatMap Setting.args ++ ["--input".toList, line])) ∧
    Misuse.secondInput.message = "error: input provided multiple times".toList ∧
    "error: empty input".toList <+: Misuse.emptyInput.message := by
  refine ⟨?_, ?_, fun st => ?_, fun w => h.reorder, fun line => h.line_eq_option, rfl, ?_⟩
  · rw [h.ofArguments_eq]
    by_cases htwo : 2 ≤ v.sources.length
    · simp [htwo]
    · simp [htwo, Settings.request_eq_error_iff]
  · rw [h.ofArguments_eq]
    by_cases htwo : 2 ≤ v.sources.length
    · rw [if_pos htwo]
      refine iff_of_false (by simp) ?_
      rintro ⟨line, hsources, -⟩
      simp [hsources] at htwo
    · rw [if_neg htwo, Settings.request_eq_error_iff, total]
      rcases sources_of_length_lt_two htwo with hsources | ⟨line, hsources⟩
      · simp [hsources]
      · simp [hsources]
  · rw [ofArguments_eq_talk_iff, total_eq_iff, h.verdict?_eq_none_iff, path?]
    have hfull : v.sources.length ≤ 1 →
        ((∀ line ∈ v.sources.head?, line.trim ≠ []) ↔ ∀ line ∈ v.sources, line.trim ≠ []) := by
      intro hone
      rcases sources_of_length_lt_two (Nat.not_le.mpr (Nat.lt_succ_of_le hone)) with hsources | ⟨line, hsources⟩
      · simp [hsources]
      · simp [hsources]
    constructor
    · rintro ⟨hone, hfields, hhead⟩
      exact ⟨hone, (hfull hone).mp hhead, hfields⟩
    · rintro ⟨hone, hlines, hfields⟩
      exact ⟨hone, hfields, (hfull hone).mpr hlines⟩
  · have hopening : "error: empty input".toList <+: "error: empty input\n\n".toList := by decide
    exact hopening.trans (List.prefix_append _ _)

/-- Values that look like options, two paths, two colours and a blank line behind the mark; the same options in
    another order. -/
theorem ofArguments_meaning_mixed :
    let v : Invocation := ⟨[.script true "--help".toList, .colour true, .input true "-v".toList, .colour false,
      .verbose false, .script false "--".toList], .stop [[' '], []], trivial⟩
    let st : Settings := ⟨some "-v".toList, some "--".toList, true, false, false⟩
    v.Complete ∧ v.args = ["-r", "--help", "--color", "-i", "-v", "--no-color", "--verbose", "--rules", "--", "--", " ",
        ""].map String.toList ∧
      Request.ofArguments true v.args = .ok (.talk st) ∧
      Request.ofArguments true (["--verbose", "-r", "--help", "-i", "-v", "--rules", "--", "--color", "--no-color", "--",
        " ", ""].map String.toList) = .ok (.talk st) := by
  intro v st
  have h : v.Complete := rfl
  obtain ⟨-, -, htalk, hreorder, -⟩ := ofArguments_meaning h true
  let w : Invocation := ⟨[.verbose false, .script true "--help".toList, .input true "-v".toList, .script false "--".toList,
    .colour true, .colour false], v.ending, trivial⟩
  have hv : Request.ofArguments true v.args = .ok (.talk st) :=
    (htalk st).mpr ⟨by decide, by decide, by decide, by decide, by simp [v, st], by decide, by simp [v, st]⟩
  exact ⟨h, by decide, hv, (hreorder w rfl (by decide) (by decide) (by decide)).trans hv⟩

end Invocation

end Dialogue.Command
