import Dialogue.Proofs.Command.Session
import Dialogue.Proofs.Script.Classic
import Dialogue.Proofs.Script.Defect

/-! # What decides the outcome of a run

The arguments come first: what the scan of them meets first decides (`run_of_verdict`), and after the scan a
blank line to answer (`run_of_blank`). Then the script has to load (`run_of_defect`). Only a run that gets
through all that and has no line to answer looks at its input (`code_of_stream`). -/

namespace Dialogue.Command
open Text

/-- The outcome where the arguments decide. -/
def Verdict.outcome : Verdict → Outcome
  | help => ⟨0, unlines [helpText], []⟩
  | version => ⟨0, unlines [versionLine], []⟩
  | misuse m => ⟨2, [], unlines [m.message]⟩

section Runs
variable {v : Invocation} {took : Text} {files : Text → File} {stdin : Bytes} {sink : Sink}

/-! ### The arguments -/

theorem run_of_verdict {verdict : Verdict} (h : v.verdict? = some verdict) :
    run took files stdin v.args sink = verdict.outcome := by
  have hargs : Request.ofArguments false v.args = verdict.request := by rw [Invocation.ofArguments_args, h]
  have hplan : Plan.ofArguments .pipes files v.args = .finished ⟨[], verdict.outcome⟩ := by
    cases verdict <;> simp only [Plan.ofArguments, Terminals.pipes, hargs, Verdict.request, Verdict.outcome]
  rw [run, hplan, Plan.proceed, Proceedings.write_of_nil]

theorem run_of_blank (h : v.verdict? = none) (hblank : ∃ line ∈ v.sources, line.trim = []) :
    run took files stdin v.args sink = ⟨2, [], unlines [Misuse.emptyInput.message]⟩ := by
  obtain ⟨line, hline, hblank⟩ := hblank
  have hinput := Invocation.input_total false h hline
  have hargs : Request.ofArguments false v.args = .error .emptyInput := by
    rw [Invocation.ofArguments_args, h]
    simp only [Settings.request, hinput, if_pos hblank]
  have hplan : Plan.ofArguments .pipes files v.args =
      .finished ⟨[], ⟨2, [], unlines [Misuse.emptyInput.message]⟩⟩ := by
    simp only [Plan.ofArguments, Terminals.pipes, hargs]
  rw [run, hplan, Plan.proceed, Proceedings.write_of_nil]

/-! ### The script -/

theorem Settings.complaint_eq {st : Settings} {path : Text} (h : st.script = some path) (d : Script.Defect) :
    st.complaint d = "error: ".toList ++ (path ++ ": ".toList) ++ d.message := by
  unfold Settings.complaint
  -- The fixed texts stay closed: to spell them out takes long.
  generalize "error: ".toList = opening
  generalize ": ".toList = colon
  rw [h]

theorem Settings.records_eq {st : Settings} {path : Text} (h : st.script = some path) (files : Text → File) :
    st.records files =
      .opening path :: (Script.ofFile Script.fallbackPhrase (files path)).notices.map .notice := by
  simp only [Settings.records, Settings.read, h]
  rfl

theorem run_of_defect (h : v.verdict? = none) (hfull : ∀ line ∈ v.sources, line.trim ≠ []) {path : Text}
    (hpath : v.path? = some path) {d : Script.Defect}
    (hd : (Script.ofFile Script.fallbackPhrase (files path)).result = .error d) :
    run took files stdin v.args sink = ⟨1, [],
      sink.text (.opening path :: (Script.ofFile Script.fallbackPhrase (files path)).notices.map .notice) ++
        unlines ["error: ".toList ++ (path ++ ": ".toList) ++ d.message]⟩ := by
  have hscript : (v.total false).script = some path := hpath
  have hread : ((v.total false).read files).result = .error d := by
    simp only [Settings.read, hscript, hd]
  rw [run_of_unread took stdin (Invocation.ofArguments_eq_talk false h hfull) hread, Settings.records_eq hscript,
    Settings.complaint_eq hscript]

/-- Without a path there is the classic script. -/
theorem Invocation.exists_read (hloads : ∀ path, v.path? = some path →
    ∃ s, (Script.ofFile Script.fallbackPhrase (files path)).result = .ok s) :
    ∃ s, ((v.total false).read files).result = .ok s := by
  have hscript : (v.total false).script = v.path? := rfl
  rw [Settings.read, hscript]
  cases hpath : v.path? with
  | none => exact Script.exists_classic
  | some path => exact hloads path hpath

/-! ### The input -/

theorem code_of_line (h : v.verdict? = none) (hfull : ∀ line ∈ v.sources, line.trim ≠ []) {s : Script}
    (hs : ((v.total false).read files).result = .ok s) {line : Text} (hline : line ∈ v.sources) :
    (run took files stdin v.args sink).code = 0 ∧
      ∀ stdin', run took files stdin' v.args sink = run took files stdin v.args sink := by
  have hinput := Invocation.input_total false h hline
  obtain ⟨c, a, -, honce⟩ := exists_once took (Invocation.ofArguments_eq_talk false h hfull) hs hinput
  exact ⟨by rw [honce], fun stdin' => by rw [honce, honce]⟩

theorem code_of_stream (h : v.verdict? = none) {s : Script} (hs : ((v.total false).read files).result = .ok s)
    (hnone : v.sources = []) :
    (run took files stdin v.args sink).code = if none ∈ stdin.pieces.map Bytes.text? then 1 else 0 := by
  have hinput : (v.total false).input = none := by rw [Invocation.total, hnone, List.head?_nil]
  have hfull : ∀ line ∈ v.sources, line.trim ≠ [] := by simp [hnone]
  obtain ⟨c, log, -, hrun⟩ := exists_session took (Invocation.ofArguments_eq_talk false h hfull) hs hinput stdin
  rw [hrun, closing]
  split <;> rfl

/-- Arguments that leave the run to the script and to the input do not give misuse. -/
theorem code_ne_two (h : v.verdict? = none) (hfull : ∀ line ∈ v.sources, line.trim ≠ []) :
    (run took files stdin v.args sink).code ≠ 2 := by
  cases hread : ((v.total false).read files).result with
  | error d =>
    rw [run_of_unread took stdin (Invocation.ofArguments_eq_talk false h hfull) hread]
    exact Nat.succ_ne_succ_iff.mpr Nat.zero_ne_one
  | ok s =>
    by_cases hnone : v.sources = []
    · rw [code_of_stream h hread hnone]
      split <;> decide
    · obtain ⟨line, hline⟩ := List.exists_mem_of_ne_nil _ hnone
      rw [(code_of_line h hfull hread hline).1]
      decide

/-! ### All of it -/

/-- Every argument list is a row of options and what comes behind them. The first request for help or for
    the version and the first misuse that the scan of it meets decides, and then a blank line to answer; the
    code is 2 for misuse and such a line alone, and nothing is then printed but the message. Next a script
    that does not load ends the run: behind what the sink writes of the reading stand the path and the message
    of the defect, which has the defect's line and keyword in it and is no other defect's. In all these cases
    the input does not matter, nor, before a script is loaded, do the files and the sink. A run that has a line
    to answer ends well whatever its input is; a run that has none fails just where its input has a line that
    is no text. -/
theorem run_outcome : (∀ args, ∃ v : Invocation, v.args = args) ∧
    ∀ (v : Invocation) (took : Text) (files : Text → File) (stdin : Bytes) (sink : Sink),
      ((run took files stdin v.args sink).code = 2 ↔
        (∃ m, v.deciders.head? = some (.misuse m)) ∨ v.deciders = [] ∧ ∃ line ∈ v.sources, line.trim = []) ∧
      (∀ m, v.deciders.head? = some (.misuse m) → run took files stdin v.args sink = ⟨2, [], unlines [m.message]⟩) ∧
      (v.deciders.head? = some .help → run took files stdin v.args sink = ⟨0, unlines [helpText], []⟩) ∧
      (v.deciders.head? = some .version → run took files stdin v.args sink = ⟨0, unlines [versionLine], []⟩) ∧
      (v.deciders = [] → (∃ line ∈ v.sources, line.trim = []) →
        run took files stdin v.args sink = ⟨2, [], unlines [Misuse.emptyInput.message]⟩) ∧
      (v.deciders = [] → (∀ line ∈ v.sources, line.trim ≠ []) →
        (∀ path d, v.path? = some path → (Script.ofFile Script.fallbackPhrase (files path)).result = .error d →
          run took files stdin v.args sink = ⟨1, [],
            sink.text (.opening path :: (Script.ofFile Script.fallbackPhrase (files path)).notices.map .notice) ++
              unlines ["error: ".toList ++ (path ++ ": ".toList) ++ d.message]⟩ ∧ d.Told d.message) ∧
        ((∀ path, v.path? = some path → ∃ s, (Script.ofFile Script.fallbackPhrase (files path)).result = .ok s) →
          (v.sources ≠ [] → (run took files stdin v.args sink).code = 0 ∧
            ∀ stdin', run took files stdin' v.args sink = run took files stdin v.args sink) ∧
          (v.sources = [] →
            (run took files stdin v.args sink).code = if none ∈ stdin.pieces.map Bytes.text? then 1 else 0))) := by
  refine ⟨Invocation.exists_args, fun v took files stdin sink => ?_⟩
  have hverdict : v.deciders = [] ↔ v.verdict? = none := List.head?_eq_none_iff.symm
  rw [hverdict]
  refine ⟨⟨fun hcode => ?_, ?_⟩, fun m h => run_of_verdict h, run_of_verdict, run_of_verdict, run_of_blank,
    fun h hfull => ⟨fun path d hpath hd => ⟨run_of_defect h hfull hpath hd, d.told_message⟩, fun hloads => ?_⟩⟩
  · cases hv : v.verdict? with
    | some verdict =>
      rw [run_of_verdict hv] at hcode
      cases verdict with
      | misuse m => exact Or.inl ⟨m, hv⟩
      | help => cases hcode
      | version => cases hcode
    | none =>
      by_cases hfull : ∀ line ∈ v.sources, line.trim ≠ []
      · exact absurd hcode (code_ne_two hv hfull)
      · simp only [not_forall, not_not, exists_prop] at hfull
        exact Or.inr ⟨rfl, hfull⟩
  · rintro (⟨m, h⟩ | ⟨h, hblank⟩)
    · rw [run_of_verdict h]
      rfl
    · rw [run_of_blank h hblank]
  · obtain ⟨s, hs⟩ := Invocation.exists_read hloads
    refine ⟨fun hsome => ?_, code_of_stream h hs⟩
    obtain ⟨line, hline⟩ := List.exists_mem_of_ne_nil _ hsome
    exact code_of_line h hfull hs hline

end Runs

/-- A request for help that is a path and one for the version behind the mark, over a file that is not
    there; a file with a repeated keyword before a block without replies; a second line before a request for
    help; a blank line. -/
theorem run_outcome_mixed :
    let source : Text := "A\n!\nX\n.\nA\n!\nY\n.\nB\n.\n".toList
    let files : Text → File := fun path => if path = ['f'] then .contents (Bytes.ofText source) else .unreadable .notFound
    let messages : Sink := ⟨fun records => unlines (records.map Record.message), rfl⟩
    let stdin : Bytes := [255]
    run [] files stdin (["-r", "--help", "--", "-V"].map String.toList) =
      ⟨1, [], "error: --help: failed to read rule file: No such file or directory (os error 2)\n".toList⟩ ∧
    run [] files stdin (["-r", "f"].map String.toList) messages.warnings =
      ⟨1, [], "duplicate keyword ignored\nerror: f: line 10: block for keyword 'B' has no replies\n".toList⟩ ∧
    run [] files stdin (["--input", "a", "-i", "b", "-h"].map String.toList) messages =
      ⟨2, [], "error: input provided multiple times\n".toList⟩ ∧
    run [] files stdin (["-i", " "].map String.toList) messages = ⟨2, [], unlines [Misuse.emptyInput.message]⟩ := by
  intro source files messages stdin
  let absent : Invocation := ⟨[.script true "--help".toList], .stop ["-V".toList], trivial⟩
  let broken : Invocation := ⟨[.script true ['f']], .nothing, trivial⟩
  let second : Invocation := ⟨[.input false ['a'], .input true ['b']], .help true [], trivial⟩
  let blank : Invocation := ⟨[.input true [' ']], .nothing, trivial⟩
  obtain ⟨-, hruns⟩ := run_outcome
  obtain ⟨-, -, -, -, -, habsent⟩ := hruns absent [] files stdin .off
  obtain ⟨-, -, -, -, -, hbroken⟩ := hruns broken [] files stdin messages.warnings
  obtain ⟨-, hsecond, -⟩ := hruns second [] files stdin messages
  obtain ⟨-, -, -, -, hblank, -⟩ := hruns blank [] files stdin messages
  have hread : (Script.ofFile Script.fallbackPhrase (files ['f'])).result = .error (.emptyReplies 10 ['B']) := by
    show (Script.ofBytes Script.fallbackPhrase (Bytes.ofText source)).result = .error (.emptyReplies 10 ['B'])
    rw [Script.ofBytes_ofText]
    rfl
  have hmissing := ((habsent rfl (by decide)).1 "--help".toList (.unreadable .notFound) rfl rfl).1
  have hempty := ((hbroken rfl (by decide)).1 ['f'] (.emptyReplies 10 ['B']) rfl hread).1
  exact ⟨hmissing.trans (by decide +kernel), hempty.trans (by decide +kernel),
    (hsecond .secondInput rfl).trans (by decide +kernel), hblank rfl ⟨[' '], by decide, by decide⟩⟩

end Dialogue.Command
