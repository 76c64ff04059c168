import Dialogue.Proofs.Command.Outcome
import Dialogue.Proofs.Conversation.Legible
import Dialogue.Proofs.Report.Colour

/-! # Reports and colour only show more

What a run shows is a row of lines and answers (`Shown`). Which ones these are follows from the script and the
input (`Settings.Shows`), not from the way they are shown (`exists_display`). So colour comes off line by line, and
every report comes down to its reply. -/

namespace Dialogue

/-- A part of what a run shows: a line as it stands, or an answer. -/
inductive Shown where
  | line (t : Text)
  | answer (a : Answer)

namespace Shown

/-- The lines that show it. An answer takes the lines of its report, or one. -/
def lines (verbose colour : Bool) (took : Text) : Shown → List Text
  | line t => [t]
  | answer a => if verbose then Report.lines colour took a else [a.reply]

/-- No line of it is taken for the beginning of what a report says below the reply. -/
def Legible : Shown → Prop
  | line t => Report.Outer t
  | answer a => a.Legible

section Lines
variable {x : Shown} {took : Text}

theorem map_erase_lines (verbose colour : Bool) (took : Text) (x : Shown) :
    (x.lines verbose colour took).map Style.erase = (x.lines verbose false took).map Style.erase := by
  cases x with
  | line t => rfl
  | answer a =>
    cases verbose with
    | false => rfl
    | true => exact Report.map_erase_lines colour took a

/-- What is shown of an answer without a report is the first line of the report. -/
theorem lines_eq_take_one (took : Text) (x : Shown) : x.lines false false took = (x.lines true false took).take 1 := by
  cases x <;> rfl

theorem Legible.newline_notMem (h : x.Legible) (htook : '\n' ∉ took) : ∀ line ∈ x.lines true false took, '\n' ∉ line := by
  cases x with
  | line t => exact List.forall_mem_singleton.mpr h.feed
  | answer a => exact Report.newline_notMem_lines h htook

theorem Legible.outside_lines (h : x.Legible) (took : Text) (rest : List Text) :
    Report.outside false ((x.lines true false took).map (· ++ ['\n']) ++ rest) =
      (x.lines false false took).map (· ++ ['\n']) ++ Report.outside false rest := by
  cases x with
  | line t => exact Report.outside_cons h.opens_eq_false rest
  | answer a => exact Report.outside_lines h took rest

end Lines

end Shown

/-- How a turn is shown, the line first. -/
def Turn.shown : Turn → List Shown
  | .said line a => [.line ('>' :: line), .answer a]
  | .reset => []

namespace Command
open Text

/-! ### Lines of input -/

section Input
variable {piece : Bytes} {pieces : List Bytes} {stdin : Bytes} {line raw : Text}

theorem exists_of_mem_answered (h : line ∈ answered pieces) :
    ∃ piece ∈ pieces, ∃ raw, piece.text? = some raw ∧ line = Console.strip raw := by
  obtain ⟨raw, hraw, rfl⟩ := List.mem_map.mp (List.mem_filter.mp h).1
  have htext := (List.takeWhile_prefix _).subset (List.reduceOption_mem_iff.mp hraw)
  obtain ⟨piece, hpiece, hsome⟩ := List.mem_map.mp htext
  exact ⟨piece, hpiece, raw, hsome, rfl⟩

theorem mem_of_mem_strip {c : Char} (h : c ∈ Console.strip raw) : c ∈ raw := by
  rw [← dropEnd_append_takeEnd (fun c => c = '\r' || c = '\n') raw]
  exact List.mem_append_left _ h

/-- A piece ends at its first line feed, and an answered line has no line end behind it. -/
theorem newline_notMem_strip (hpiece : piece ∈ stdin.pieces) (h : piece.text? = some raw) :
    '\n' ∉ Console.strip raw := by
  have hfeed {t : Text} : 10 ∈ Bytes.ofText t ↔ '\n' ∈ t := Bytes.mem_ofText_iff (d := '\n') (by decide)
  have htext : piece = Bytes.ofText raw := Bytes.text?_eq_some_iff.mp h
  obtain ⟨stem, hstem, hends⟩ := exists_of_mem_cutAfter hpiece
  rcases hends with rfl | rfl
  · exact fun hmem => hstem (htext ▸ hfeed.mpr (mem_of_mem_strip hmem))
  · have hlast : raw.getLast? = some '\n' := by
      rw [← Bytes.getLast?_ofText_eq_some_iff (by decide), ← htext]
      exact List.getLast?_concat
    obtain ⟨front, rfl⟩ := List.getLast?_eq_some_iff.mp hlast
    have hfront : stem = Bytes.ofText front := by
      rw [Bytes.ofText_append] at htext
      exact List.append_cancel_right htext
    have hstrip : Console.strip (front ++ ['\n']) = Console.strip front := by simp [Console.strip, dropEnd]
    rw [hstrip]
    exact fun hmem => hstem (hfront ▸ hfeed.mpr (mem_of_mem_strip hmem))

theorem newline_notMem_answered (h : line ∈ answered stdin.pieces) : '\n' ∉ line := by
  obtain ⟨piece, hpiece, raw, hraw, rfl⟩ := exists_of_mem_answered h
  exact newline_notMem_strip hpiece hraw

end Input

/-! ### Displays -/

/-- What a run comes to, whichever lines its answers take. -/
structure Display where
  code : Nat
  shown : List Shown
  stderr : Text

namespace Display
variable {d : Display} {took : Text}

def stdout (d : Display) (verbose colour : Bool) (took : Text) : Text :=
  unlines (d.shown.flatMap (Shown.lines verbose colour took))

def outcome (d : Display) (verbose colour : Bool) (took : Text) : Outcome :=
  ⟨d.code, d.stdout verbose colour took, d.stderr⟩

/-- With colour and without, the text comes to the same less all sequences. -/
theorem erase_stdout (d : Display) (verbose colour : Bool) (took : Text) :
    Style.erase (d.stdout verbose colour took) = Style.erase (d.stdout verbose false took) := by
  have herase (ls : List Text) : Style.erase (unlines ls) = unlines (ls.map Style.erase) := by
    simpa using Style.erase_unlines ls []
  simp only [stdout, herase, List.map_flatMap, Shown.map_erase_lines verbose colour]

theorem stdout_eq_take_one (d : Display) (took : Text) :
    d.stdout false false took = unlines (d.shown.flatMap fun x => (x.lines true false took).take 1) := by
  simp only [stdout, ← Shown.lines_eq_take_one]

theorem outside_shown {shown : List Shown} (h : ∀ x ∈ shown, x.Legible) (took : Text) :
    Report.outside false ((shown.flatMap (Shown.lines true false took)).map (· ++ ['\n'])) =
      (shown.flatMap (Shown.lines false false took)).map (· ++ ['\n']) := by
  induction shown with
  | nil => rfl
  | cons x shown ih =>
    obtain ⟨hx, hrest⟩ := List.forall_mem_cons.mp h
    rw [List.flatMap_cons, List.flatMap_cons, List.map_append, List.map_append, hx.outside_lines, ih hrest]

/-- Of the text with reports, the first line of each report is left. -/
theorem firstLines_stdout (h : ∀ x ∈ d.shown, x.Legible) (htook : '\n' ∉ took) :
    Report.firstLines (d.stdout true false took) = d.stdout false false took := by
  have hlines : ∀ line ∈ d.shown.flatMap (Shown.lines true false took), '\n' ∉ line := by
    intro line hline
    obtain ⟨x, hx, hline⟩ := List.mem_flatMap.mp hline
    exact (h x hx).newline_notMem htook line hline
  rw [Report.firstLines, stdout, unlines, cutAfter_flatMap_stop hlines, outside_shown h]
  exact List.flatMap_def.symm

end Display

/-! ### What a run shows -/

namespace Console
variable {k : Console}

theorem reply_eq (k : Console) (took : Text) (a : Answer) :
    k.reply took a = unlines ((Shown.answer a).lines k.verbose k.colour took) := rfl

theorem shown_turn (hecho : k.echo = true) (took : Text) (turn : Turn) :
    k.shown took turn = unlines (turn.shown.flatMap (Shown.lines k.verbose k.colour took)) := by
  cases turn with
  | said line a => simp [shown, transcript, reply_eq, hecho, Turn.shown, Shown.lines, unlines]
  | reset => rfl

theorem shown_log (hecho : k.echo = true) (took : Text) (log : List Turn) :
    log.flatMap (k.shown took) = unlines ((log.flatMap Turn.shown).flatMap (Shown.lines k.verbose k.colour took)) := by
  induction log with
  | nil => rfl
  | cons turn log ih =>
    rw [List.flatMap_cons, List.flatMap_cons, List.flatMap_append, unlines_append, ih, shown_turn hecho]

end Console

theorem legible_shown {log : List Turn} (hlog : ∀ turn ∈ log, turn.Legible)
    (hlines : ∀ input a, .said input a ∈ log → '\n' ∉ input) : ∀ x ∈ log.flatMap Turn.shown, x.Legible := by
  intro x hx
  obtain ⟨turn, hturn, hx⟩ := List.mem_flatMap.mp hx
  cases turn with
  | said line a =>
    rcases List.mem_cons.mp hx with rfl | hx
    · exact ⟨by simpa using hlines line a hturn, Or.inl (by simp)⟩
    · rw [List.mem_singleton.mp hx]
      exact hlog _ hturn
  | reset => cases hx

theorem greeting_outer : Report.Outer greeting := ⟨by decide, by decide⟩

namespace Settings
variable {st : Settings} {files : Text → File} {stdin : Bytes} {s : Script} {c : Conversation} {a : Answer} {line : Text}
  {log : List Turn} {sink : Sink}

theorem legible_of_read (h : (st.read files).result = .ok s) : s.Legible := by
  unfold read at h
  split at h
  · exact Script.legible_of_ofFile h
  · exact Script.legible_of_ofText h

/-- What a run with these settings shows: nothing where the script cannot be read, one answer to the line that comes
    with an option, and otherwise the greeting and then the lines of the input with the answers of a session over
    them. -/
inductive Shows (st : Settings) (files : Text → File) (stdin : Bytes) : List Shown → Prop where
  | unread {defect : Script.Defect} (hread : (st.read files).result = .error defect) : Shows st files stdin []
  | once {s : Script} {line : Text} {c : Conversation} {a : Answer} (hread : (st.read files).result = .ok s)
      (hinput : st.input = some line) (ha : (Conversation.start s st.options).answer? line = some (c, a)) :
      Shows st files stdin [.answer a]
  | session {s : Script} {c : Conversation} {log : List Turn} (hread : (st.read files).result = .ok s)
      (hinput : st.input = none)
      (hrun : (Conversation.start s st.options).run? ((answered stdin.pieces).map .say) = some (c, log)) :
      Shows st files stdin (.line greeting :: log.flatMap Turn.shown)

theorem Shows.legible {shown : List Shown} (h : st.Shows files stdin shown) : ∀ x ∈ shown, x.Legible := by
  cases h with
  | unread hread => exact List.forall_mem_nil _
  | once hread hinput ha =>
    have hlegible := Conversation.legible_of_answer? (legible_of_read hread) (Options.legible_classic _) ha
    exact List.forall_mem_singleton.mpr hlegible
  | session hread hinput hrun =>
    have hlog := Conversation.legible_of_run? (legible_of_read hread) (Options.legible_classic _) hrun
    refine List.forall_mem_cons.mpr ⟨greeting_outer, legible_shown hlog fun input a hmem => ?_⟩
    -- The log has the answered lines in their order, and no others.
    have hcall := List.mem_map_of_mem (f := Turn.call) hmem
    rw [Conversation.map_call_of_run? hrun] at hcall
    obtain ⟨line, hline, hsay⟩ := List.mem_map.mp hcall
    cases hsay
    exact newline_notMem_answered hline

/-- The same settings for another way of showing answers. -/
def displayed (st : Settings) (verbose colour : Bool) : Settings := { st with verbose, colour }

/-- A run with these settings and this sink, however answers are shown, comes to this display. -/
def Displays (st : Settings) (files : Text → File) (stdin : Bytes) (sink : Sink) (d : Display) : Prop :=
  ∀ (verbose colour : Bool) (took : Text) (args : List Text),
    Request.ofArguments false args = .ok (.talk (st.displayed verbose colour)) →
      run took files stdin args sink = d.outcome verbose colour took

theorem displays_once (hs : (st.read files).result = .ok s) (hinput : st.input = some line)
    (ha : (Conversation.start s st.options).answer? line = some (c, a)) :
    st.Displays files stdin sink ⟨0, [.answer a], sink.text (st.records files ++ [.event a.event])⟩ := by
  intro verbose colour took args hargs
  -- Neither the script nor the options of the conversation follow from the way answers are shown.
  have hs' : ((st.displayed verbose colour).read files).result = .ok s := hs
  rw [run_of_answer took hargs hs' hinput stdin ha, Console.reply_eq, Display.outcome, Display.stdout,
    List.flatMap_singleton]
  rfl

theorem displays_session (hs : (st.read files).result = .ok s) (hinput : st.input = none)
    (hrun : (Conversation.start s st.options).run? ((answered stdin.pieces).map .say) = some (c, log)) :
    st.Displays files stdin sink ⟨(closing stdin.pieces).code, .line greeting :: log.flatMap Turn.shown,
      sink.text (st.records files ++ log.flatMap Turn.records) ++ (closing stdin.pieces).stderr⟩ := by
  intro verbose colour took args hargs
  have hs' : ((st.displayed verbose colour).read files).result = .ok s := hs
  rw [run_of_log took hargs hs' hinput stdin hrun, Console.shown_log rfl, ← unlines_append]
  rfl

/-- What is shown does not depend on how it is shown. -/
theorem exists_display (st : Settings) (files : Text → File) (stdin : Bytes) (sink : Sink) :
    ∃ d : Display, st.Shows files stdin d.shown ∧ st.Displays files stdin sink d := by
  cases hread : (st.read files).result with
  | error defect =>
    refine ⟨⟨1, [], sink.text (st.records files) ++ unlines [st.complaint defect]⟩, .unread hread,
      fun verbose colour took args hargs => ?_⟩
    have hdefect : ((st.displayed verbose colour).read files).result = .error defect := hread
    have hrun : run took files stdin args sink = _ := run_of_unread took stdin hargs hdefect
    exact hrun
  | ok s =>
    have wf := (loaded_of_read hread).wellFormed
    cases hinput : st.input with
    | some line =>
      obtain ⟨c, a, ha, -⟩ := (Conversation.Tracks.start s st.options).answer wf line
      exact ⟨_, .once hread hinput ha, displays_once hread hinput ha⟩
    | none =>
      obtain ⟨c, log, hrun⟩ := Conversation.exists_run wf st.options ((answered stdin.pieces).map .say)
      exact ⟨_, .session hread hinput hrun, displays_session hread hinput hrun⟩

end Settings

/-! ### Options in front -/

section Runs
variable {args : List Text} {st : Settings}

theorem exists_painted (hargs : Request.ofArguments false args = .ok (.talk st)) : ∃ colour,
    Request.ofArguments false ("--color".toList :: args) = .ok (.talk (st.displayed st.verbose colour)) := by
  obtain ⟨v, rfl⟩ := Invocation.exists_args args
  obtain ⟨-, rfl, -⟩ := Invocation.ofArguments_eq_talk_iff.mp hargs
  have hcons := Invocation.ofArguments_cons (g := .colour true) rfl hargs
  rw [Invocation.total_cons_colour] at hcons
  exact ⟨_, hcons⟩

theorem ofArguments_verbose (hargs : Request.ofArguments false args = .ok (.talk st)) :
    Request.ofArguments false ("--verbose".toList :: args) = .ok (.talk (st.displayed true st.colour)) := by
  obtain ⟨v, rfl⟩ := Invocation.exists_args args
  obtain ⟨-, rfl, -⟩ := Invocation.ofArguments_eq_talk_iff.mp hargs
  have hcons := Invocation.ofArguments_cons (g := .verbose false) rfl hargs
  rw [Invocation.total_cons_verbose] at hcons
  exact hcons

/-- Without an option for it there is no report and no colour. -/
theorem plain_of_notMem {v : Invocation} (hverbose : ∀ short, .verbose short ∉ v.settings)
    (hcolour : ∀ on, .colour on ∉ v.settings) :
    (v.total false).verbose = false ∧ (v.total false).colour = false := by
  have hverbose' : v.settings.any Setting.isVerbose = false := by
    rw [List.any_eq_false]
    intro g hg
    cases g with
    | verbose short => exact absurd hg (hverbose short)
    | _ => simp [Setting.isVerbose]
  have hcolour' : v.settings.filterMap Setting.colour? = [] := by
    rw [List.filterMap_eq_nil_iff]
    intro g hg
    cases g with
    | colour on => exact absurd hg (hcolour on)
    | _ => rfl
  refine ⟨hverbose', ?_⟩
  show (v.settings.filterMap Setting.colour?).getLast?.getD false = false
  rw [hcolour']
  rfl

/-- Reports and colour are presentation only. An option for colour in front of arguments that are understood
    changes neither the code nor the errors, and less all its sequences what is shown comes to the same. One
    for reports, in front of arguments without options for either, changes neither the code nor the errors. The
    answers are those of one session over the input either way: with the option each is shown by its report and
    without it by the first line of that, and a text with reports has enough in it to tell their first lines. -/
theorem run_presentation (hargs : Request.ofArguments false args = .ok (.talk st)) (took : Text) (files : Text → File)
    (stdin : Bytes) (sink : Sink) :
    let plain := run took files stdin args sink
    let painted := run took files stdin ("--color".toList :: args) sink
    let verbose := run took files stdin ("--verbose".toList :: args) sink
    (painted.code = plain.code ∧ painted.stderr = plain.stderr ∧
      Style.erase painted.stdout = Style.erase plain.stdout) ∧
    ∀ v : Invocation, v.args = args → (∀ short, .verbose short ∉ v.settings) → (∀ on, .colour on ∉ v.settings) →
      verbose.code = plain.code ∧ verbose.stderr = plain.stderr ∧
      (∃ shown, st.Shows files stdin shown ∧ verbose.stdout = unlines (shown.flatMap (Shown.lines true false took)) ∧
        plain.stdout = unlines (shown.flatMap fun x => (x.lines true false took).take 1)) ∧
      ('\n' ∉ took → Report.firstLines verbose.stdout = plain.stdout) := by
  intro plain painted verbose
  obtain ⟨d, hshows, hdisplay⟩ := st.exists_display files stdin sink
  have hplain : plain = d.outcome st.verbose st.colour took := hdisplay _ _ took args hargs
  have hverbose : verbose = d.outcome true st.colour took := hdisplay _ _ took _ (ofArguments_verbose hargs)
  refine ⟨?_, fun v hv hreports hcolours => ?_⟩
  · obtain ⟨colour, hcons⟩ := exists_painted hargs
    have hpainted : painted = d.outcome st.verbose colour took := hdisplay _ _ took _ hcons
    rw [hpainted, hplain]
    exact ⟨rfl, rfl, (d.erase_stdout _ _ took).trans (d.erase_stdout _ _ took).symm⟩
  · subst hv
    obtain ⟨-, hst, -⟩ := Invocation.ofArguments_eq_talk_iff.mp hargs
    obtain ⟨hreport, hcolour⟩ := plain_of_notMem hreports hcolours
    rw [hst] at hreport hcolour
    rw [hverbose, hplain, hreport, hcolour]
    exact ⟨rfl, rfl, ⟨d.shown, hshows, rfl, d.stdout_eq_take_one took⟩, Display.firstLines_stdout hshows.legible⟩

/-- A rule file whose replies hold a whole sequence and the beginning of one, over a reply that takes in the
    rest of the query, a repeat and a line that no rule knows. -/
theorem run_presentation_escapes :
    let source : Text := "A\n!\n\x1b[31mX\x1b[*\n.\nNOKEYFOUND\n!\nY\n.\n".toList
    let files : Text → File := fun _ => .contents (Bytes.ofText source)
    let stdin : Bytes := Bytes.ofText "a my dog\nA MY DOG!\nq\n".toList
    let args : List Text := ["-r", "f"].map String.toList
    let verbose := run "<TIME>".toList files stdin ("--verbose".toList :: args)
    let painted := run "<TIME>".toList files stdin ("--color".toList :: "--verbose".toList :: args)
    let shown : Text := unlines ([greeting] ++ [">a my dog", "\x1b[31mX\x1b[ YOUR DOG?", ">A MY DOG!",
      "PLEASE DON'T REPEAT YOURSELF!", ">q", "Y"].map String.toList)
    Request.ofArguments false args = .ok (.talk ⟨none, some ['f'], false, false, false⟩) ∧
      Request.ofArguments false ("--verbose".toList :: args) = .ok (.talk ⟨none, some ['f'], true, false, false⟩) ∧
      painted.stdout ≠ verbose.stdout ∧ Style.erase painted.stdout = Style.erase verbose.stdout ∧
      painted.code = verbose.code ∧ painted.stderr = verbose.stderr ∧
      verbose.stdout ≠ shown ∧ Report.firstLines verbose.stdout = shown ∧ verbose.code = 0 ∧ verbose.stderr = [] := by
  intro source files stdin args verbose painted shown
  let v : Invocation := ⟨[.script true ['f']], .nothing, trivial⟩
  have hargs : Request.ofArguments false args = .ok (.talk ⟨none, some ['f'], false, false, false⟩) := by rfl
  have hreport : Request.ofArguments false ("--verbose".toList :: args) =
    .ok (.talk ⟨none, some ['f'], true, false, false⟩) := by rfl
  have hplain : run "<TIME>".toList files stdin args = ⟨0, shown, []⟩ := by decide +kernel
  obtain ⟨⟨hcode, hstderr, herase⟩, -⟩ := run_presentation hreport "<TIME>".toList files stdin .off
  obtain ⟨-, hverbose⟩ := run_presentation hargs "<TIME>".toList files stdin .off
  obtain ⟨hcode', hstderr', -, hfirst⟩ := hverbose v rfl (by simp [v]) (by simp [v])
  rw [hplain] at hcode' hstderr' hfirst
  exact ⟨hargs, hreport, by decide +kernel, herase, hcode, hstderr, by decide +kernel, hfirst (by decide), hcode',
    hstderr'⟩

end Runs

end Command

end Dialogue
