import Dialogue.Command.Run
import Dialogue.Proofs.Command.Arguments
import Dialogue.Proofs.Conversation.Rotation
import Dialogue.Proofs.Script.Source
import Mathlib.Data.List.ReduceOption

/-! # A run on a stream is a session

A run without a line to answer shows the greeting and then what one conversation says to the lines of its
input (`Console.converse_eq`). It puts the reading of its script on record and then every answer, and the sink
of the run writes that to the standard error. Pieces without a line change nothing, and what was shown stays
when more input comes. -/

namespace Dialogue

/-- How a turn is shown. -/
def Turn.lines : Turn → List Text
  | .said line a => ['>' :: line, a.reply]
  | .reset => []

/-- What a turn puts on record. -/
def Turn.records : Turn → List Command.Record
  | .said _ a => [.event a.event]
  | .reset => []

namespace Command
open Text

/-! ### Pieces -/

/-- The lines that are answered: those of the pieces before the first that is no text, less their line ends,
    but for the empty ones. -/
def answered (pieces : List Bytes) : List Text :=
  (((pieces.map Bytes.text?).takeWhile Option.isSome).reduceOption.map Console.strip).filter (· ≠ [])

section Pieces
variable {piece : Bytes} {pieces : List Bytes} {raw : Text}

theorem answered_of_unreadable (h : piece.text? = none) : answered (piece :: pieces) = [] := by
  simp [answered, h]

theorem answered_of_blank (h : piece.text? = some raw) (hraw : Console.strip raw = []) :
    answered (piece :: pieces) = answered pieces := by
  simp [answered, h, hraw]

theorem answered_of_line (h : piece.text? = some raw) (hraw : Console.strip raw ≠ []) :
    answered (piece :: pieces) = Console.strip raw :: answered pieces := by
  simp [answered, h, hraw]

/-- What a conversation comes to when all that it says is shown. -/
def closing (pieces : List Bytes) : Outcome :=
  if none ∈ pieces.map Bytes.text? then (Failure.input .notUtf8).outcome else ⟨0, [], []⟩

theorem closing_of_unreadable (h : piece.text? = none) :
    closing (piece :: pieces) = (Failure.input .notUtf8).outcome := by
  simp [closing, h]

theorem closing_of_text (h : piece.text? = some raw) : closing (piece :: pieces) = closing pieces := by
  simp [closing, h]

/-- Nothing is shown at the end. -/
theorem closing_after (pieces : List Bytes) (shown : Text) :
    (closing pieces).after shown = ⟨(closing pieces).code, shown, (closing pieces).stderr⟩ := by
  unfold closing
  split <;> simp [Outcome.after, Failure.outcome]

end Pieces

/-! ### Conversations over pieces -/

theorem Outcome.after_after (o : Outcome) (s t : Text) : (o.after t).after s = o.after (s ++ t) := by
  simp [after]

/-- Where nothing is on record, nothing is written but the outcome. -/
theorem Proceedings.write_of_nil (o : Outcome) (sink : Sink) : Proceedings.write ⟨[], o⟩ sink = o := by
  simp [write, sink.text_nil]

namespace Console
variable {k : Console} {took : Text} {piece : Bytes} {pieces : List Bytes} {raw line : Text} {c : Conversation}
  {a : Answer} {log : List Turn}

theorem react_unreadable (h : piece.text? = none) : k.react piece = .error (.input .notUtf8) := by
  simp only [react, h]

theorem react_blank (h : piece.text? = some raw) (hraw : strip raw = []) : k.react piece = .ok (k, none) := by
  simp [react, h, hraw]

theorem react_line (h : piece.text? = some raw) (hraw : strip raw ≠ [])
    (ha : k.conversation.answer? (strip raw) = some (c, a)) :
    k.react piece = .ok ({ k with conversation := c }, some ⟨strip raw, a⟩) := by
  simp [react, answer, h, hraw, ha]

theorem once_eq (ha : k.conversation.answer? line = some (c, a)) :
    k.once took line = ⟨[.event a.event], ⟨0, k.reply took a, []⟩⟩ := by
  simp [once, answer, ha, Exchange.record]

/-- What is shown of a turn. -/
def shown (k : Console) (took : Text) : Turn → Text
  | .said line a => k.transcript took (some ⟨line, a⟩)
  | .reset => []

/-- A conversation over pieces shows the log of a session over the lines that are answered, and puts it on
    record. -/
theorem converse_eq (h : k.conversation.run? ((answered pieces).map .say) = some (c, log)) :
    k.converse took pieces =
      ⟨log.flatMap Turn.records, (closing pieces).after (log.flatMap (k.shown took))⟩ := by
  induction pieces generalizing k log with
  | nil =>
    cases h
    rfl
  | cons piece pieces ih =>
    cases hraw : piece.text? with
    | none =>
      rw [answered_of_unreadable hraw] at h
      cases h
      rw [converse, react_unreadable hraw, closing_of_unreadable hraw]
      rfl
    | some raw =>
      rw [converse, closing_of_text hraw]
      by_cases hblank : strip raw = []
      · rw [answered_of_blank hraw hblank] at h
        rw [react_blank hraw hblank]
        exact ih h
      · rw [answered_of_line hraw hblank, List.map_cons] at h
        obtain ⟨c₁, turn, log₁, hcall, hrun, rfl⟩ := Conversation.run?_cons_eq_some_iff.mp h
        obtain ⟨a, ha, rfl⟩ := Conversation.call?_say_eq_some_iff.mp hcall
        have hrest : Console.converse { k with conversation := c₁ } took pieces =
            ⟨log₁.flatMap Turn.records, (closing pieces).after (log₁.flatMap (k.shown took))⟩ := ih hrun
        rw [react_line hraw hblank ha, List.flatMap_cons, List.flatMap_cons, ← Outcome.after_after]
        exact congrArg (Proceedings.after · _ _) hrest

end Console

/-! ### Runs -/

theorem Settings.loaded_of_read {st : Settings} {files : Text → File} {s : Script}
    (h : (st.read files).result = .ok s) : s.Loaded := by
  unfold Settings.read at h
  split at h
  · exact Script.loaded_of_ofFile h
  · exact ⟨_, _, h⟩

section Runs
variable {files : Text → File} {args : List Text} {st : Settings} {s : Script} {line : Text} {c : Conversation}
  {a : Answer} {log : List Turn} {sink : Sink}

theorem run_of_converse (took : Text) (stdin : Bytes) (hargs : Request.ofArguments false args = .ok (.talk st))
    (hinput : st.input = none) (hs : (st.read files).result = .ok s) : run took files stdin args sink =
      (((st.console .pipes s).converse took stdin.pieces).after (st.records files) (unlines [greeting])).write sink := by
  have hplan : Plan.ofArguments .pipes files args = .converse (st.records files) (st.console .pipes s) := by
    simp only [Plan.ofArguments, Terminals.pipes, hargs, hs, hinput]
  rw [run, hplan, Plan.proceed]

theorem run_of_once (took : Text) (stdin : Bytes) (hargs : Request.ofArguments false args = .ok (.talk st))
    (hinput : st.input = some line) (hs : (st.read files).result = .ok s) : run took files stdin args sink =
      (((st.console .pipes s).once took line).after (st.records files) []).write sink := by
  have hplan : Plan.ofArguments .pipes files args = .once (st.records files) (st.console .pipes s) line := by
    simp only [Plan.ofArguments, Terminals.pipes, hargs, hs, hinput]
  rw [run, hplan, Plan.proceed]

theorem run_of_unread {d : Script.Defect} (took : Text) (stdin : Bytes)
    (hargs : Request.ofArguments false args = .ok (.talk st)) (hd : (st.read files).result = .error d) :
    run took files stdin args sink = ⟨1, [], sink.text (st.records files) ++ unlines [st.complaint d]⟩ := by
  have hplan : Plan.ofArguments .pipes files args =
      .finished ⟨st.records files, ⟨1, [], unlines [st.complaint d]⟩⟩ := by
    simp only [Plan.ofArguments, Terminals.pipes, hargs, hd]
  rw [run, hplan]
  rfl

/-- The options that a run gives its conversation. -/
def Settings.options (st : Settings) : Options :=
  { Options.classic with dropUnfilledWildcard := st.dropUnfilledWildcard }

section Loading
variable (took : Text) (hargs : Request.ofArguments false args = .ok (.talk st)) (hs : (st.read files).result = .ok s)
include hargs hs

/-- A run on a stream shows the log of a session over the lines that are answered. -/
theorem run_of_log (hinput : st.input = none) (stdin : Bytes)
    (hrun : (Conversation.start s st.options).run? ((answered stdin.pieces).map .say) = some (c, log)) :
    run took files stdin args sink =
      ⟨(closing stdin.pieces).code, unlines [greeting] ++ log.flatMap ((st.console .pipes s).shown took),
        sink.text (st.records files ++ log.flatMap Turn.records) ++ (closing stdin.pieces).stderr⟩ := by
  have hshown : (st.console .pipes s).converse took stdin.pieces =
      ⟨log.flatMap Turn.records, (closing stdin.pieces).after (log.flatMap ((st.console .pipes s).shown took))⟩ :=
    Console.converse_eq hrun
  rw [run_of_converse took stdin hargs hinput hs, hshown, closing_after]
  rfl

/-- A line that comes with an option is the first of a conversation. -/
theorem run_of_answer (hinput : st.input = some line) (stdin : Bytes)
    (ha : (Conversation.start s st.options).answer? line = some (c, a)) : run took files stdin args sink =
      ⟨0, (st.console .pipes s).reply took a, sink.text (st.records files ++ [.event a.event])⟩ := by
  rw [run_of_once took stdin hargs hinput hs, Console.once_eq (k := st.console .pipes s) ha,
    ← List.append_nil (sink.text _)]
  rfl

theorem exists_session (hinput : st.input = none) (stdin : Bytes) : ∃ c log,
    (Conversation.start s st.options).run? ((answered stdin.pieces).map .say) = some (c, log) ∧
    ∀ sink : Sink, run took files stdin args sink =
      ⟨(closing stdin.pieces).code, unlines [greeting] ++ log.flatMap ((st.console .pipes s).shown took),
        sink.text (st.records files ++ log.flatMap Turn.records) ++ (closing stdin.pieces).stderr⟩ := by
  have wf := (Settings.loaded_of_read hs).wellFormed
  obtain ⟨c, log, hrun⟩ := Conversation.exists_run wf st.options ((answered stdin.pieces).map .say)
  exact ⟨c, log, hrun, fun _ => run_of_log took hargs hs hinput stdin hrun⟩

theorem exists_once (hinput : st.input = some line) : ∃ c a,
    (Conversation.start s st.options).answer? line = some (c, a) ∧
    ∀ stdin (sink : Sink), run took files stdin args sink =
      ⟨0, (st.console .pipes s).reply took a, sink.text (st.records files ++ [.event a.event])⟩ := by
  have wf := (Settings.loaded_of_read hs).wellFormed
  obtain ⟨c, a, ha, -⟩ := (Conversation.Tracks.start s st.options).answer wf line
  exact ⟨c, a, ha, fun stdin _ => run_of_answer took hargs hs hinput stdin ha⟩

end Loading

end Runs

end Command

end Dialogue
