import Dialogue.Proofs.Command.Outcome
import Dialogue.Proofs.Conjugation.Marks
import Dialogue.Proofs.Conversation.Details

/-! # The two spellings of an option with a value

A value stands behind its option, or in one argument with it. Both give the same settings, but in one
argument the value loses what it begins with as often as that is the opening of the argument itself
(`Valued.scan_joined`). So the two spellings of a value that does not begin so agree in every run. Those of
any other value do not: a path shows in the complaint about its file (`run_script_ne`), and a line in the
report of its answer (`run_reporting_ne`). -/

namespace Dialogue
open Text

/-! ### Openings -/

namespace Text
variable {opening t : Text}

theorem dropStarts_eq_self (h : ¬ opening <+: t) : dropStarts opening t = t := by
  rw [dropStarts, afterStart?_eq_none_iff.mpr h]

/-- The opening is taken off until the text does not begin with it. -/
theorem exists_dropStarts (h : opening ≠ []) (t : Text) : ∃ n,
    t = (List.replicate n opening).flatten ++ dropStarts opening t ∧ ¬ opening <+: dropStarts opening t := by
  by_cases hstart : opening <+: t
  · obtain ⟨rest, rfl⟩ := hstart
    have hshorter : rest.length < (opening ++ rest).length := by
      have := List.length_pos_iff.mpr h
      rw [List.length_append]
      omega
    obtain ⟨n, hrest, hstop⟩ := exists_dropStarts h rest
    rw [dropStarts_append h]
    refine ⟨n + 1, ?_, hstop⟩
    rw [List.replicate_succ, List.flatten_cons, List.append_assoc, ← hrest]
  · rw [dropStarts_eq_self hstart]
    exact ⟨0, rfl, hstart⟩
termination_by t.length

theorem dropStarts_suffix (h : opening ≠ []) (t : Text) : dropStarts opening t <:+ t := by
  obtain ⟨n, ht, -⟩ := exists_dropStarts h t
  exact ⟨_, ht.symm⟩

end Text

/-! ### What a report shows -/

theorem Query.quote_notMem_normalize (line : Text) : '"' ∉ normalize line := fun h =>
  absurd (keeps_of_mem_normalize h) (by decide)

theorem Report.exists_unlines_lines (took : Text) (a : Answer) : ∃ rest,
    unlines (lines false took a) = (a.reply ++ "\n  query: \"".toList) ++ (a.query ++ '"' :: rest) := by
  refine ⟨'\n' :: unlines (courseLines false a ++ [footer false took a.flags]), ?_⟩
  have hhead : unlines [a.reply, "  query: \"".toList ++ a.query ++ ['"']] =
      (a.reply ++ "\n  query: \"".toList) ++ (a.query ++ ['"', '\n']) := by simp [unlines]
  have hlines : lines false took a = [a.reply, "  query: \"".toList ++ a.query ++ ['"']] ++
      (courseLines false a ++ [footer false took a.flags]) := by
    simp [lines, field, quote, Style.paint]
  rw [hlines, unlines_append, hhead]
  simp

/-- Reports of one reply that are the same are reports of one query. -/
theorem Report.query_eq_of_unlines_lines {took : Text} {a b : Answer} (hreply : a.reply = b.reply)
    (ha : '"' ∉ a.query) (hb : '"' ∉ b.query)
    (h : unlines (lines false took a) = unlines (lines false took b)) : a.query = b.query := by
  obtain ⟨rest, hlines⟩ := exists_unlines_lines took a
  obtain ⟨rest', hlines'⟩ := exists_unlines_lines took b
  rw [hlines, hlines', hreply] at h
  rw [← takeWhile_append_of_notMem ha rest, List.append_cancel_left h, takeWhile_append_of_notMem hb]

/-- Over a script with one reply and no place for the rest of a query in it, this is the reply. -/
theorem Conversation.answer_of_replies {s : Script} {o : Options} {line t : Text} {c : Conversation} {a : Answer}
    (hfixed : o.noMatchReply = none) (hreplies : s.replies = [t]) (ht : Template.isOpen t = false)
    (h : (start s o).answer? line = some (c, a)) : a.query = Query.normalize line ∧ a.reply = t := by
  cases answer?_eq_some_iff.mp h with
  | repeated hp => cases hp
  | fixed hp hr hf hreply => cases hfixed.symm.trans hreply
  | told hp hr hf hbefore htemplate =>
    refine ⟨rfl, ?_⟩
    have hmem := List.mem_of_getElem? htemplate
    have hscript : (start s o).script.replies = [t] := hreplies
    rw [hscript, List.mem_singleton] at hmem
    subst hmem
    rw [Options.reply_fill, ht]
    rfl

namespace Command

/-! ### The two spellings -/

/-- The options with a value. -/
inductive Valued where
  | script
  | input

namespace Valued

def name : Valued → Text
  | script => "--rules".toList
  | input => "--input".toList

def opening (o : Valued) : Text := o.name ++ ['=']

/-- The value in one argument with its option. -/
def joined (o : Valued) (value : Text) : List Text := [o.opening ++ value]

/-- The value behind its option. -/
def apart (o : Valued) (value : Text) : List Text := [o.name, value]

theorem opening_ne_nil (o : Valued) : o.opening ≠ [] := List.append_ne_nil_of_right_ne_nil _ (List.cons_ne_nil _ _)

/-- What an argument of the option means, with the value in it or without. -/
def word : Valued → Option Text → Word
  | script => .script
  | input => .input

theorem ofText_name (o : Valued) : Word.ofText o.name = o.word none := by
  have hscript : Word.ofText "--rules".toList = .script none := Word.ofText_of_mem (by simp [Word.table])
  have hinput : Word.ofText "--input".toList = .input none := Word.ofText_of_mem (by simp [Word.table])
  cases o with
  | script => exact hscript
  | input => exact hinput

theorem ofText_opening (o : Valued) (value : Text) :
    Word.ofText (o.opening ++ value) = o.word (some (dropStarts o.opening value)) := by
  cases o with
  | script => exact Word.ofText_attachedScript value
  | input => exact Word.ofText_attachedInput value

theorem follow_word (o : Valued) (s : Settings) (arg arg' value : Text) (args : List Text) :
    s.follow arg args (o.word (some value)) = s.follow arg' (value :: args) (o.word none) := by
  cases o with
  | script => rfl
  | input => rfl

/-- In one argument, a value loses its openings. -/
theorem scan_joined (o : Valued) (s : Settings) (value : Text) (args : List Text) :
    s.scan (o.joined value ++ args) = s.scan (o.apart (dropStarts o.opening value) ++ args) := by
  rw [joined, apart, List.singleton_append, Settings.scan_cons (o.ofText_opening value), List.cons_append,
    List.singleton_append, Settings.scan_cons o.ofText_name]
  exact o.follow_word s _ _ _ args

end Valued

section Runs
variable {took : Text} {files : Text → File} {stdin : Bytes} {args args' : List Text} {line other : Text} {sink : Sink}

/-- The arguments of a run matter for its request alone. -/
theorem run_congr (h : Request.ofArguments false args = Request.ofArguments false args') :
    run took files stdin args sink = run took files stdin args' sink := by
  simp only [run, Plan.ofArguments, Terminals.pipes, h]

theorem run_joined_eq (o : Valued) (gs : List Setting) (value : Text) (args : List Text) :
    run took files stdin (gs.flatMap Setting.args ++ o.joined value ++ args) sink =
      run took files stdin (gs.flatMap Setting.args ++ o.apart (dropStarts o.opening value) ++ args) sink := by
  refine run_congr ?_
  rw [Request.ofArguments, Request.ofArguments, List.append_assoc, List.append_assoc, Settings.scan_settings,
    Settings.scan_settings, o.scan_joined]

/-! ### Values that are told apart -/

/-- A path shows in the complaint about its file. -/
theorem run_script_ne {path other : Text} (h : path ≠ other) :
    run [] (fun _ => .unreadable .notFound) [] (Valued.script.apart path) ≠
      run [] (fun _ => .unreadable .notFound) [] (Valued.script.apart other) := by
  have hrun (path : Text) : run [] (fun _ => .unreadable .notFound) [] (Valued.script.apart path) =
      ⟨1, [], unlines ["error: ".toList ++ (path ++ ": ".toList) ++ (Script.Defect.unreadable .notFound).message]⟩ :=
    let v : Invocation := ⟨[.script false path], .nothing, trivial⟩
    have hlines : v.sources = [] := rfl
    run_of_defect (v := v) rfl (by simp [hlines]) rfl rfl
  intro heq
  rw [hrun, hrun] at heq
  exact h (by simpa [unlines] using congrArg Outcome.stderr heq)

/-- A script with one rule and one reply. -/
def soleScript : Script := ⟨[⟨Script.fallbackPhrase, ⟨0, 0⟩, 1⟩], [['X']], 0⟩

def soleFile : File := .contents (Bytes.ofText "NOKEYFOUND\n!\nX\n.".toList)

theorem result_soleFile : (Script.ofFile Script.fallbackPhrase soleFile).result = .ok soleScript := by
  show (Script.ofBytes Script.fallbackPhrase (Bytes.ofText "NOKEYFOUND\n!\nX\n.".toList)).result = .ok soleScript
  rw [Script.ofBytes_ofText]
  rfl

/-- A line to answer, with a report, over a script from a file. -/
def reporting (line : Text) : Invocation := ⟨[.verbose false, .script false ['f'], .input false line], .nothing, trivial⟩

theorem sources_reporting (line : Text) : (reporting line).sources = [line] := rfl

theorem exists_report (hline : line.trim ≠ []) : ∃ a : Answer, a.query = Query.normalize line ∧ a.reply = ['X'] ∧
    run [] (fun _ => soleFile) [] (reporting line).args = ⟨0, unlines (Report.lines false [] a), []⟩ := by
  have hargs : Request.ofArguments false (reporting line).args = .ok (.talk ((reporting line).total false)) :=
    Invocation.ofArguments_eq_talk false rfl (by simpa [sources_reporting] using hline)
  have hread : (((reporting line).total false).read fun _ => soleFile).result = .ok soleScript := result_soleFile
  obtain ⟨c, a, ha, hrun⟩ := exists_once [] hargs hread rfl
  obtain ⟨hquery, hreply⟩ := Conversation.answer_of_replies rfl rfl rfl ha
  exact ⟨a, hquery, hreply, hrun [] .off⟩

/-- A line shows in the report of its answer, but for what a query does not keep of it. -/
theorem run_reporting_ne (hline : line.trim ≠ []) (h : Query.normalize line ≠ Query.normalize other) :
    run [] (fun _ => soleFile) [] (reporting line).args ≠ run [] (fun _ => soleFile) [] (reporting other).args := by
  intro heq
  obtain ⟨a, hquery, hreply, hrun⟩ := exists_report hline
  by_cases hblank : other.trim = []
  · have hsource : other ∈ (reporting other).sources := List.mem_cons_self
    rw [hrun, run_of_blank (v := reporting other) rfl ⟨other, hsource, hblank⟩] at heq
    cases congrArg Outcome.code heq
  · obtain ⟨b, hquery', hreply', hrun'⟩ := exists_report hblank
    rw [hrun, hrun'] at heq
    have hsame := Report.query_eq_of_unlines_lines (hreply.trans hreply'.symm)
      (hquery ▸ Query.quote_notMem_normalize line) (hquery' ▸ Query.quote_notMem_normalize other)
      (congrArg Outcome.stdout heq)
    exact h (hquery.symm.trans (hsame.trans hquery'))

/-- The opening of a line leaves letters in its query. -/
theorem normalize_opening_ne {rest : Text} (h : rest <:+ line) :
    Query.normalize (Valued.input.opening ++ line) ≠ Query.normalize rest := by
  intro heq
  have hletters : ((Valued.input.opening.map Char.toUpper).filter Query.keeps).length = 5 := by decide
  have hkept : ((rest.map Char.toUpper).filter Query.keeps).length ≤
      ((line.map Char.toUpper).filter Query.keeps).length := ((h.map Char.toUpper).filter Query.keeps).length_le
  have hlength := congrArg List.length heq
  simp only [Query.normalize, pad, List.map_append, List.filter_append, List.length_append, List.length_cons,
    List.length_nil, hletters] at hlength
  omega

/-- A value that begins with its option's opening has spellings that differ. -/
theorem exists_run_ne (o : Valued) (rest : Text) : ∃ (took : Text) (files : Text → File) (stdin : Bytes)
    (gs : List Setting) (args : List Text),
    run took files stdin (gs.flatMap Setting.args ++ o.joined (o.opening ++ rest) ++ args) ≠
      run took files stdin (gs.flatMap Setting.args ++ o.apart (o.opening ++ rest) ++ args) := by
  have hsuffix := dropStarts_suffix o.opening_ne_nil rest
  cases o with
  | script =>
    have hlonger : Valued.script.opening ++ rest ≠ dropStarts Valued.script.opening rest := by
      intro heq
      have := hsuffix.length_le
      have hlength := congrArg List.length heq
      rw [List.length_append] at hlength
      have := List.length_pos_iff.mpr Valued.script.opening_ne_nil
      omega
    refine ⟨[], fun _ => .unreadable .notFound, [], [], [], fun heq => ?_⟩
    rw [run_joined_eq, dropStarts_append (Valued.opening_ne_nil _)] at heq
    exact run_script_ne hlonger heq.symm
  | input =>
    have hvisible : (Valued.input.opening ++ rest).trim ≠ [] := by
      have hdash : '-' ∈ Valued.input.opening ++ rest := List.mem_cons_self
      exact trim_ne_nil_of_mem hdash (by decide)
    refine ⟨[], fun _ => soleFile, [], [.verbose false, .script false ['f']], [], fun heq => ?_⟩
    rw [run_joined_eq, dropStarts_append (Valued.opening_ne_nil _)] at heq
    exact run_reporting_ne hvisible (normalize_opening_ne hsuffix) heq.symm

/-- In one argument with its option, a value loses what it begins with as often as that is the opening of the
    argument, and what is left of it means what it means behind the option, after all options and before all
    arguments. So the two spellings of a value agree in all runs just where it does not begin so. -/
theorem run_spelling (o : Valued) (value : Text) :
    (∃ n rest, value = (List.replicate n o.opening).flatten ++ rest ∧ ¬ o.opening <+: rest ∧
      ∀ (took : Text) (files : Text → File) (stdin : Bytes) (gs : List Setting) (args : List Text) (sink : Sink),
        run took files stdin (gs.flatMap Setting.args ++ o.joined value ++ args) sink =
          run took files stdin (gs.flatMap Setting.args ++ o.apart rest ++ args) sink) ∧
    ((∀ (took : Text) (files : Text → File) (stdin : Bytes) (gs : List Setting) (args : List Text),
      run took files stdin (gs.flatMap Setting.args ++ o.joined value ++ args) =
        run took files stdin (gs.flatMap Setting.args ++ o.apart value ++ args)) ↔ ¬ o.opening <+: value) := by
  obtain ⟨n, hvalue, hstop⟩ := exists_dropStarts o.opening_ne_nil value
  refine ⟨⟨n, _, hvalue, hstop, fun _ _ _ gs args _ => run_joined_eq o gs value args⟩, fun hall hstart => ?_,
    fun hstart _ _ _ gs args => ?_⟩
  · obtain ⟨rest, rfl⟩ := hstart
    obtain ⟨took, files, stdin, gs, args, hne⟩ := exists_run_ne o rest
    exact hne (hall took files stdin gs args)
  · rw [run_joined_eq, dropStarts_eq_self hstart]

/-- The option's own opening as the line to answer: in one argument, nothing is left of it. -/
theorem run_spelling_opening :
    let files : Text → File := fun _ => .unreadable .notFound
    let opening : Text := "--input=".toList
    Valued.input.joined opening = ["--input=--input=".toList] ∧
      Valued.input.apart opening = ["--input", "--input="].map String.toList ∧
      run [] files [] (Valued.input.joined opening) = ⟨2, [], unlines [Misuse.emptyInput.message]⟩ ∧
      (run [] files [] (Valued.input.apart opening)).code = 0 ∧
      run [] files [] (Valued.input.joined opening) ≠ run [] files [] (Valued.input.apart opening) := by
  intro files opening
  let v : Invocation := ⟨[.attachedInput opening], .nothing, trivial⟩
  let w : Invocation := ⟨[.input false opening], .nothing, trivial⟩
  have hleft : dropStarts Word.inputOpening opening = [] :=
    (dropStarts_append (by decide) []).trans (dropStarts_eq_self (by decide))
  have hjoined : run [] files [] (Valued.input.joined opening) = ⟨2, [], unlines [Misuse.emptyInput.message]⟩ :=
    run_of_blank (v := v) rfl ⟨[], by simp [v, Invocation.sources, Setting.line?, hleft, Ending.line?], rfl⟩
  have hfull : ∀ line ∈ w.sources, line.trim ≠ [] := by decide
  obtain ⟨s, hs⟩ : ∃ s, ((w.total false).read files).result = .ok s := Script.exists_classic
  have hapart : (run [] files [] (Valued.input.apart opening)).code = 0 :=
    (code_of_line (v := w) rfl hfull hs List.mem_cons_self).1
  refine ⟨rfl, rfl, hjoined, hapart, fun heq => ?_⟩
  rw [← heq, hjoined] at hapart
  cases hapart

end Runs

end Command

end Dialogue
