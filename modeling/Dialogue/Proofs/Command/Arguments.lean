import Dialogue.Command.Arguments
import Mathlib.Data.List.Induction

/-! # What an argument list says

An argument list is a row of complete options and what comes behind the last of them (`Invocation`). Every
list can be read so, and what it asks for follows from the parts: what decides first decides (`verdict?`),
and otherwise the settings that all parts add up to (`ofArguments_args`). -/

namespace Dialogue

theorem Text.dropStarts_append {opening : Text} (h : opening ≠ []) (rest : Text) :
    dropStarts opening (opening ++ rest) = dropStarts opening rest := by
  have hafter : afterStart? opening (opening ++ rest) = some rest := afterStart?_eq_some_iff.mpr rfl
  have hlt : rest.length < (opening ++ rest).length := by
    have := List.length_pos_iff.mpr h
    rw [List.length_append]
    omega
  rw [dropStarts, hafter]
  exact if_pos hlt

namespace Command
open Text

/-! ### The parts of a list -/

/-- An option together with its value, as it is written. -/
inductive Setting where
  | verbose (short : Bool)
  | colour (on : Bool)
  | dropUnfilledWildcard
  | script (short : Bool) (path : Text)
  | input (short : Bool) (line : Text)
  /-- The path in one argument with its option. -/
  | attachedScript (rest : Text)
  | attachedInput (rest : Text)
deriving DecidableEq

namespace Setting

def args : Setting → List Text
  | verbose short => [if short then "-v".toList else "--verbose".toList]
  | colour on => [if on then "--color".toList else "--no-color".toList]
  | dropUnfilledWildcard => ["--drop-unfilled-wildcard".toList]
  | script short path => [if short then "-r".toList else "--rules".toList, path]
  | input short line => [if short then "-i".toList else "--input".toList, line]
  | attachedScript rest => [Word.scriptOpening ++ rest]
  | attachedInput rest => [Word.inputOpening ++ rest]

def line? : Setting → Option Text
  | input _ line => some line
  | attachedInput rest => some (dropStarts Word.inputOpening rest)
  | _ => none

def path? : Setting → Option Text
  | script _ path => some path
  | attachedScript rest => some (dropStarts Word.scriptOpening rest)
  | _ => none

def colour? : Setting → Option Bool
  | colour on => some on
  | _ => none

def isVerbose : Setting → Bool
  | verbose _ => true
  | _ => false

end Setting

/-- The names of all options, with the mark behind which none follow. -/
def optionNames : List Text :=
  ["-h", "--help", "-V", "--version", "-v", "--verbose", "--color", "--no-color", "--drop-unfilled-wildcard",
    "-r", "--rules", "-i", "--input", "--"].map String.toList

/-- What comes behind the last complete option. -/
inductive Ending where
  | nothing
  /-- No options follow. -/
  | stop (rest : List Text)
  /-- An argument that is no option opens a line to answer. -/
  | plain (first : Text) (rest : List Text)
  | help (short : Bool) (rest : List Text)
  | version (short : Bool) (rest : List Text)
  | unknown (arg : Text) (rest : List Text)
  | missingPath (short : Bool)
  | missingInput (short : Bool)

namespace Ending

def args : Ending → List Text
  | nothing => []
  | stop rest => "--".toList :: rest
  | plain first rest => first :: rest
  | help short rest => (if short then "-h".toList else "--help".toList) :: rest
  | version short rest => (if short then "-V".toList else "--version".toList) :: rest
  | unknown arg rest => arg :: rest
  | missingPath short => [if short then "-r".toList else "--rules".toList]
  | missingInput short => [if short then "-i".toList else "--input".toList]

/-- Whether the first argument is what it is taken for. -/
def Valid : Ending → Prop
  | plain first _ => first.head? ≠ some '-'
  | unknown arg _ =>
    arg.head? = some '-' ∧ arg ∉ optionNames ∧ ¬ Word.scriptOpening <+: arg ∧ ¬ Word.inputOpening <+: arg
  | _ => True

/-- The line to answer that comes without an option. A blank one behind the mark is none. -/
def line? : Ending → Option Text
  | stop rest => if (join [' '] rest).trim = [] then none else some (join [' '] rest)
  | plain first rest => some (join [' '] (first :: rest))
  | _ => none

end Ending

/-- What decides, whatever the settings are. -/
inductive Verdict where
  | help
  | version
  | misuse (m : Misuse)
deriving DecidableEq

def Verdict.request : Verdict → Except Misuse Request
  | help => .ok .help
  | version => .ok .version
  | misuse m => .error m

def Ending.verdict? : Ending → Option Verdict
  | help _ _ => some .help
  | version _ _ => some .version
  | unknown arg _ => some (.misuse (.unknownOption arg))
  | missingPath _ => some (.misuse .missingPath)
  | missingInput _ => some (.misuse .missingInput)
  | _ => none

structure Invocation where
  settings : List Setting
  ending : Ending
  valid : ending.Valid

namespace Invocation

def args (v : Invocation) : List Text := v.settings.flatMap Setting.args ++ v.ending.args

/-- The lines to answer, each with its option or without one. -/
def sources (v : Invocation) : List Text := v.settings.filterMap Setting.line? ++ v.ending.line?.toList

def path? (v : Invocation) : Option Text := (v.settings.filterMap Setting.path?).getLast?

/-- What decides once the scan gets to it, in the order of the arguments: every line to answer after the first
    one, and what ends the options. -/
def deciders (v : Invocation) : List Verdict :=
  v.sources.tail.map (fun _ => .misuse .secondInput) ++ v.ending.verdict?.toList

/-- The first of them decides; the scan gets no further. -/
def verdict? (v : Invocation) : Option Verdict := v.deciders.head?

theorem verdict?_eq (v : Invocation) :
    v.verdict? = if 2 ≤ v.sources.length then some (.misuse .secondInput) else v.ending.verdict? := by
  rw [verdict?, deciders]
  match v.sources with
  | [] => exact Option.head?_toList
  | [_] => exact Option.head?_toList
  | _ :: _ :: lines => exact (if_pos (by simp)).symm

end Invocation

/-! ### Words -/

namespace Word

theorem map_table : (table.map fun entry => entry.1.toList) = optionNames := rfl

theorem ofText_of_mem {name : String} {word : Word} (h : (name, word) ∈ table) : ofText name.toList = word := by
  have hall : ∀ entry ∈ table, ofText entry.1.toList = entry.2 := by decide
  exact hall (name, word) h

/-- One of the two names of an option. -/
theorem ofText_of_mem_of_mem {short long : String} {word : Word} (hshort : (short, word) ∈ table)
    (hlong : (long, word) ∈ table) (b : Bool) : ofText (if b then short.toList else long.toList) = word := by
  cases b with
  | true => exact ofText_of_mem hshort
  | false => exact ofText_of_mem hlong

theorem of_mem_optionNames : ∀ name ∈ optionNames, name.head? = some '-' ∧ '=' ∉ name := by decide

/-- What is no name of an option is told by its beginning. -/
theorem ofText_of_notMem {arg : Text} (h : arg ∉ optionNames) : ofText arg =
    if scriptOpening <+: arg then script (some (dropStarts scriptOpening arg))
    else if inputOpening <+: arg then input (some (dropStarts inputOpening arg))
    else if arg.head? = some '-' then unknown
    else plain := by
  have hfind : (table.find? fun entry => entry.1.toList = arg) = none := by
    refine List.find?_eq_none.mpr fun entry hentry heq => h ?_
    rw [← of_decide_eq_true heq, ← map_table]
    exact List.mem_map_of_mem hentry
  rw [ofText, hfind]

theorem notMem_of_opening {opening : Text} (h : '=' ∈ opening) (rest : Text) : opening ++ rest ∉ optionNames :=
  fun hmem => (of_mem_optionNames _ hmem).2 (List.mem_append_left rest h)

theorem ofText_attachedScript (rest : Text) :
    ofText (scriptOpening ++ rest) = script (some (dropStarts scriptOpening rest)) := by
  have hmark : '=' ∈ scriptOpening := by decide
  rw [ofText_of_notMem (notMem_of_opening hmark rest), if_pos (List.prefix_append _ _),
    dropStarts_append (List.ne_nil_of_mem hmark)]

theorem ofText_attachedInput (rest : Text) :
    ofText (inputOpening ++ rest) = input (some (dropStarts inputOpening rest)) := by
  have hmark : '=' ∈ inputOpening ∧ scriptOpening.length ≤ inputOpening.length ∧ ¬ scriptOpening <+: inputOpening := by
    decide
  have hscript : ¬ scriptOpening <+: inputOpening ++ rest := fun h =>
    hmark.2.2 (List.prefix_of_prefix_length_le h (List.prefix_append inputOpening rest) hmark.2.1)
  rw [ofText_of_notMem (notMem_of_opening hmark.1 rest), if_neg hscript, if_pos (List.prefix_append _ _),
    dropStarts_append (List.ne_nil_of_mem hmark.1)]

theorem ofText_plain {arg : Text} (h : arg.head? ≠ some '-') : ofText arg = plain := by
  have hname : arg ∉ optionNames := fun hmem => h (of_mem_optionNames arg hmem).1
  have hscript : ¬ scriptOpening <+: arg := by
    rintro ⟨rest, rfl⟩
    exact h rfl
  have hinput : ¬ inputOpening <+: arg := by
    rintro ⟨rest, rfl⟩
    exact h rfl
  rw [ofText_of_notMem hname, if_neg hscript, if_neg hinput, if_neg h]

end Word

/-! ### Reading the parts -/

namespace Settings
variable {s : Settings} {colour : Bool} {gs : List Setting} {g : Setting}

/-- The settings with one more option. -/
def add (s : Settings) : Setting → Settings
  | .verbose _ => { s with verbose := true }
  | .colour on => { s with colour := on }
  | .dropUnfilledWildcard => { s with dropUnfilledWildcard := true }
  | .script _ path => { s with script := some path }
  | .input _ line => { s with input := s.input.or (some line) }
  | .attachedScript rest => { s with script := some (dropStarts Word.scriptOpening rest) }
  | .attachedInput rest => { s with input := s.input.or (some (dropStarts Word.inputOpening rest)) }

/-- What options add up to: the first line, the last path and colour, and the flags that occur at all. -/
def total (colour : Bool) (gs : List Setting) : Settings where
  input := (gs.filterMap Setting.line?).head?
  script := (gs.filterMap Setting.path?).getLast?
  verbose := gs.any Setting.isVerbose
  colour := (gs.filterMap Setting.colour?).getLast?.getD colour
  dropUnfilledWildcard := gs.any (· = .dropUnfilledWildcard)

theorem total_concat (colour : Bool) (gs : List Setting) (g : Setting) :
    total colour (gs ++ [g]) = (total colour gs).add g := by
  have hfirst : ((gs ++ [g]).filterMap Setting.line?).head? = (gs.filterMap Setting.line?).head?.or g.line? := by
    rw [List.filterMap_append, List.head?_append]
    cases h : g.line? <;> simp [h]
  have hlast {α : Type} (f : Setting → Option α) :
      ((gs ++ [g]).filterMap f).getLast? = (f g).or (gs.filterMap f).getLast? := by
    rw [List.filterMap_append, List.getLast?_append]
    cases h : f g <;> simp [h]
  unfold total
  rw [hfirst, hlast, hlast, List.any_append, List.any_append]
  cases g <;> simp [add, Setting.line?, Setting.path?, Setting.colour?, Setting.isVerbose]

/-! ### One word -/

section Scan
variable {arg : Text} {args : List Text} {word : Word} {line : Text}

/-- What is done at an argument of this meaning. -/
def follow (s : Settings) (arg : Text) (args : List Text) : Word → Except Misuse Request
  | .help => .ok .help
  | .version => .ok .version
  | .verbose => ({ s with verbose := true } : Settings).scan args
  | .colour on => ({ s with colour := on } : Settings).scan args
  | .dropUnfilledWildcard => ({ s with dropUnfilledWildcard := true } : Settings).scan args
  | .script (some path) => ({ s with script := some path } : Settings).scan args
  | .script none =>
    match args with
    | [] => .error .missingPath
    | path :: args => ({ s with script := some path } : Settings).scan args
  | .input (some line) => s.addInput line >>= fun s => s.scan args
  | .input none =>
    match args with
    | [] => .error .missingInput
    | line :: args => s.addInput line >>= fun s => s.scan args
  | .stop => if (join [' '] args).trim = [] then s.request else s.addInput (join [' '] args) >>= request
  | .unknown => .error (.unknownOption arg)
  | .plain => s.addInput (join [' '] (arg :: args)) >>= request

theorem scan_cons (h : Word.ofText arg = word) : s.scan (arg :: args) = s.follow arg args word := by
  rw [scan.eq_def]
  simp only [h]
  cases word with
  | script path? => cases path? <;> rfl
  | input line? =>
    cases line? with
    | some line => cases hadd : s.addInput line <;> simp only [follow, hadd] <;> rfl
    | none =>
      cases args with
      | nil => rfl
      | cons line args => cases hadd : s.addInput line <;> simp only [follow, hadd] <;> rfl
  | help => rfl
  | version => rfl
  | verbose => rfl
  | colour => rfl
  | dropUnfilledWildcard => rfl
  | stop => rfl
  | unknown => rfl
  | plain => rfl

theorem addInput_bind (s : Settings) (line : Text) (next : Settings → Except Misuse Request) :
    s.addInput line >>= next =
      if s.input.isSome then .error .secondInput else next { s with input := s.input.or (some line) } := by
  cases h : s.input with
  | some first => simp [addInput, h, bind, Except.bind]
  | none => simp [addInput, h, bind, Except.bind]

end Scan

/-! ### One part -/

/-- An option that gives no line is added, and what comes behind it is looked at next. -/
theorem scan_setting {rest : List Text} (h : g.line? = none) : s.scan (g.args ++ rest) = (s.add g).scan rest := by
  cases g with
  | verbose short =>
    have hword : Word.ofText (if short then "-v".toList else "--verbose".toList) = .verbose :=
      Word.ofText_of_mem_of_mem (by simp [Word.table]) (by simp [Word.table]) short
    exact scan_cons hword
  | colour on =>
    have hon : Word.ofText "--color".toList = .colour true := Word.ofText_of_mem (by simp [Word.table])
    have hoff : Word.ofText "--no-color".toList = .colour false := Word.ofText_of_mem (by simp [Word.table])
    cases on with
    | true => exact scan_cons hon
    | false => exact scan_cons hoff
  | dropUnfilledWildcard =>
    have hword : Word.ofText "--drop-unfilled-wildcard".toList = .dropUnfilledWildcard :=
      Word.ofText_of_mem (by simp [Word.table])
    exact scan_cons hword
  | script short path =>
    have hword : Word.ofText (if short then "-r".toList else "--rules".toList) = .script none :=
      Word.ofText_of_mem_of_mem (by simp [Word.table]) (by simp [Word.table]) short
    exact scan_cons hword
  | attachedScript tail => exact scan_cons (Word.ofText_attachedScript tail)
  | input => cases h
  | attachedInput => cases h

theorem scan_line {rest : List Text} {line : Text} (h : g.line? = some line) : s.scan (g.args ++ rest) =
    if s.input.isSome then .error .secondInput else (s.add g).scan rest := by
  cases g with
  | input short line =>
    have hword : Word.ofText (if short then "-i".toList else "--input".toList) = .input none :=
      Word.ofText_of_mem_of_mem (by simp [Word.table]) (by simp [Word.table]) short
    exact (scan_cons hword).trans (addInput_bind s line _)
  | attachedInput tail => exact (scan_cons (Word.ofText_attachedInput tail)).trans (addInput_bind s _ _)
  | verbose => cases h
  | colour => cases h
  | dropUnfilledWildcard => cases h
  | script => cases h
  | attachedScript => cases h

theorem scan_settings (colour : Bool) (gs : List Setting) (rest : List Text) :
    (initial colour).scan (gs.flatMap Setting.args ++ rest) =
      if 2 ≤ (gs.filterMap Setting.line?).length then .error .secondInput else (total colour gs).scan rest := by
  induction gs using List.reverseRecOn generalizing rest with
  | nil => rfl
  | append_singleton gs g ih =>
    have hargs : (gs ++ [g]).flatMap Setting.args ++ rest = gs.flatMap Setting.args ++ (g.args ++ rest) := by simp
    have hinput : (total colour gs).input = (gs.filterMap Setting.line?).head? := rfl
    rw [hargs, ih, total_concat, List.filterMap_append, List.length_append]
    cases hline : g.line? with
    | none => simp [scan_setting hline, hline]
    | some line =>
      rw [scan_line hline, hinput]
      -- One more line is the second one where there is a first.
      cases gs.filterMap Setting.line? <;> simp [hline]

theorem request_eq_talk_iff {s st : Settings} :
    s.request = .ok (.talk st) ↔ s = st ∧ ∀ line ∈ s.input, line.trim ≠ [] := by
  unfold request
  cases h : s.input with
  | none => simp
  | some line =>
    by_cases hline : line.trim = []
    · simp [hline]
    · simp [hline]

/-- What comes behind the options decides, or gives the second line, or leaves it to the settings. -/
theorem scan_ending (s : Settings) {e : Ending} (he : e.Valid) : s.scan e.args =
    match e.verdict? with
    | some verdict => verdict.request
    | none =>
      if s.input.isSome ∧ e.line?.isSome then .error .secondInput
      else ({ s with input := s.input.or e.line? } : Settings).request := by
  cases e with
  | nothing => simp [Ending.args, Ending.verdict?, Ending.line?, scan]
  | stop rest =>
    have hword : Word.ofText "--".toList = .stop := Word.ofText_of_mem (by simp [Word.table])
    refine (scan_cons hword).trans ?_
    by_cases hblank : (join [' '] rest).trim = []
    · simp [follow, Ending.verdict?, Ending.line?, hblank]
    · simp [follow, Ending.verdict?, Ending.line?, hblank, addInput_bind]
  | plain first rest =>
    refine (scan_cons (Word.ofText_plain he)).trans ?_
    simp [follow, Ending.verdict?, Ending.line?, addInput_bind]
  | help short rest =>
    have hword : Word.ofText (if short then "-h".toList else "--help".toList) = .help :=
      Word.ofText_of_mem_of_mem (by simp [Word.table]) (by simp [Word.table]) short
    exact scan_cons hword
  | version short rest =>
    have hword : Word.ofText (if short then "-V".toList else "--version".toList) = .version :=
      Word.ofText_of_mem_of_mem (by simp [Word.table]) (by simp [Word.table]) short
    exact scan_cons hword
  | unknown arg rest =>
    obtain ⟨hdash, hname, hscript, hinput⟩ := he
    have hword : Word.ofText arg = .unknown := by
      rw [Word.ofText_of_notMem hname, if_neg hscript, if_neg hinput, if_pos hdash]
    exact scan_cons hword
  | missingPath short =>
    have hword : Word.ofText (if short then "-r".toList else "--rules".toList) = .script none :=
      Word.ofText_of_mem_of_mem (by simp [Word.table]) (by simp [Word.table]) short
    exact scan_cons hword
  | missingInput short =>
    have hword : Word.ofText (if short then "-i".toList else "--input".toList) = .input none :=
      Word.ofText_of_mem_of_mem (by simp [Word.table]) (by simp [Word.table]) short
    exact scan_cons hword

end Settings

/-- What decides gives no line. -/
theorem Ending.line?_of_verdict? {e : Ending} {verdict : Verdict} (h : e.verdict? = some verdict) : e.line? = none := by
  cases e with
  | nothing => cases h
  | stop => cases h
  | plain => cases h
  | help => rfl
  | version => rfl
  | unknown => rfl
  | missingPath => rfl
  | missingInput => rfl

namespace Invocation
variable {v : Invocation} {colour : Bool} {st : Settings} {line : Text}

/-- The settings that all parts add up to. -/
def total (colour : Bool) (v : Invocation) : Settings :=
  { Settings.total colour v.settings with input := v.sources.head? }

theorem ofArguments_args (colour : Bool) (v : Invocation) : Request.ofArguments colour v.args =
    match v.verdict? with
    | some verdict => verdict.request
    | none => (v.total colour).request := by
  have hinput : (Settings.total colour v.settings).input = (v.settings.filterMap Setting.line?).head? := rfl
  rw [Request.ofArguments, args, Settings.scan_settings, Settings.scan_ending _ v.valid, verdict?_eq, total, sources,
    List.length_append, hinput]
  by_cases hlines : 2 ≤ (v.settings.filterMap Setting.line?).length
  · rw [if_pos hlines, if_pos (Nat.le_add_right_of_le hlines)]
    rfl
  rw [if_neg hlines]
  cases hverdict : v.ending.verdict? with
  | some verdict => simp [Ending.line?_of_verdict? hverdict, hlines]
  | none =>
    cases hline : v.ending.line? with
    | none => simp [hlines]
    | some line =>
      cases v.settings.filterMap Setting.line? <;> simp [Verdict.request]

theorem ofArguments_eq_talk_iff : Request.ofArguments colour v.args = .ok (.talk st) ↔
    v.verdict? = none ∧ v.total colour = st ∧ ∀ line ∈ v.sources.head?, line.trim ≠ [] := by
  rw [ofArguments_args]
  cases hverdict : v.verdict? with
  | some verdict => cases verdict <;> simp [Verdict.request]
  | none => simp [Settings.request_eq_talk_iff, total]

theorem ofArguments_eq_talk (colour : Bool) (h : v.verdict? = none) (hfull : ∀ line ∈ v.sources, line.trim ≠ []) :
    Request.ofArguments colour v.args = .ok (.talk (v.total colour)) :=
  ofArguments_eq_talk_iff.mpr ⟨h, rfl, fun line hline => hfull line (List.mem_of_head? hline)⟩

/-- Where nothing decides, there is one line to answer at most. -/
theorem input_total (colour : Bool) (h : v.verdict? = none) (hline : line ∈ v.sources) :
    (v.total colour).input = some line := by
  rw [verdict?_eq] at h
  show v.sources.head? = some line
  match hsources : v.sources with
  | [] => simp [hsources] at hline
  | [_] =>
    rw [hsources] at hline
    rw [List.mem_singleton.mp hline, List.head?_cons]
  | _ :: _ :: _ => simp [hsources] at h

/-- The list with one more option in front. -/
def cons (g : Setting) (v : Invocation) : Invocation := { v with settings := g :: v.settings }

theorem args_cons (g : Setting) (v : Invocation) : (v.cons g).args = g.args ++ v.args := by
  simp [args, cons]

theorem sources_cons {g : Setting} (h : g.line? = none) (v : Invocation) : (v.cons g).sources = v.sources := by
  simp [sources, cons, h]

theorem total_cons_colour (colour on : Bool) (v : Invocation) : (v.cons (.colour on)).total colour =
    { v.total colour with colour := ((v.cons (.colour on)).total colour).colour } := by
  rw [total, total, sources_cons rfl]
  simp [Settings.total, cons, Setting.path?, Setting.isVerbose]

theorem total_cons_verbose (colour short : Bool) (v : Invocation) :
    (v.cons (.verbose short)).total colour = { v.total colour with verbose := true } := by
  rw [total, total, sources_cons rfl]
  simp [Settings.total, cons, Setting.path?, Setting.colour?, Setting.isVerbose]

theorem exists_cons (g : Setting) {rest : List Text} (h : ∃ v : Invocation, v.args = rest) :
    ∃ v : Invocation, v.args = g.args ++ rest := by
  obtain ⟨v, rfl⟩ := h
  exact ⟨v.cons g, args_cons g v⟩

/-- Every list of arguments has its parts. -/
theorem exists_args : ∀ args : List Text, ∃ v : Invocation, v.args = args
  | [] => ⟨⟨[], .nothing, trivial⟩, rfl⟩
  | arg :: args => by
    by_cases hname : arg ∈ optionNames
    · simp only [optionNames, List.map_cons, List.map_nil, List.mem_cons, List.not_mem_nil, or_false,
        -String.reduceToList] at hname
      rcases hname with rfl | rfl | rfl | rfl | rfl | rfl | rfl | rfl | rfl | rfl | rfl | rfl | rfl | rfl
      · exact ⟨⟨[], .help true args, trivial⟩, rfl⟩
      · exact ⟨⟨[], .help false args, trivial⟩, rfl⟩
      · exact ⟨⟨[], .version true args, trivial⟩, rfl⟩
      · exact ⟨⟨[], .version false args, trivial⟩, rfl⟩
      · exact exists_cons (.verbose true) (exists_args args)
      · exact exists_cons (.verbose false) (exists_args args)
      · exact exists_cons (.colour true) (exists_args args)
      · exact exists_cons (.colour false) (exists_args args)
      · exact exists_cons .dropUnfilledWildcard (exists_args args)
      · match args with
        | [] => exact ⟨⟨[], .missingPath true, trivial⟩, rfl⟩
        | path :: args => exact exists_cons (.script true path) (exists_args args)
      · match args with
        | [] => exact ⟨⟨[], .missingPath false, trivial⟩, rfl⟩
        | path :: args => exact exists_cons (.script false path) (exists_args args)
      · match args with
        | [] => exact ⟨⟨[], .missingInput true, trivial⟩, rfl⟩
        | line :: args => exact exists_cons (.input true line) (exists_args args)
      · match args with
        | [] => exact ⟨⟨[], .missingInput false, trivial⟩, rfl⟩
        | line :: args => exact exists_cons (.input false line) (exists_args args)
      · exact ⟨⟨[], .stop args, trivial⟩, rfl⟩
    by_cases hscript : Word.scriptOpening <+: arg
    · obtain ⟨rest, rfl⟩ := hscript
      exact exists_cons (.attachedScript rest) (exists_args args)
    by_cases hinput : Word.inputOpening <+: arg
    · obtain ⟨rest, rfl⟩ := hinput
      exact exists_cons (.attachedInput rest) (exists_args args)
    by_cases hdash : arg.head? = some '-'
    · exact ⟨⟨[], .unknown arg args, hdash, hname, hscript, hinput⟩, rfl⟩
    · exact ⟨⟨[], .plain arg args, hdash⟩, rfl⟩

/-- An option that gives no line, in front of arguments that are understood, is understood with them. -/
theorem ofArguments_cons {g : Setting} (hg : g.line? = none) (h : Request.ofArguments colour v.args = .ok (.talk st)) :
    Request.ofArguments colour (g.args ++ v.args) = .ok (.talk ((v.cons g).total colour)) := by
  obtain ⟨hverdict, -, hfull⟩ := ofArguments_eq_talk_iff.mp h
  rw [← args_cons]
  refine ofArguments_eq_talk_iff.mpr ⟨?_, rfl, by rwa [sources_cons hg]⟩
  rw [verdict?_eq] at hverdict
  rw [verdict?_eq, sources_cons hg]
  exact hverdict

end Invocation

end Command

end Dialogue
