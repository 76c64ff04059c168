import Dialogue.Command.Arguments
import Dialogue.Command.Record
import Dialogue.Conversation.Basic
import Dialogue.Report.Basic
import Dialogue.Script.Classic

/-! # Runs

A run of the program is a function of its arguments, its files, its standard input and the sink of its
records. -/

namespace Dialogue.Command
open Text

structure Outcome where
  code : Nat
  stdout : Text
  stderr : Text
deriving DecidableEq, Repr

/-- The outcome with more written before it. -/
def Outcome.after (o : Outcome) (written : Text) : Outcome := { o with stdout := written ++ o.stdout }

/-- What a run comes to, with what it puts on record before it ends. -/
structure Proceedings where
  records : List Record
  outcome : Outcome
deriving DecidableEq, Repr

namespace Proceedings

/-- The proceedings with more put on record and written before them. -/
def after (p : Proceedings) (records : List Record) (written : Text) : Proceedings :=
  ⟨records ++ p.records, p.outcome.after written⟩

/-- The outcome with what the sink writes of the records. A run's own errors come after them. -/
def write (p : Proceedings) (sink : Sink) : Outcome :=
  { p.outcome with stderr := sink.text p.records ++ p.outcome.stderr }

end Proceedings

inductive Failure where
  | input (reason : Script.Unreadable)
  /-- The conversation has no answer to a line. The program has no such error, and neither its text nor its code
      is ever shown: every line has an answer over a script that was read. -/
  | noReply
deriving DecidableEq, Repr

def Failure.message : Failure → Text
  | .input reason => reason.message
  | .noReply => "no reply to this line".toList

def Failure.outcome (f : Failure) : Outcome := ⟨1, [], unlines ["error: ".toList ++ f.message]⟩

/-- Which standard streams are terminals. -/
structure Terminals where
  stdin : Bool
  stdout : Bool
deriving DecidableEq, Repr

def Terminals.pipes : Terminals := ⟨false, false⟩

structure Exchange where
  line : Text
  answer : Answer
deriving DecidableEq, Repr

def Exchange.record (e : Exchange) : Record := .event e.answer.event

/-- A conversation and how it is shown. -/
structure Console where
  conversation : Conversation
  verbose : Bool
  colour : Bool
  /-- Whether lines of input are shown with their answers. -/
  echo : Bool

namespace Console

def answer (k : Console) (line : Text) : Except Failure (Console × Answer) :=
  match k.conversation.answer? line with
  | some (conversation, a) => .ok ({ k with conversation }, a)
  | none => .error .noReply

/-- A line of input less all line ends after it. -/
def strip (line : Text) : Text := dropEnd (fun c => c = '\r' || c = '\n') line

/-- Answers a piece of input, unless its line is empty. -/
def react (k : Console) (piece : Bytes) : Except Failure (Console × Option Exchange) :=
  match piece.text? with
  | none => .error (.input .notUtf8)
  | some raw =>
    let line := strip raw
    if line = [] then .ok (k, none)
    else
      match k.answer line with
      | .ok (k', a) => .ok (k', some ⟨line, a⟩)
      | .error f => .error f

/-- What is shown of an answer. `took` is the time that it took. -/
def reply (k : Console) (took : Text) (a : Answer) : Text :=
  unlines (if k.verbose then Report.lines k.colour took a else [a.reply])

/-- What is shown of a piece of input and its answer. -/
def transcript (k : Console) (took : Text) : Option Exchange → Text
  | none => []
  | some e => (if k.echo then unlines ['>' :: e.line] else []) ++ k.reply took e.answer

def once (k : Console) (took line : Text) : Proceedings :=
  match k.answer line with
  | .ok (_, a) => ⟨[(Exchange.mk line a).record], ⟨0, k.reply took a, []⟩⟩
  | .error f => ⟨[], f.outcome⟩

def converse (k : Console) (took : Text) : List Bytes → Proceedings
  | [] => ⟨[], ⟨0, [], []⟩⟩
  | piece :: pieces =>
    match k.react piece with
    | .ok (k', e) => (k'.converse took pieces).after (e.toList.map Exchange.record) (k.transcript took e)
    | .error f => ⟨[], f.outcome⟩

end Console

namespace Settings

/-- Reads the script file, or the classic script where there is no path. -/
def read (s : Settings) (files : Text → File) : Script.Reading :=
  match s.script with
  | some path => Script.ofFile Script.fallbackPhrase (files path)
  | none => Script.classic

/-- What the reading puts on record. -/
def records (s : Settings) (files : Text → File) : List Record :=
  s.script.toList.map .opening ++ (s.read files).notices.map .notice

def complaint (s : Settings) (d : Script.Defect) : Text :=
  "error: ".toList ++ (match s.script with | some path => path ++ ": ".toList | none => []) ++ d.message

def console (s : Settings) (terminals : Terminals) (script : Script) : Console where
  conversation := .start script { Options.classic with dropUnfilledWildcard := s.dropUnfilledWildcard }
  verbose := s.verbose
  colour := s.colour
  echo := !terminals.stdin

end Settings

/-- What a run comes to before any input is read, and what is on record by then. -/
inductive Plan where
  | finished (proceedings : Proceedings)
  | once (records : List Record) (console : Console) (line : Text)
  | converse (records : List Record) (console : Console)

namespace Plan

def ofArguments (terminals : Terminals) (files : Text → File) (args : List Text) : Plan :=
  match Request.ofArguments terminals.stdout args with
  | .error e => .finished ⟨[], ⟨2, [], unlines [e.message]⟩⟩
  | .ok .help => .finished ⟨[], ⟨0, unlines [helpText], []⟩⟩
  | .ok .version => .finished ⟨[], ⟨0, unlines [versionLine], []⟩⟩
  | .ok (.talk s) =>
    match (s.read files).result with
    | .error d => .finished ⟨s.records files, ⟨1, [], unlines [s.complaint d]⟩⟩
    | .ok script =>
      match s.input with
      | some line => .once (s.records files) (s.console terminals script) line
      | none => .converse (s.records files) (s.console terminals script)

def proceed (took : Text) (stdin : Bytes) : Plan → Proceedings
  | finished proceedings => proceedings
  | once records console line => (console.once took line).after records []
  | converse records console => (console.converse took stdin.pieces).after records (unlines [greeting])

end Plan

/-- A run whose streams are pipes. Every answer takes the time `took`. The records go to `sink`, and without one
    nothing is written of them. -/
def run (took : Text) (files : Text → File) (stdin : Bytes) (args : List Text) (sink : Sink := .off) : Outcome :=
  ((Plan.ofArguments .pipes files args).proceed took stdin).write sink

end Dialogue.Command
