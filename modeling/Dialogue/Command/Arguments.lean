import Dialogue.Command.Help
import Dialogue.Text.Blank
import Dialogue.Text.Occurrence

/-! # Arguments

Arguments are read from left to right. The first request for help or for the version, or the first
misuse, decides; what follows it is not looked at. -/

namespace Dialogue.Command
open Text

/-- What a conversation is to be held with. -/
structure Settings where
  /-- A single line to answer. -/
  input : Option Text
  script : Option Text
  verbose : Bool
  colour : Bool
  dropUnfilledWildcard : Bool
deriving DecidableEq, Repr

/-- The settings before the first argument. -/
def Settings.initial (colour : Bool) : Settings := ⟨none, none, false, colour, false⟩

inductive Request where
  | help
  | version
  | talk (settings : Settings)
deriving DecidableEq, Repr

inductive Misuse where
  | missingPath
  | missingInput
  | secondInput
  | unknownOption (arg : Text)
  | emptyInput
deriving DecidableEq, Repr

def Misuse.message : Misuse → Text
  | .missingPath => "error: --rules expects a path".toList
  | .missingInput => "error: --input expects a value".toList
  | .secondInput => "error: input provided multiple times".toList
  | .unknownOption arg => "error: unknown option '".toList ++ arg ++ ['\'']
  | .emptyInput => "error: empty input\n\n".toList ++ helpText

/-- What an argument means where an option may stand. -/
inductive Word where
  | help
  | version
  | verbose
  | colour (on : Bool)
  | dropUnfilledWildcard
  /-- The path of the script; without one, the next argument is the path. -/
  | script (path : Option Text)
  /-- The line to answer; without one, the next argument is the line. -/
  | input (line : Option Text)
  /-- No options follow. -/
  | stop
  | unknown
  /-- The first word of a line to answer. -/
  | plain
deriving DecidableEq, Repr

namespace Word

def table : List (String × Word) := [
  ("-h", help), ("--help", help), ("-V", version), ("--version", version),
  ("-v", verbose), ("--verbose", verbose), ("--color", colour true), ("--no-color", colour false),
  ("--drop-unfilled-wildcard", dropUnfilledWildcard),
  ("-r", script none), ("--rules", script none), ("-i", input none), ("--input", input none), ("--", stop)]

def scriptOpening : Text := "--rules=".toList

def inputOpening : Text := "--input=".toList

def ofText (arg : Text) : Word :=
  match table.find? fun entry => entry.1.toList = arg with
  | some (_, word) => word
  | none =>
    if scriptOpening <+: arg then script (some (dropStarts scriptOpening arg))
    else if inputOpening <+: arg then input (some (dropStarts inputOpening arg))
    else if arg.head? = some '-' then unknown
    else plain

end Word

namespace Settings

def addInput (s : Settings) (line : Text) : Except Misuse Settings :=
  match s.input with
  | some _ => .error .secondInput
  | none => .ok { s with input := some line }

def request (s : Settings) : Except Misuse Request :=
  match s.input with
  | some line => if line.trim = [] then .error .emptyInput else .ok (.talk s)
  | none => .ok (.talk s)

def scan (s : Settings) : List Text → Except Misuse Request
  | [] => s.request
  | arg :: args =>
    match Word.ofText arg with
    | .help => .ok .help
    | .version => .ok .version
    | .verbose => scan { s with verbose := true } args
    | .colour on => scan { s with colour := on } args
    | .dropUnfilledWildcard => scan { s with dropUnfilledWildcard := true } args
    | .script (some path) => scan { s with script := some path } args
    | .script none =>
      match args with
      | [] => .error .missingPath
      | path :: args => scan { s with script := some path } args
    | .input (some line) =>
      match s.addInput line with
      | .ok s => scan s args
      | .error e => .error e
    | .input none =>
      match args with
      | [] => .error .missingInput
      | line :: args =>
        match s.addInput line with
        | .ok s => scan s args
        | .error e => .error e
    | .stop =>
      let line := join [' '] args
      if line.trim = [] then s.request else s.addInput line >>= request
    | .unknown => .error (.unknownOption arg)
    | .plain => s.addInput (join [' '] (arg :: args)) >>= request

end Settings

/-- The request of an argument list. `colour` tells whether there is colour without an option. -/
def Request.ofArguments (colour : Bool) (args : List Text) : Except Misuse Request :=
  (Settings.initial colour).scan args

end Dialogue.Command
