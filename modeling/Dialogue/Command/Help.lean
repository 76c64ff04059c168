import Dialogue.Text.Basic

/-! # Fixed texts of the command line -/

namespace Dialogue.Command

def versionLine : Text := "doctor 0.1.0".toList

def greeting : Text := "HELLO, WHAT IS YOUR PROBLEM?".toList

def helpLines : List String := [
  "doctor 0.1.0",
  "",
  "Rule-based conversational responder.",
  "",
  "Usage:",
  "  doctor [OPTIONS]                    Converse line by line on stdin.",
  "  doctor [OPTIONS] [--] <input...>    Answer a single line and exit.",
  "  doctor [OPTIONS] --input <text>",
  "",
  "Options:",
  "  -i, --input <text>           Answer this line instead of reading stdin.",
  "  -r, --rules <path>           Rule file to load. Default: the bundled rule set.",
  "  -v, --verbose                Print how each reply was built.",
  "  --drop-unfilled-wildcard     Remove a template's '*' when there is nothing",
  "                               to splice into it.",
  "  --color                      Force ANSI color output.",
  "  --no-color                   Disable ANSI color output.",
  "  -h, --help                   Show this help message.",
  "  -V, --version                Print version information.",
  "",
  "Environment:",
  "  RUST_LOG                     Log filter, e.g. doctor=debug. Default: warn.",
  "",
  "Exit codes:",
  "  0  Success.",
  "  1  Rule file could not be loaded, or I/O failed.",
  "  2  Invalid arguments."]

def helpText : Text := Text.unlines (helpLines.map String.toList)

end Dialogue.Command
