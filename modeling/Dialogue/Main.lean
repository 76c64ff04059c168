import Dialogue.Command.Run

/-! # The program

Reads files and input, and prints what runs come to and the warnings of their records. -/

namespace Dialogue.Command

/-- The bytes under a path, or why there are none. -/
def readFile (path : Text) : IO File := do
  try return .contents (← IO.FS.readBinFile (String.ofList path)).toList
  catch
    | .noFileOrDirectory .. => return .unreadable .notFound
    | .inappropriateType .. => return .unreadable .isDirectory
    | e => return .unreadable (.other (toString e).toList)

/-- The bytes up to and with the next line feed; none at the end of the input. -/
partial def readPiece (input : IO.FS.Stream) (read : Array UInt8) : IO Bytes := do
  match (← input.read 1).toList with
  | [] => return read.toList
  | b :: _ => if b = 10 then return (read.push b).toList else readPiece input (read.push b)

def write (t : Text) : IO Unit := do
  let output ← IO.getStdout
  output.putStr (String.ofList t)
  output.flush

/-- What is told of a warning beside its message. -/
def Record.details : Record → Text
  | .notice (.duplicateKeyword line keyword) =>
    " line=".toList ++ Text.ofNat line ++ " keyword=\"".toList ++ keyword ++ ['"']
  | .notice (.repliesWithoutKeywords line replies) =>
    " line=".toList ++ Text.ofNat line ++ " replies=".toList ++ Text.ofNat replies
  | _ => []

/-- The sink of the program: a line for each warning. -/
def standardSink : Sink := Sink.warnings ⟨fun records =>
  Text.unlines (records.map fun r => "WARN ".toList ++ r.message ++ r.details), rfl⟩

def complete (p : Proceedings) : IO UInt32 := do
  let o := p.write standardSink
  write o.stdout
  IO.eprint (String.ofList o.stderr)
  return o.code.toUInt32

/-- The time since a moment, in nanoseconds. -/
def since (start : Nat) : IO Text := do return Text.ofNat ((← IO.monoNanosNow) - start) ++ "ns".toList

partial def serve (input : IO.FS.Stream) (k : Console) : IO UInt32 := do
  if !k.echo then write "> ".toList
  let piece ← readPiece input #[]
  if piece.isEmpty then return 0
  let start ← IO.monoNanosNow
  match k.react piece with
  | .error f => complete ⟨[], f.outcome⟩
  | .ok (k', e) =>
    write (k.transcript (← since start) e)
    IO.eprint (String.ofList (standardSink.text (e.toList.map Exchange.record)))
    serve input k'

def begin (args : List Text) : IO UInt32 := do
  let input ← IO.getStdin
  let terminals : Terminals := ⟨← input.isTty, ← (← IO.getStdout).isTty⟩
  let file ← match Request.ofArguments terminals.stdout args with
    | .ok (.talk { script := some path, .. }) => readFile path
    | _ => pure (.unreadable .notFound)
  match Plan.ofArguments terminals (fun _ => file) args with
  | .finished p => complete p
  | .once records k line =>
    let start ← IO.monoNanosNow
    match k.answer line with
    | .error f => complete ⟨records, f.outcome⟩
    | .ok (_, a) => complete ⟨records ++ [(Exchange.mk line a).record], ⟨0, k.reply (← since start) a, []⟩⟩
  | .converse records k =>
    IO.eprint (String.ofList (standardSink.text records))
    write (Text.unlines [greeting])
    serve input k

end Dialogue.Command

def main (args : List String) : IO UInt32 := Dialogue.Command.begin (args.map String.toList)
