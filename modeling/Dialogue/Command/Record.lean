import Dialogue.Conversation.Answer
import Dialogue.Script.Notice

/-! # Records

Beside what it prints, a run puts on record how it goes. What becomes of its records is up to the sink that the
run is given: it may leave some out, and write the others to the standard error with the time and in colour. -/

namespace Dialogue.Command

inductive Level where
  | warning
  | info
  | debug
deriving DecidableEq, Repr

inductive Record where
  /-- The script file under this path is about to be opened. -/
  | opening (path : Text)
  | notice (n : Script.Notice)
  | event (e : Event)
deriving DecidableEq, Repr

namespace Record

def level : Record → Level
  | opening _ => .debug
  | notice (.loaded ..) => .info
  | notice _ => .warning
  | event _ => .debug

def message : Record → Text
  | opening _ => "opening rule file".toList
  | notice n => n.message
  | event e => e.message

end Record

/-- What is written of the records of a run, in their order. -/
structure Sink where
  text : List Record → Text
  /-- Nothing is written where nothing is on record. -/
  text_nil : text [] = []

namespace Sink

/-- The sink that writes nothing. -/
def off : Sink := ⟨fun _ => [], rfl⟩

/-- A sink for warnings alone. The program has this one unless it is asked for another. -/
def warnings (sink : Sink) : Sink where
  text records := sink.text (records.filter (·.level = .warning))
  text_nil := sink.text_nil

end Sink

end Dialogue.Command
