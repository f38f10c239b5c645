/-
  Lox.Main
  ────────────────────────────────
  **THE COMMAND.**

  `file <path>` runs a file, `repl` reads lines at a prompt.  This module only
  reads bytes, writes text and looks at the clock; what is written and with
  which status the command ends is decided elsewhere.
-/
import Lox.Prompt
import Std.Time.DateTime.Timestamp

namespace Lox

/-- A bound on nesting and repetition that no run lives to see. -/
def runBound : Nat := Nat.pow 2 62

/-- The clock from now on; readings are a microsecond apart. -/
def clockFromNow : IO (Nat → Float) := do
  let now ← Std.Time.Timestamp.now
  let start := Float.ofInt now.toNanosecondsSinceUnixEpoch.val / 1e9
  return fun reading => start + reading.toFloat / 1e6

/-- Write what a command has written, and give its exit status. -/
def Result.emit (r : Result) : IO UInt32 := do
  IO.print r.output
  IO.eprint r.errors
  return r.exit.toUInt32

/-- Write what a session has written since the last time. -/
def Session.emit (s : Session) : IO Session := do
  let (output, outputChannel) := s.machine.output.collect
  let (errors, errorChannel) := s.errors.collect
  IO.print output
  IO.eprint errors
  return ⟨{ s.machine with output := outputChannel }, errorChannel⟩

/-- The bytes of the next line that is typed, with its line end; none of them at
the end of the input. -/
partial def nextLine (input : IO.FS.Stream) (line : Array UInt8) : IO (List UInt8) := do
  match (← input.read 1).toList with
  | [] => return line.toList
  | byte :: _ =>
    if byte = 10 then return (line.push byte).toList
    else nextLine input (line.push byte)

/-- Read lines at the prompt and answer them until they end. -/
partial def converse (host : Host) (s : Session) : IO UInt32 := do
  let s ← (s.say "> ").emit
  (← IO.getStdout).flush
  match ← nextLine (← IO.getStdin) #[] with
  | [] => ((s.say "\n").result .success).emit
  | line =>
    match s.answer host runBound (textOf? line) with
    | .goOn s => converse host s
    | .stop s ending => (s.result ending).emit

/-- The bytes of a file that can be read. -/
def readFile (path : String) : IO (Option (List UInt8)) := do
  try
    return some (← IO.FS.readBinFile path).toList
  catch _ => return none

end Lox

/-- Run the command. -/
def main (args : List String) : IO UInt32 := do
  let host := Lox.Host.standard (← Lox.clockFromNow)
  match Lox.Mode.ofArguments? args with
  | some (.file path) =>
    let bytes ← Lox.readFile path
    (Lox.fileResult host Lox.runBound path (bytes.bind Lox.textOf?)).emit
  | some .prompt => Lox.converse host (Lox.Session.fresh host)
  | none =>
    IO.eprintln "usage: file <path> | repl"
    return 2
