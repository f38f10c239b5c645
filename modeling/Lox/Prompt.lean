/-
  Lox.Prompt
  ────────────────────────────────
  **THE PROGRAM AS A COMMAND.**

  The command runs one file, or reads lines at a prompt and runs each of them in
  one session.  Errors of a line are reported and the session goes on; only a
  broken host ends it early.  What the command writes and its exit status are
  given as values here; reading files and the terminal is left to the caller.
-/
import Lox.Session

namespace Lox

/-! ## §1. The command line. -/

/-- What the command is asked to do. -/
inductive Mode where
  /-- Run the file at a path. -/
  | file (path : String)
  /-- Read lines at a prompt. -/
  | prompt
  deriving Repr, DecidableEq

/-- Whether an argument is an option rather than a value. -/
def isOption (argument : String) : Bool := argument.startsWith "-" && argument ≠ "-"

/-- What the command and its values ask for. There are no options, and one `--`
says that only values follow. -/
def Mode.ofCommand? : List String → Option Mode
  | ["repl"] | ["repl", "--"] => some .prompt
  | ["file", "--", path] => some (.file path)
  | ["file", path] | ["file", path, "--"] => if isOption path then none else some (.file path)
  | _ => none

/-- What the arguments ask for, if they are understood. A `--` may stand before
the command as well. -/
def Mode.ofArguments? : List String → Option Mode
  | "--" :: command => ofCommand? command
  | command => ofCommand? command

/-! ## §2. Files. -/

/-- What the command has written, and its exit status. -/
structure Result where
  output : String
  errors : String
  exit : Nat
  deriving Repr

/-- The result of a session with its ending. An error of the host is written
out; all other errors have been reported during the run. -/
def Session.result (s : Session) : Ending → Result
  | .success => ⟨s.machine.output.text, s.errors.text, 0⟩
  | .error e =>
    ⟨s.machine.output.text, s.errors.text ++ (if e.isHost then e.text ++ "\n" else ""), e.exitCode⟩
  | .exhausted => ⟨s.machine.output.text, s.errors.text, 70⟩

/-- A session that writes without limits. -/
def Session.fresh (host : Host) : Session := .start host .unlimited .unlimited

/-- Run the file at a path; its text is missing if it cannot be read. -/
def fileResult (host : Host) (bound : Nat) (path : String) (source : Option String) : Result :=
  let s := Session.fresh host
  match source with
  | some source =>
    let (ending, s) := s.run host bound source
    s.result ending
  | none => s.result (.error (.host ("Failed open source file " ++ path)))

/-! ## §3. The prompt. -/

/-- Write a text to the output of a session. -/
def Session.say (s : Session) (text : String) : Session :=
  { s with machine := { s.machine with output := (s.machine.output.writeAll [text]).2 } }

/-- What the prompt does after a line: go on with the session, or end. -/
inductive Reply where
  | goOn (s : Session)
  | stop (s : Session) (ending : Ending)

/-- Answer one line at the prompt; it is missing if it is no text. -/
def Session.answer (host : Host) (bound : Nat) (s : Session) (line : Option String) : Reply :=
  match line with
  | none => .stop s (.error (.host "Failed read line"))
  | some line =>
    match s.run host bound line with
    | (.success, s) => .goOn s
    | (.error (.host text), s) => .stop s (.error (.host text))
    | (.error _, s) => .goOn s
    | (.exhausted, s) => .stop s .exhausted

/-- Ask for lines and answer them until they end. -/
def Session.converse (host : Host) (bound : Nat) (s : Session) : List (Option String) → Result
  | [] => ((s.say "> ").say "\n").result .success
  | line :: lines =>
    match (s.say "> ").answer host bound line with
    | .goOn s => s.converse host bound lines
    | .stop s ending => s.result ending

/-! ## §4. Bytes. -/

/-- Cut bytes after every line end. -/
def linesOf : List UInt8 → List (List UInt8)
  | [] => []
  | b :: bs =>
    if b = 10 then [b] :: linesOf bs
    else match linesOf bs with
      | [] => [[b]]
      | line :: lines => (b :: line) :: lines

/-- The text that bytes encode, if they encode one. -/
def textOf? (bytes : List UInt8) : Option String := String.fromUTF8? ⟨bytes.toArray⟩

/-- **Run the command** on what the arguments ask for. `read` gives the bytes of
a file that can be read, and `input` is all that is typed at the prompt. -/
def Mode.run (host : Host) (bound : Nat) (read : String → Option (List UInt8))
    (input : List UInt8) : Mode → Result
  | file path => fileResult host bound path ((read path).bind textOf?)
  | prompt => (Session.fresh host).converse host bound ((linesOf input).map textOf?)

end Lox
