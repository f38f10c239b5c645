/-
  Lox.Session
  ────────────────────────────────
  **RUNNING SOURCES ONE AFTER THE OTHER.**

  A session keeps its machine, so what one run binds is there for the next.  A
  run takes a source through all stages: scan it, read the program, expand its
  pipes, and execute it only if no fault has been found.  Whatever was reported
  on the way is written to the error channel before the run is over.
-/
import Lox.Eval
import Lox.Journal
import Lox.Pipe.Expand
import Lox.Token.Scanner
import Lox.Tree.Parse

namespace Lox

/-! ## §1. How a run can fail. -/

/-- Why a run did not succeed. -/
inductive RunError where
  /-- The host is broken. -/
  | host (text : String)
  /-- The text has faults. -/
  | scan (count : Nat)
  /-- The grammar has been violated. -/
  | grammar (count : Nat)
  /-- The run broke off. -/
  | runtime (failure : Failure)
  deriving Repr, DecidableEq

namespace RunError

/-- The text of a run's error. -/
def text : RunError → String
  | host text => "CompilerInternalError: " ++ text
  | scan count => "Generated " ++ toString count ++ " scanner errors"
  | grammar count => "Generated " ++ toString count ++ " parser errors"
  | runtime failure => "Runtime error:\n" ++ failure.text

/-- The exit status: 65 for a bad program, 70 for one that went wrong, 74 for a
broken host. -/
def exitCode : RunError → Nat
  | scan _ | grammar _ => 65
  | runtime (.runtime _) => 70
  | runtime (.host _) | host _ => 74

/-- Whether the host is to blame before the program ran or while its errors
were written. -/
def isHost : RunError → Bool
  | host _ => true
  | _ => false

/-- The error of a run that one fault of the grammar ends. -/
def ofSyntaxFault (_ : SyntaxFault) : RunError := grammar 1

end RunError

/-- How a run ends. -/
inductive Ending where
  | success
  | error (e : RunError)
  /-- At the bound on nesting and repetition. -/
  | exhausted
  deriving Repr, DecidableEq

/-! ## §2. From source to program. -/

/-- Expand the pipes of a draft. The faults found then come behind the others. -/
def prepare (draft : Draft) : Draft :=
  let expanded := expandPipes draft.statements
  ⟨expanded.statements, draft.faults ++ expanded.faults⟩

/-- What compiling a source comes to: what has been reported, and the program or
why there is none. -/
structure Compiled where
  journal : Journal
  program : Except RunError (List Stmt)

/-- A journal with the faults of a draft. -/
def Draft.journal (draft : Draft) : Journal :=
  Journal.empty.reportAll (draft.faults.map .grammar)

/-- Take the outcome of reading to a program. There is one only if nothing is
reported. -/
def Compiled.ofReading : Step (List Stmt) → Compiled
  | .broken text c => ⟨Draft.journal ⟨[], c.faults⟩, .error (.host text)⟩
  | reading =>
    let draft := prepare reading.draft
    let journal := draft.journal
    ⟨journal,
      if journal.flagged then .error (.grammar journal.staticCount) else .ok draft.statements⟩

/-- Take a source to a program. -/
def compile (source : String) : Compiled :=
  match scanTokens source with
  | .broken faults text => ⟨Journal.empty.reportAll (faults.map .scan), .error (.host text)⟩
  | .faults faults count => ⟨Journal.empty.reportAll (faults.map .scan), .error (.scan count)⟩
  | .tokens tokens => .ofReading (readProgram tokens)

/-! ## §3. Sessions. -/

/-- A machine and the channel that takes diagnostics. -/
structure Session where
  machine : Machine
  errors : Channel

namespace Session

/-- A session before its first run. -/
def start (host : Host) (output errors : Channel) : Session := ⟨.start host output, errors⟩

/-- Write diagnostics, a line or more for each, and say whether all of them
were taken. -/
def writeReports (errors : Channel) : List Diagnostic → Bool × Channel
  | [] => (true, errors)
  | d :: ds =>
    match errors.writeLine d.chunks with
    | (true, after) => writeReports after ds
    | (false, after) => (false, after)

/-- End a run: write what has been reported. If that fails, nothing else
counts. -/
def finish (machine : Machine) (errors : Channel) (ending : Ending) (journal : Journal) :
    Ending × Session :=
  match writeReports errors journal.drain.1 with
  | (true, after) => (ending, ⟨machine, after⟩)
  | (false, after) => (.error (.host "Failed write diagnostics"), ⟨machine, after⟩)

/-- **Run a source.** -/
def run (host : Host) (bound : Nat) (s : Session) (source : String) : Ending × Session :=
  match compile source with
  | ⟨journal, .error e⟩ => finish s.machine s.errors (.error e) journal
  | ⟨journal, .ok program⟩ =>
    match Eval.runProgram host bound program s.machine with
    | .done _ m => finish m s.errors .success journal
    | .failed (.runtime fault) m =>
      finish m s.errors (.error (.runtime (.runtime fault))) (journal.report (.runtime fault))
    -- A broken host is no fault of the program, so nothing is reported.
    | .failed (.host text) m => finish m s.errors (.error (.runtime (.host text))) journal
    | .exhausted => (.exhausted, s)

end Session

end Lox
