/-
  Lox.Machine
  ────────────────────────────────
  **THE STATE OF A RUN.**

  A machine holds the frames, the frame in which code runs now, and the channel
  that takes what is printed.  A computation of type `Eval α` takes a machine to
  an outcome: a value or a failure, each with the machine it leaves behind, or
  nothing at all once its bound on nesting and repetition is reached.
-/
import Lox.Channel
import Lox.Host
import Lox.Scope

namespace Lox

/-! ## §1. Machines and computations. -/

/-- The state of a run. -/
structure Machine where
  /-- Every frame there is. -/
  scopes : Scopes
  /-- The frame in which code runs now. -/
  current : FrameId
  /-- How many functions have been made. -/
  made : Nat
  /-- How many times the clock has been read. -/
  readings : Nat
  /-- What takes the printed text. -/
  output : Channel

/-- How a computation ends. -/
inductive Outcome (α : Type) where
  /-- With a value. -/
  | done (value : α) (machine : Machine)
  /-- With a failure. -/
  | failed (failure : Failure) (machine : Machine)
  /-- At its bound. -/
  | exhausted

/-- A computation on a machine. -/
def Eval (α : Type) : Type := Machine → Outcome α

namespace Eval

variable {α β : Type}

@[always_inline, inline]
protected def pure (a : α) : Eval α := fun m => .done a m

/-- One computation after the other; one that fails is the last one. -/
@[always_inline, inline]
protected def bind (p : Eval α) (f : α → Eval β) : Eval β := fun m =>
  match p m with
  | .done a m' => f a m'
  | .failed failure m' => .failed failure m'
  | .exhausted => .exhausted

@[always_inline]
instance : Monad Eval where
  pure := Eval.pure
  bind := Eval.bind

/-- Fail. -/
def fail (failure : Failure) : Eval α := fun m => .failed failure m

/-- The bound is reached. -/
def exhausted : Eval α := fun _ => .exhausted

/-- Go on with a result, or fail with it. -/
@[inline] def ofExcept : Except Failure α → Eval α
  | .ok a => pure a
  | .error failure => fail failure

/-- Compute, and move a failure of the program to another line. -/
def relocating (line : Nat) (p : Eval α) : Eval α := fun m =>
  match p m with
  | .failed failure m' => .failed (failure.relocate line) m'
  | outcome => outcome

/-- Compute, and go on with what comes of it, a value or a failure. -/
def attempt (p : Eval α) : Eval (Except Failure α) := fun m =>
  match p m with
  | .done a m' => .done (.ok a) m'
  | .failed failure m' => .done (.error failure) m'
  | .exhausted => .exhausted

/-! ## §2. Frames. -/

/-- The value of a name in the current frame. -/
def get (name : Token) : Eval Value := fun m =>
  match m.scopes.get? m.current name.lexeme with
  | some value => .done value m
  | none => .failed (.undefined name) m

/-- Give a name that is in scope another value. -/
def assign (name : Token) (value : Value) : Eval Unit := fun m =>
  match m.scopes.assign m.current name.lexeme value with
  | (true, scopes) => .done () { m with scopes := scopes }
  | (false, scopes) => .failed (.undefined name) { m with scopes := scopes }

/-- Bind a name in the current frame. -/
def define (name : String) (value : Value) : Eval Unit := fun m =>
  .done () { m with scopes := m.scopes.define m.current name value }

/-- The frame in which code runs now. -/
def current : Eval FrameId := fun m => .done m.current m

/-- Make a frame enclosed by another one. -/
def newFrame (enclosing : FrameId) (bindings : Bindings) : Eval FrameId := fun m =>
  .done m.scopes.next { m with scopes := m.scopes.push ⟨bindings, some enclosing⟩ }

/-- Compute in a frame, and come back to the frame before, whatever the
outcome. -/
def inFrame (frame : FrameId) (p : Eval α) : Eval α := fun m =>
  let back := m.current
  match p { m with current := frame } with
  | .done a m' => .done a { m' with current := back }
  | .failed failure m' => .failed failure { m' with current := back }
  | .exhausted => .exhausted

/-- Make a function with a frame to run in. -/
def newClosure (name : Option String) (parameters : List Token) (body : List Stmt)
    (frame : FrameId) : Eval Value := fun m =>
  .done (.function ⟨m.made, name, parameters.map Token.lexeme, body, frame⟩)
    { m with made := m.made + 1 }

/-! ## §3. The world outside. -/

/-- Print a value on a line. -/
def print (value : Value) : Eval Unit := fun m =>
  match m.output.writeLine value.chunks with
  | (true, channel) => .done () { m with output := channel }
  | (false, channel) =>
    .failed (.host "Failed write program output") { m with output := channel }

/-- Flush what has been printed. -/
def flush : Eval Unit := fun m =>
  if m.output.flushFails then .failed (.host "Failed flush program output") m else .done () m

/-- Read the clock of the host. -/
def readClock (host : Host) : Eval Float := fun m =>
  .done (host.clock m.readings) { m with readings := m.readings + 1 }

/-- Do what a host function asks for, calling functions of the program by
`call`. -/
def perform (host : Host) (call : Closure → List Value → Eval Value) : Action → Eval Value
  | .give value => pure value
  | .raise fault => fail (.runtime fault)
  | .abort text => fail (.host text)
  | .readClock next => do
    let now ← readClock host
    perform host call (next now)
  | .call closure arguments next => do
    let answer ← attempt (call closure arguments)
    perform host call (next answer)

end Eval

/-! ## §4. The first machine. -/

/-- A machine before its first run: one frame, which binds the functions of the
host. -/
def Machine.start (host : Host) (output : Channel) : Machine where
  scopes := Scopes.empty.push ⟨Bindings.ofLists (host.functions.toList.map HostFunction.name)
    (host.functions.toList.mapIdx fun i f => f.value i), none⟩
  current := 0
  made := 0
  readings := 0
  output := output

end Lox
