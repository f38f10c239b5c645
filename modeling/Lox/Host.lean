/-
  Lox.Host
  ────────────────────────────────
  **WHAT THE HOST GIVES TO A PROGRAM.**

  A host function takes the values it is called with to an action: give a value,
  complain, break off, read the clock, or call a function of the program and go
  on with what comes of it, a value or a failure.  Actions are all that a host
  function can do, so it reaches the frames of a program only through the
  functions handed to it.
-/
import Lox.Value

namespace Lox

/-- What a host function does next. -/
inductive Action where
  /-- Give a value. -/
  | give (value : Value)
  /-- Complain, with a fault on any line. -/
  | raise (fault : RuntimeFault)
  /-- Break off the run. -/
  | abort (text : String)
  /-- Read the clock and go on with the reading. -/
  | readClock (next : Float → Action)
  /-- Call a function of the program and go on with its value or its failure. -/
  | call (closure : Closure) (arguments : List Value) (next : Except Failure Value → Action)

/-- Complain about the call. A host function stands on no line. -/
def Action.complain (text : String) : Action := .raise ⟨0, .native text⟩

/-- Fail with a failure. -/
def Action.fail : Failure → Action
  | .runtime fault => .raise fault
  | .host text => .abort text

/-- Hand on what a call has come to. -/
def Action.answer : Except Failure Value → Action
  | .ok value => .give value
  | .error failure => .fail failure

/-- A function that the host gives to programs. -/
structure HostFunction where
  name : String
  arity : Nat
  act : List Value → Action

/-- The host of a program: its functions, and its clock. The clock is what its
readings are, the first one first, in seconds since the epoch. -/
structure Host where
  functions : Array HostFunction
  clock : Nat → Float

/-- The value under which a program calls the host function at a place. -/
def HostFunction.value (f : HostFunction) (identity : Nat) : Value :=
  .native ⟨identity, f.name, f.arity⟩

/-- What a host does when one of its functions is called. -/
def Host.act (host : Host) (n : Native) (arguments : List Value) : Action :=
  match host.functions[n.identity]? with
  | some f => f.act arguments
  | none => .abort ("unknown host function " ++ n.name)

/-- What is said of a clock that reads a time before the epoch. -/
def HostFunction.beforeEpoch : String := "System clock is before the Unix epoch"

/-- The seconds since the epoch. A time before it is none that can be given. -/
def HostFunction.clock : HostFunction where
  name := "clock"
  arity := 0
  act := fun _ => .readClock fun now => if now < 0 then .abort beforeEpoch else .give (.number now)

/-- The host that gives programs a clock and nothing else. -/
def Host.standard (clock : Nat → Float) : Host := ⟨#[.clock], clock⟩

end Lox
