/-
  Lox.Host.Toolbox
  ────────────────────────────────
  **HOST FUNCTIONS FOR LOOKING AT PROGRAMS FROM INSIDE.**

  A few host functions beyond the clock, which show values, complain on demand
  and call back into the program.
-/
import Lox.Host

namespace Lox.HostFunction

/-- Twice a number. -/
def twice : HostFunction where
  name := "twice"
  arity := 1
  act
    | [.number x] => .give (.number (x * 2))
    | _ => .complain "twice expects a number."

/-- A value as inspection shows it. -/
def inspect : HostFunction where
  name := "inspect"
  arity := 1
  act
    | v :: _ => .give (.string v.inspect)
    | [] => .give .nil

/-- A value as it is printed. -/
def asText : HostFunction where
  name := "show"
  arity := 1
  act
    | v :: _ => .give (.string v.text)
    | [] => .give .nil

/-- Complain with the text of a value. -/
def fail : HostFunction where
  name := "fail"
  arity := 1
  act
    | v :: _ => .complain v.text
    | [] => .give .nil

/-- Break off the run. -/
def crash : HostFunction where
  name := "crash"
  arity := 0
  act := fun _ => .abort "native crashed"

/-- Call a function of the program with one argument, however many it takes. -/
def apply : HostFunction where
  name := "apply"
  arity := 2
  act
    | [.function f, x] => .call f [x] .answer
    | _ => .complain "apply expects a function."

/-- The name and the arity of a callable. -/
def describe : HostFunction where
  name := "describe"
  arity := 1
  act
    | v :: _ =>
      match v.arity? with
      | some arity => .give (.string (v.name?.getD "?" ++ "/" ++ toString arity))
      | none => .give .nil
    | [] => .give .nil

/-- Give the number of arguments. -/
def counting (name : String) (arity : Nat) : HostFunction where
  name := name
  arity := arity
  act := fun arguments => .give (.number arguments.length.toFloat)

end Lox.HostFunction

namespace Lox

/-- The host that gives programs the clock and the functions of this module. -/
def Host.toolbox (clock : Nat → Float) : Host where
  functions := #[.clock, .twice, .inspect, .asText, .fail, .crash, .apply, .describe]
  clock := clock

end Lox
