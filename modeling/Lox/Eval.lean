/-
  Lox.Eval
  ────────────────────────────────
  **RUNNING A PROGRAM.**

  `evaluate` gives an expression its value and `execute` does a statement.  A
  statement ends with a signal that says how to go on; blocks hand a signal on
  until a loop or a call takes it.  Loops, calls and lists of statements are
  combinators that take the computations of their parts, so that only these two
  refer to each other.  Their bound drops with every level of nesting, and a
  loop may take as many rounds as the bound of the level it is on.
-/
import Lox.Machine

namespace Lox

/-- How to go on after a statement. -/
inductive Signal where
  /-- With the next statement. -/
  | next
  /-- After the function, with a value. -/
  | give (value : Value)
  /-- After the innermost loop. -/
  | leave
  /-- With the next round of the innermost loop. -/
  | skip

namespace Eval

/-! ## §1. Combinators. -/

/-- The values of some expressions, from left to right. -/
def values (evaluate : Expr → Eval Value) : List Expr → Eval (List Value)
  | [] => pure []
  | e :: es => do
    let first ← evaluate e
    let others ← values evaluate es
    return first :: others

/-- The value of an optional expression; nil if there is none. -/
def valueOrNil (evaluate : Expr → Eval Value) : Option Expr → Eval Value
  | some e => evaluate e
  | none => pure .nil

/-- Do statements until one of them gives a signal other than `next`. -/
def sequence (execute : Stmt → Eval Signal) : List Stmt → Eval Signal
  | [] => pure .next
  | s :: ss => do
    match ← execute s with
    | .next => sequence execute ss
    | signal => return signal

/-- Repeat a body while a condition holds, for a bounded number of rounds. After
a round that ended early, the step is made up for. -/
def rounds (condition : Eval Value) (body : Eval Signal) (step : Eval Unit) :
    (bound : Nat) → Eval Signal
  | 0 => exhausted
  | n + 1 => do
    if (← condition).isTruthy then
      match ← body with
      | .next => rounds condition body step n
      | .leave => return .next
      | .skip =>
        -- The round broke off before the step at the end of the body.
        step
        rounds condition body step n
      | .give value => return .give value
    else return .next

/-- The step of a loop, which is the last statement of its body. -/
def loopStep (evaluate : Expr → Eval Value) (increment : Bool) (body : Stmt) : Eval Unit :=
  if increment then
    match body with
    | .block statements =>
      match statements.getLast? with
      | some (.expr value) => do
        let _ ← evaluate value
        return ()
      | _ => fail (.host "loop body does not end with an increment")
    | _ => fail (.host "loop with increment has no block body")
  else pure ()

/-- Call a function of the program. Its arguments are bound to its parameters
pairwise, as far as both go. -/
def enter (execute : Stmt → Eval Signal) (closure : Closure) (arguments : List Value) :
    Eval Value := do
  let frame ← newFrame closure.frame (Bindings.ofLists closure.parameters arguments)
  match ← inFrame frame (sequence execute closure.body) with
  | .give value => return value
  | .next | .leave | .skip => return .nil

/-- Call something callable, without a look at the number of arguments. -/
def invoke (host : Host) (execute : Stmt → Eval Signal) (callee : Value)
    (arguments : List Value) : Option (Eval Value) :=
  match callee with
  | .function closure => some (enter execute closure arguments)
  | .native n => some (perform host (enter execute) (host.act n arguments))
  | _ => none

/-- Call a value. It has to be callable with this number of arguments. Host
functions stand on no line, so their complaints are moved to the call. -/
def call (host : Host) (execute : Stmt → Eval Signal) (callee : Value) (paren : Token)
    (arguments : List Value) : Eval Value :=
  match callee with
  | .function closure =>
    if arguments.length = closure.parameters.length then enter execute closure arguments
    else fail (.at paren (.arityMismatch closure.parameters.length arguments.length))
  | .native n =>
    if arguments.length = n.arity then
      relocating paren.line (perform host (enter execute) (host.act n arguments))
    else fail (.at paren (.arityMismatch n.arity arguments.length))
  | _ => fail (.at paren .notCallable)

/-- Make the function of a function expression. One with a name sees itself
under this name, in a frame of its own. -/
def functionValue (name : Option Token) (parameters : List Token) (body : List Stmt) :
    Eval Value := do
  match name with
  | none => newClosure none parameters body (← current)
  | some own =>
    -- The function needs the frame, and the frame is to bind the function.
    let frame ← newFrame (← current) []
    let value ← newClosure (some own.lexeme) parameters body frame
    inFrame frame (define own.lexeme value)
    return value

/-- Whether the left operand decides an `and` or an `or`. -/
def decides (operator : Token) (left : Value) : Except Failure Bool :=
  match operator.kind with
  | .keyword .orWord => .ok left.isTruthy
  | .keyword .andWord => .ok (!left.isTruthy)
  | _ => .error (.host ("line " ++ toString operator.line ++ ": invalid logical operator '" ++
      operator.lexeme ++ "'"))

/-! ## §2. Expressions and statements. -/

mutual

/-- The value of an expression. -/
def evaluate (host : Host) : (bound : Nat) → Expr → Eval Value
  | 0, _ => exhausted
  | n + 1, e =>
    match e with
    | .literal value => pure (.ofLiteral value)
    | .group inner => evaluate host n inner
    | .name token => get token
    | .assign target value => do
      let v ← evaluate host n value
      assign target v
      return v
    | .unary operator operand => do
      let v ← evaluate host n operand
      ofExcept (v.unary operator)
    | .binary left operator right => do
      let l ← evaluate host n left
      let r ← evaluate host n right
      ofExcept (l.binary operator r)
    | .logical left operator right => do
      let l ← evaluate host n left
      if ← ofExcept (decides operator l) then return l
      else evaluate host n right
    | .call callee paren arguments => do
      let f ← evaluate host n callee
      let given ← values (evaluate host n) arguments
      call host (execute host n) f paren given
    | .function name parameters body => functionValue name parameters body
    | .pipe _ operator _ =>
      fail (.host ("line " ++ toString operator.line ++
        ": pipe reached the evaluator without being desugared"))

/-- Do a statement. -/
def execute (host : Host) : (bound : Nat) → Stmt → Eval Signal
  | 0, _ => exhausted
  | n + 1, s =>
    match s with
    | .expr value => do
      let _ ← evaluate host n value
      return .next
    | .print value => do
      print (← evaluate host n value)
      return .next
    | .var name initial => do
      define name.lexeme (← valueOrNil (evaluate host n) initial)
      return .next
    | .block body => do
      let frame ← newFrame (← current) []
      inFrame frame (sequence (execute host n) body)
    | .branch condition yes no => do
      if (← evaluate host n condition).isTruthy then execute host n yes
      else match no with
        | some other => execute host n other
        | none => return .next
    | .loop condition body increment =>
      rounds (evaluate host n condition) (execute host n body)
        (loopStep (evaluate host n) increment body) n
    | .function name parameters body => do
      define name.lexeme (← newClosure (some name.lexeme) parameters body (← current))
      return .next
    | .give _ value => do
      return .give (← valueOrNil (evaluate host n) value)
    | .leave _ => return .leave
    | .next _ => return .skip

end

/-! ## §3. Programs. -/

/-- Do the statements of a program one after the other, whatever they signal. -/
def doAll (execute : Stmt → Eval Signal) : List Stmt → Eval Unit
  | [] => pure ()
  | s :: ss => do
    let _ ← execute s
    doAll execute ss

/-- **Run a program,** and flush what it printed. -/
def runProgram (host : Host) (bound : Nat) (program : List Stmt) : Eval Unit := do
  doAll (execute host bound) program
  flush

end Eval

end Lox
