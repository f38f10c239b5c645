/-
  Lox.Value
  ────────────────────────────────
  **VALUES OF A RUNNING PROGRAM.**

  A value is nil, a truth value, a number, a string or something callable.
  Callables are equal only to themselves: each carries an identity that no other
  one has.  A function of the program keeps the frame in which it was made.
  Operators take values to values or say which operand is wrong; an operator
  that is none is a failure of the host.
-/
import Lox.Fault
import Lox.Tree

namespace Lox

/-- The place of a frame in the scopes. -/
abbrev FrameId := Nat

/-! ## §1. Callables. -/

/-- A function of the program, with the frame it was made in. -/
structure Closure where
  /-- What tells it from all other functions. -/
  identity : Nat
  /-- Its name, if it has one. -/
  name : Option String
  /-- The names of its parameters. -/
  parameters : List String
  /-- Its statements. -/
  body : List Stmt
  /-- The frame in which its body runs. -/
  frame : FrameId

/-- A function of the host. -/
structure Native where
  /-- What tells it from all other functions of the host. -/
  identity : Nat
  /-- Its name. -/
  name : String
  /-- The number of arguments it takes. -/
  arity : Nat
  deriving Repr, DecidableEq

/-- A value. -/
inductive Value where
  | nil
  | bool (value : Bool)
  | number (value : Float)
  | string (value : String)
  /-- A function of the program. -/
  | function (closure : Closure)
  /-- A function of the host. -/
  | native (native : Native)

instance : Inhabited Value := ⟨.nil⟩

namespace Value

/-- The value of a literal. -/
def ofLiteral : Literal → Value
  | .nil => nil
  | .bool value => bool value
  | .number value => number value
  | .string value => string value

/-- The number of arguments that a callable takes. -/
def arity? : Value → Option Nat
  | function closure => some closure.parameters.length
  | native n => some n.arity
  | _ => none

/-- The name of a callable that has one. -/
def name? : Value → Option String
  | function closure => closure.name
  | native n => some n.name
  | _ => none

/-- Whether a value can be called. -/
def isCallable : Value → Bool
  | function _ | native _ => true
  | _ => false

/-! ## §2. Truth and equality. -/

/-- Everything but nil and false counts as true. -/
def isTruthy : Value → Bool
  | nil => false
  | bool value => value
  | _ => true

/-- Whether two values are equal. Values of different types are not, a number
that is none equals every number that is none, and callables are equal only to
themselves. -/
def equals : Value → Value → Bool
  | nil, nil => true
  | bool v, bool w => v = w
  -- Zeros of both signs are equal.
  | number v, number w => v == w || (v.isNaN && w.isNaN)
  | string v, string w => v = w
  | function v, function w => v.identity = w.identity
  | native v, native w => v.identity = w.identity
  | _, _ => false

/-! ## §3. Text. -/

/-- The chunks in which a value is printed. -/
def chunks : Value → List String
  | nil => ["nil"]
  | bool value => [if value then "true" else "false"]
  | number value => [Number.text value]
  | string value => [value]
  | function ⟨_, some own, _, _, _⟩ => ["<fn ", own, ">"]
  | function ⟨_, none, _, _, _⟩ => ["<fn>"]
  | native _ => ["<native fn>"]

/-- The text of a value as it is printed. -/
def text (v : Value) : String := String.join v.chunks

/-- The text of a value as inspection shows it. -/
def inspect : Value → String
  | nil => "Nil"
  | bool value => "Bool(" ++ (if value then "true" else "false") ++ ")"
  | number value => "Num(" ++ Number.exactText value ++ ")"
  | string value => "Str(" ++ Text.quoted value ++ ")"
  | function closure =>
    let own := match closure.name with
      | some own => "Some(" ++ Text.quoted own ++ ")"
      | none => "None"
    "Callable(Function(FunctionObject \x7b name: " ++ own ++ ", arity: " ++
      toString closure.parameters.length ++ ", .. \x7d))"
  | native n => "Callable(Native(" ++ Text.quoted n.name ++ "))"

/-! ## §4. Operators. -/

/-- Apply an operator to two numbers. -/
def onNumbers (operator : Token) (left right : Value) (result : Float → Float → Value) :
    Except Failure Value :=
  match left, right with
  | number l, number r => .ok (result l r)
  | _, _ => .error (.at operator .operandsMustBeNumbers)

/-- Apply a binary operator. Arithmetic and comparisons need two numbers, `+`
also joins two strings, and equality takes anything. -/
def binary (left : Value) (operator : Token) (right : Value) : Except Failure Value :=
  match operator.kind with
  | .symbol .plus =>
    match left, right with
    | number l, number r => .ok (number (l + r))
    | string l, string r => .ok (string (l ++ r))
    | _, _ => .error (.at operator .invalidAddition)
  | .symbol .minus => onNumbers operator left right fun l r => number (l - r)
  | .symbol .star => onNumbers operator left right fun l r => number (l * r)
  | .symbol .slash => onNumbers operator left right fun l r => number (l / r)
  | .symbol .greater => onNumbers operator left right fun l r => bool (l > r)
  | .symbol .greaterEqual => onNumbers operator left right fun l r => bool (l ≥ r)
  | .symbol .less => onNumbers operator left right fun l r => bool (l < r)
  | .symbol .lessEqual => onNumbers operator left right fun l r => bool (l ≤ r)
  | .symbol .equalEqual => .ok (bool (left.equals right))
  | .symbol .bangEqual => .ok (bool (!left.equals right))
  | _ => .error (.host ("line " ++ toString operator.line ++ ": '" ++ operator.lexeme ++
      "' is not a binary operator"))

/-- Apply a prefix operator. -/
def unary (operator : Token) (operand : Value) : Except Failure Value :=
  match operator.kind with
  | .symbol .bang => .ok (bool (!operand.isTruthy))
  | .symbol .minus =>
    match operand with
    | number x => .ok (number (-x))
    | _ => .error (.at operator .operandMustBeNumber)
  | _ => .error (.host ("line " ++ toString operator.line ++ ": '" ++ operator.lexeme ++
      "' is not a unary operator"))

end Value

end Lox
