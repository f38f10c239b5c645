/-
  Lox.Tree
  ────────────────────────────────
  **THE SHAPE OF A PROGRAM.**

  A program is a list of statements.  Statements are done for their effect and
  expressions for their value; a function expression holds statements, so the
  two kinds of trees are defined together.  A tree keeps the tokens it was built
  from wherever a later message may point at them.
-/
import Lox.Token

namespace Lox

/-! ## §1. Literals. -/

/-- A value written out in a program. -/
inductive Literal where
  | nil
  | bool (value : Bool)
  | number (value : Float)
  | string (value : String)
  deriving Repr

/-- The text of a literal: strings between quotes, nothing escaped. -/
def Literal.text : Literal → String
  | nil => "nil"
  | bool value => if value then "true" else "false"
  | number value => Number.text value
  | string value => "\"" ++ value ++ "\""

/-- Whether two literals are the same. Numbers are compared by value, so a
number that is not equal to itself is not the same literal as itself. -/
def Literal.same : Literal → Literal → Bool
  | nil, nil => true
  | bool v, bool w => v = w
  | number v, number w => v == w
  | string v, string w => v = w
  | _, _ => false

/-! ## §2. Expressions and statements. -/

mutual

/-- An expression. -/
inductive Expr where
  /-- A value written out. -/
  | literal (value : Literal)
  /-- A name, or the placeholder of a pipe. -/
  | name (token : Token)
  /-- A sign or a negation. -/
  | unary (operator : Token) (operand : Expr)
  /-- Arithmetic, a comparison or an equality. -/
  | binary (left : Expr) (operator : Token) (right : Expr)
  /-- `and` or `or`, which may leave the right operand alone. -/
  | logical (left : Expr) (operator : Token) (right : Expr)
  /-- `left |> right`: the right side, with the left side for its placeholders. -/
  | pipe (left : Expr) (operator : Token) (right : Expr)
  /-- A call; `paren` is the parenthesis that closes it. -/
  | call (callee : Expr) (paren : Token) (arguments : List Expr)
  /-- An assignment to a name. -/
  | assign (target : Token) (value : Expr)
  /-- An expression in parentheses. -/
  | group (inner : Expr)
  /-- A function as a value, possibly with a name of its own. -/
  | function (name : Option Token) (parameters : List Token) (body : List Stmt)

/-- A statement. -/
inductive Stmt where
  /-- An expression whose value is dropped. -/
  | expr (value : Expr)
  /-- Print a value. -/
  | print (value : Expr)
  /-- Declare a name, possibly with a first value. -/
  | var (name : Token) (initial : Option Expr)
  /-- Statements in a scope of their own. -/
  | block (body : List Stmt)
  /-- A choice. -/
  | branch (condition : Expr) (yes : Stmt) (no : Option Stmt)
  /-- A loop. If `increment` is set, the body is a block whose last statement is
  the step of the loop, which `continue` does not skip. -/
  | loop (condition : Expr) (body : Stmt) (increment : Bool)
  /-- Declare a function. -/
  | function (name : Token) (parameters : List Token) (body : List Stmt)
  /-- Leave the function, possibly with a value. -/
  | give (keyword : Token) (value : Option Expr)
  /-- Leave the innermost loop. -/
  | leave (keyword : Token)
  /-- Go on with the next round of the innermost loop. -/
  | next (keyword : Token)

end

instance : Inhabited Expr := ⟨.literal .nil⟩

instance : Inhabited Stmt := ⟨.block []⟩

/-- The name that an expression is, if it can be assigned to. -/
def Expr.target? : Expr → Option Token
  | name token => if token.isIdentifier then some token else none
  | _ => none

/-- Whether a token is an expression by itself. -/
def Token.isAtom (t : Token) : Bool :=
  match t.kind with
  | .number _ | .string _ | .identifier | .symbol .dollar => true
  | .keyword .trueWord | .keyword .falseWord | .keyword .nilWord => true
  | _ => false

/-- The expression of a token that is one by itself. -/
def Expr.ofToken? (t : Token) : Option Expr :=
  match t.kind with
  | .number value => some (.literal (.number value))
  | .string value => some (.literal (.string value))
  | .keyword .trueWord => some (.literal (.bool true))
  | .keyword .falseWord => some (.literal (.bool false))
  | .keyword .nilWord => some (.literal .nil)
  | .identifier | .symbol .dollar => some (.name t)
  | _ => none

/-- The complaint about a token that is no expression by itself. -/
def Expr.refusal (t : Token) : String :=
  "Cannot convert token " ++ t.inspect ++ " to Expression::Literal"

/-- The expression that a statement evaluates itself, as opposed to those of
the statements in it. -/
def Stmt.ownExpr? : Stmt → Option Expr
  | expr value | print value => some value
  | var _ initial => initial
  | give _ value => value
  | branch condition _ _ | loop condition _ _ => some condition
  | block _ | function _ _ _ | leave _ | next _ => none

/-! ## §3. Sameness. -/

/-- Whether two lists of tokens agree one by one. -/
def Token.sameAll : List Token → List Token → Bool
  | [], [] => true
  | t :: ts, u :: us => t.same u && sameAll ts us
  | _, _ => false

/-- Whether two optional tokens agree. -/
def Token.sameOption : Option Token → Option Token → Bool
  | none, none => true
  | some t, some u => t.same u
  | _, _ => false

mutual

/-- Whether two expressions are the same tree, token by token. -/
def Expr.same : Expr → Expr → Bool
  | .literal v, .literal w => v.same w
  | .name t, .name u => t.same u
  | .unary o e, .unary p f => o.same p && Expr.same e f
  | .binary l o r, .binary l' o' r' => Expr.same l l' && o.same o' && Expr.same r r'
  | .logical l o r, .logical l' o' r' => Expr.same l l' && o.same o' && Expr.same r r'
  | .pipe l o r, .pipe l' o' r' => Expr.same l l' && o.same o' && Expr.same r r'
  | .call f p as, .call g q bs => Expr.same f g && p.same q && Expr.sameAll as bs
  | .assign t e, .assign u f => t.same u && Expr.same e f
  | .group e, .group f => Expr.same e f
  | .function n ps b, .function m qs c =>
    Token.sameOption n m && Token.sameAll ps qs && Stmt.sameAll b c
  | _, _ => false
termination_by structural tree => tree

/-- Whether two lists of expressions agree one by one. -/
def Expr.sameAll : List Expr → List Expr → Bool
  | [], [] => true
  | e :: es, f :: fs => Expr.same e f && Expr.sameAll es fs
  | _, _ => false
termination_by structural tree => tree

/-- Whether two optional expressions agree. -/
def Expr.sameOption : Option Expr → Option Expr → Bool
  | none, none => true
  | some e, some f => Expr.same e f
  | _, _ => false
termination_by structural tree => tree

/-- Whether two statements are the same tree, token by token. -/
def Stmt.same : Stmt → Stmt → Bool
  | .expr e, .expr f => Expr.same e f
  | .print e, .print f => Expr.same e f
  | .var n e, .var m f => n.same m && Expr.sameOption e f
  | .block b, .block c => Stmt.sameAll b c
  | .branch e y n, .branch f y' n' => Expr.same e f && Stmt.same y y' && Stmt.sameOption n n'
  | .loop e b i, .loop f c j => Expr.same e f && Stmt.same b c && i = j
  | .function n ps b, .function m qs c => n.same m && Token.sameAll ps qs && Stmt.sameAll b c
  | .give k e, .give l f => k.same l && Expr.sameOption e f
  | .leave k, .leave l => k.same l
  | .next k, .next l => k.same l
  | _, _ => false
termination_by structural tree => tree

/-- Whether two lists of statements agree one by one. -/
def Stmt.sameAll : List Stmt → List Stmt → Bool
  | [], [] => true
  | s :: ss, t :: ts => Stmt.same s t && Stmt.sameAll ss ts
  | _, _ => false
termination_by structural tree => tree

/-- Whether two optional statements agree. -/
def Stmt.sameOption : Option Stmt → Option Stmt → Bool
  | none, none => true
  | some s, some t => Stmt.same s t
  | _, _ => false
termination_by structural tree => tree

end

end Lox
