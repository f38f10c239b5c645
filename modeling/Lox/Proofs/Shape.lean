/-
  Lox.Proofs.Shape
  ────────────────────────────────
  **THE SHAPE OF EVERY TREE THAT READING GIVES.**

  The types of trees allow more than reading a program ever builds: any token
  could stand as an operator, a `break` could stand anywhere, and a loop with a
  step could lack the block that ends with it.  `WellFormed` says what is never
  built, with the place of a statement as its context.  It is a property of the
  tree alone and holds of what is left of a faulty program, too.

    • operators are operators of their kind, and only names are assigned to;
    • `break` and `continue` stand in a loop, `return` in a function, and a
      function body is outside of the loops around it;
    • a loop with a step has a block of the body proper and the step;
    • branches and loop bodies are never declarations themselves.
-/
import Lox.Tree.Parse

namespace Lox

open Parse (Context lowerFor)

/-! ## §1. Operators. -/

/-- Whether a token is a sign or a negation. -/
def Token.isPrefixOperator (t : Token) : Bool :=
  t.isSymbol .bang || t.isSymbol .minus

/-- Whether a token is an arithmetic operator, a comparison or an equality. -/
def Token.isBinaryOperator (t : Token) : Bool :=
  match t.kind with
  | .symbol .plus | .symbol .minus | .symbol .star | .symbol .slash => true
  | .symbol .greater | .symbol .greaterEqual | .symbol .less | .symbol .lessEqual => true
  | .symbol .equalEqual | .symbol .bangEqual => true
  | _ => false

/-- Whether a token is `and` or `or`. -/
def Token.isLogicalOperator (t : Token) : Bool :=
  t.isKeyword .andWord || t.isKeyword .orWord

/-! ## §2. Well-formed trees. -/

/-- Whether a statement is a declaration. -/
def Stmt.isDeclaration : Stmt → Bool
  | .var _ _ | .function _ _ _ => true
  | _ => false

/-- Whether a statement is a block of a statement proper and the step of a
loop. -/
def Stmt.endsWithStep : Stmt → Bool
  | .block [first, .expr _] => !first.isDeclaration
  | _ => false

mutual

/-- What every expression that has been read is like. -/
def Expr.WellFormed : Expr → Prop
  | .literal _ => True
  | .name token => token.isIdentifier = true ∨ token.isSymbol .dollar = true
  | .unary operator operand => operator.isPrefixOperator = true ∧ Expr.WellFormed operand
  | .binary left operator right =>
    operator.isBinaryOperator = true ∧ Expr.WellFormed left ∧ Expr.WellFormed right
  | .logical left operator right =>
    operator.isLogicalOperator = true ∧ Expr.WellFormed left ∧ Expr.WellFormed right
  | .pipe left operator right =>
    operator.isSymbol .pipe = true ∧ Expr.WellFormed left ∧ Expr.WellFormed right
  | .call callee _ arguments => Expr.WellFormed callee ∧ Expr.AllWellFormed arguments
  | .assign target value => target.isIdentifier = true ∧ Expr.WellFormed value
  | .group inner => Expr.WellFormed inner
  | .function _ _ body => Stmt.AllWellFormed .ofFunction body
termination_by structural tree => tree

/-- What all expressions of a list are like. -/
def Expr.AllWellFormed : List Expr → Prop
  | [] => True
  | e :: es => Expr.WellFormed e ∧ Expr.AllWellFormed es
termination_by structural trees => trees

/-- What an optional expression is like. -/
def Expr.OptionWellFormed : Option Expr → Prop
  | none => True
  | some e => Expr.WellFormed e
termination_by structural tree => tree

/-- What every statement that has been read is like where it stands. -/
def Stmt.WellFormed (ctx : Context) : Stmt → Prop
  | .expr value | .print value => Expr.WellFormed value
  | .var name initial => name.isIdentifier = true ∧ Expr.OptionWellFormed initial
  | .block body => Stmt.AllWellFormed ctx body
  | .branch condition yes no =>
    Expr.WellFormed condition ∧ (yes.isDeclaration = false ∧ Stmt.WellFormed ctx yes) ∧
      Stmt.OptionWellFormed ctx no
  | .loop condition body increment =>
    Expr.WellFormed condition ∧ (body.isDeclaration = false ∧ Stmt.WellFormed ctx.ofLoop body) ∧
      (increment = true → body.endsWithStep = true)
  | .function name _ body => name.isIdentifier = true ∧ Stmt.AllWellFormed .ofFunction body
  | .give _ value => ctx.inFunction = true ∧ Expr.OptionWellFormed value
  | .leave _ | .next _ => ctx.inLoop = true
termination_by structural tree => tree

/-- What all statements of a list are like. -/
def Stmt.AllWellFormed (ctx : Context) : List Stmt → Prop
  | [] => True
  | s :: ss => Stmt.WellFormed ctx s ∧ Stmt.AllWellFormed ctx ss
termination_by structural trees => trees

/-- What an optional branch is like. -/
def Stmt.OptionWellFormed (ctx : Context) : Option Stmt → Prop
  | none => True
  | some s => s.isDeclaration = false ∧ Stmt.WellFormed ctx s
termination_by structural tree => tree

end

/-! ## §3. What reading puts together. -/

/-- An operator of a level makes a well-formed tree of well-formed operands. -/
theorem Level.join_wellFormed {l : Level} {left right : Expr} {operator : Token}
    (h : l.accepts operator = true) (hl : left.WellFormed) (hr : right.WellFormed) :
    (l.join left operator right).WellFormed := by
  obtain ⟨kind, lexeme, line⟩ := operator
  unfold Level.accepts at h
  split at h
  all_goals
    simp_all [Level.join, Expr.WellFormed, Token.isLogicalOperator, Token.isBinaryOperator,
      Token.isKeyword, Token.isSymbol]

/-- The tree of a `for` loop is well formed if its parts are. -/
theorem lowerFor_wellFormed {ctx : Context} {first : Option Stmt} {condition step : Option Expr}
    {body : Stmt} (hf : ∀ s, first = some s → s.WellFormed ctx)
    (hc : Expr.OptionWellFormed condition) (hs : Expr.OptionWellFormed step)
    (hd : body.isDeclaration = false) (hb : body.WellFormed ctx.ofLoop) :
    (lowerFor first condition step body).WellFormed ctx ∧
      (lowerFor first condition step body).isDeclaration = false := by
  have hcond : (condition.getD (.literal (.bool true))).WellFormed := by
    cases condition with
    | none => trivial
    | some e => exact hc
  have hloop : (lowerFor none condition step body).WellFormed ctx := by
    cases step with
    | none => exact ⟨hcond, ⟨hd, hb⟩, fun h => Bool.noConfusion h⟩
    | some e => exact ⟨hcond, ⟨rfl, hb, hs, trivial⟩, fun _ => by simp [Stmt.endsWithStep, hd]⟩
  cases first with
  | none => exact ⟨hloop, rfl⟩
  | some s => exact ⟨⟨hf s rfl, hloop, trivial⟩, rfl⟩

theorem Expr.allWellFormed_iff {es : List Expr} :
    Expr.AllWellFormed es ↔ ∀ e ∈ es, e.WellFormed := by
  induction es with
  | nil => simp [Expr.AllWellFormed]
  | cons e es ih => simp [Expr.AllWellFormed, ih]

/-- Appended lists of statements are well formed together. -/
theorem Stmt.AllWellFormed.append {ctx : Context} {ss us : List Stmt}
    (h : Stmt.AllWellFormed ctx ss) (hu : Stmt.AllWellFormed ctx us) :
    Stmt.AllWellFormed ctx (ss ++ us) := by
  induction ss with
  | nil => exact hu
  | cons s ss ih => exact ⟨h.1, ih h.2⟩

end Lox
