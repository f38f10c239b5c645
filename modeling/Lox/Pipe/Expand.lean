/-
  Lox.Pipe.Expand
  ────────────────────────────────
  **TAKING THE PIPES OUT OF A PROGRAM.**

      5 |> double($) |> inc($)   ⟶   inc(double(5))

  To expand `left |> right`, expand the left side, fill the own placeholders of
  the right side with it, and expand the result.  A pipe whose right side has no
  placeholder of its own is a fault: it is noted, and the right side is left as
  it stands.  All other trees are rebuilt from their expanded parts, from left
  to right.

  The filled right side is no part of the pipe and may be larger than it, so
  the recursion goes by `weight`: expanding never makes a tree heavier, and the
  filled right side is lighter than the pipe.  Both facts travel with the
  results, in the field `light` of the structures of §1; §2 makes the result of
  a tree from the results of its parts.
-/
import Lox.Pipe.Placeholder
import Lox.Tree.Draft

namespace Lox

/-! ## §1. Results that are no heavier than their source. -/

/-- An expanded expression and the faults found on the way. -/
structure Expr.Expanded (source : Expr) where
  tree : Expr
  faults : List SyntaxFault
  light : ∀ n, Expr.weight n tree ≤ Expr.weight n source

/-- Expanded expressions and the faults found on the way. -/
structure Expr.ExpandedAll (source : List Expr) where
  trees : List Expr
  faults : List SyntaxFault
  light : ∀ n, Expr.weightAll n trees ≤ Expr.weightAll n source

/-- An expanded statement and the faults found on the way. -/
structure Stmt.Expanded (source : Stmt) where
  tree : Stmt
  faults : List SyntaxFault
  light : Stmt.weight tree ≤ Stmt.weight source

/-- Expanded statements and the faults found on the way. -/
structure Stmt.ExpandedAll (source : List Stmt) where
  trees : List Stmt
  faults : List SyntaxFault
  light : Stmt.weightAll trees ≤ Stmt.weightAll source

/-- A filled right side weighs less than its pipe. -/
theorem Expr.weight_fill_lt {left filling : Expr} (operator : Token) (right : Expr) (n : Nat)
    (h : Expr.weight n filling ≤ Expr.weight n left) :
    Expr.weight n (Expr.fill filling right) < Expr.weight n (.pipe left operator right) := by
  have := Expr.weight_mono h right
  simp only [Expr.weight_fill, Expr.weight]
  omega

/-- A right side without placeholders of its own weighs less than its pipe. -/
theorem Expr.weight_right_lt (left : Expr) (operator : Token) {right : Expr} (n : Nat)
    (h : right.hasOwn = false) :
    Expr.weight n right < Expr.weight n (.pipe left operator right) := by
  rw [Expr.weight_of_not_hasOwn n (Expr.weight n left) right h]
  simp only [Expr.weight]
  omega

/-! ## §2. Results from the results of parts. -/

namespace Expr.Expanded

variable {left right operand : Expr}

/-- An expression that is left as it stands. -/
def same (e : Expr) : Expanded e := ⟨e, [], fun _ => Nat.le_refl _⟩

/-- A sign or a negation. -/
def unary (operator : Token) (inner : Expanded operand) : Expanded (.unary operator operand) :=
  ⟨.unary operator inner.tree, inner.faults, fun n => by
    have := inner.light n
    simp only [Expr.weight]; omega⟩

/-- Arithmetic, a comparison or an equality. -/
def binary (l : Expanded left) (operator : Token) (r : Expanded right) :
    Expanded (.binary left operator right) :=
  ⟨.binary l.tree operator r.tree, l.faults ++ r.faults, fun n => by
    have := l.light n
    have := r.light n
    simp only [Expr.weight]; omega⟩

/-- `and` or `or`. -/
def logical (l : Expanded left) (operator : Token) (r : Expanded right) :
    Expanded (.logical left operator right) :=
  ⟨.logical l.tree operator r.tree, l.faults ++ r.faults, fun n => by
    have := l.light n
    have := r.light n
    simp only [Expr.weight]; omega⟩

/-- A pipe, of which the filled right side has been expanded. -/
def filled (l : Expanded left) (operator : Token) (r : Expanded (Expr.fill l.tree right)) :
    Expanded (.pipe left operator right) :=
  ⟨r.tree, l.faults ++ r.faults, fun n => by
    have := r.light n
    have := Expr.weight_fill_lt operator right n (l.light n)
    omega⟩

/-- A pipe whose right side does not use its left side. The pipes inside the
right side stay as they are. -/
def unfilled (l : Expanded left) (operator : Token) (own : ¬right.hasOwn = true) :
    Expanded (.pipe left operator right) :=
  ⟨right, l.faults ++ [.at operator .missingPlaceholder], fun n =>
    Nat.le_of_lt (Expr.weight_right_lt left operator n (by simpa using own))⟩

/-- A call. -/
def call (f : Expanded operand) (paren : Token) {arguments : List Expr}
    (given : ExpandedAll arguments) : Expanded (.call operand paren arguments) :=
  ⟨.call f.tree paren given.trees, f.faults ++ given.faults, fun n => by
    have := f.light n
    have := given.light n
    simp only [Expr.weight]; omega⟩

/-- An assignment. -/
def assign (target : Token) (inner : Expanded operand) : Expanded (.assign target operand) :=
  ⟨.assign target inner.tree, inner.faults, fun n => by
    have := inner.light n
    simp only [Expr.weight]; omega⟩

/-- An expression in parentheses. -/
def group (inner : Expanded operand) : Expanded (.group operand) :=
  ⟨.group inner.tree, inner.faults, fun n => by
    have := inner.light n
    simp only [Expr.weight]; omega⟩

/-- A function. -/
def function (own : Option Token) (parameters : List Token) {body : List Stmt}
    (inner : Stmt.ExpandedAll body) : Expanded (.function own parameters body) :=
  ⟨.function own parameters inner.trees, inner.faults, fun _ => by
    have := inner.light
    simp only [Expr.weight]; omega⟩

end Expr.Expanded

namespace Expr.ExpandedAll

/-- No expressions. -/
def nil : ExpandedAll [] := ⟨[], [], fun _ => Nat.le_refl _⟩

/-- One expression more. -/
def cons {e : Expr} {es : List Expr} (first : Expr.Expanded e) (others : ExpandedAll es) :
    ExpandedAll (e :: es) :=
  ⟨first.tree :: others.trees, first.faults ++ others.faults, fun n => by
    have := first.light n
    have := others.light n
    simp only [Expr.weightAll]; omega⟩

end Expr.ExpandedAll

namespace Stmt.Expanded

/-- A statement that is left as it stands. -/
def same (s : Stmt) : Expanded s := ⟨s, [], Nat.le_refl _⟩

/-- An expression statement. -/
def expr {value : Expr} (inner : Expr.Expanded value) : Expanded (.expr value) :=
  ⟨.expr inner.tree, inner.faults, by
    have := inner.light 1
    simp only [Stmt.weight]; omega⟩

/-- A print statement. -/
def print {value : Expr} (inner : Expr.Expanded value) : Expanded (.print value) :=
  ⟨.print inner.tree, inner.faults, by
    have := inner.light 1
    simp only [Stmt.weight]; omega⟩

/-- A variable with a first value. -/
def var (name : Token) {value : Expr} (inner : Expr.Expanded value) :
    Expanded (.var name (some value)) :=
  ⟨.var name (some inner.tree), inner.faults, by
    have := inner.light 1
    simp only [Stmt.weight, Expr.weightOption]; omega⟩

/-- A block. -/
def block {body : List Stmt} (inner : ExpandedAll body) : Expanded (.block body) :=
  ⟨.block inner.trees, inner.faults, by
    have := inner.light
    simp only [Stmt.weight]; omega⟩

/-- A choice without an alternative. -/
def branch {condition : Expr} {yes : Stmt} (c : Expr.Expanded condition) (y : Expanded yes) :
    Expanded (.branch condition yes none) :=
  ⟨.branch c.tree y.tree none, c.faults ++ y.faults, by
    have := c.light 1
    have := y.light
    simp only [Stmt.weight]; omega⟩

/-- A choice with an alternative. -/
def branchElse {condition : Expr} {yes no : Stmt} (c : Expr.Expanded condition)
    (y : Expanded yes) (n : Expanded no) : Expanded (.branch condition yes (some no)) :=
  ⟨.branch c.tree y.tree (some n.tree), c.faults ++ y.faults ++ n.faults, by
    have := c.light 1
    have := y.light
    have := n.light
    simp only [Stmt.weight, Stmt.weightOption]; omega⟩

/-- A loop. -/
def loop {condition : Expr} {body : Stmt} (c : Expr.Expanded condition) (b : Expanded body)
    (increment : Bool) : Expanded (.loop condition body increment) :=
  ⟨.loop c.tree b.tree increment, c.faults ++ b.faults, by
    have := c.light 1
    have := b.light
    simp only [Stmt.weight]; omega⟩

/-- A function. -/
def function (name : Token) (parameters : List Token) {body : List Stmt}
    (inner : ExpandedAll body) : Expanded (.function name parameters body) :=
  ⟨.function name parameters inner.trees, inner.faults, by
    have := inner.light
    simp only [Stmt.weight]; omega⟩

/-- A return with a value. -/
def give (keyword : Token) {value : Expr} (inner : Expr.Expanded value) :
    Expanded (.give keyword (some value)) :=
  ⟨.give keyword (some inner.tree), inner.faults, by
    have := inner.light 1
    simp only [Stmt.weight, Expr.weightOption]; omega⟩

end Stmt.Expanded

namespace Stmt.ExpandedAll

/-- No statements. -/
def nil : ExpandedAll [] := ⟨[], [], Nat.le_refl _⟩

/-- One statement more. -/
def cons {s : Stmt} {ss : List Stmt} (first : Stmt.Expanded s) (others : ExpandedAll ss) :
    ExpandedAll (s :: ss) :=
  ⟨first.tree :: others.trees, first.faults ++ others.faults, by
    have := first.light
    have := others.light
    simp only [Stmt.weightAll]; omega⟩

end Stmt.ExpandedAll

/-! ## §3. Expansion. -/

mutual

/-- Expand an expression. -/
def Expr.expanded (e : Expr) : Expr.Expanded e :=
  match e with
  | .literal value => .same (.literal value)
  | .name token => .same (.name token)
  | .unary operator operand => .unary operator (Expr.expanded operand)
  | .binary left operator right => .binary (Expr.expanded left) operator (Expr.expanded right)
  | .logical left operator right => .logical (Expr.expanded left) operator (Expr.expanded right)
  | .pipe left operator right =>
    let l := Expr.expanded left
    if own : right.hasOwn then
      -- The tree to go on with is no part of `e`; it is only lighter.
      have := Expr.weight_fill_lt operator right 1 (l.light 1)
      .filled l operator (Expr.expanded (Expr.fill l.tree right))
    else .unfilled l operator own
  | .call callee paren arguments =>
    .call (Expr.expanded callee) paren (Expr.expandedAll arguments)
  | .assign target value => .assign target (Expr.expanded value)
  | .group inner => .group (Expr.expanded inner)
  | .function own parameters body => .function own parameters (Stmt.expandedAll body)
termination_by Expr.weight 1 e
decreasing_by all_goals simp only [Expr.weight] at *; omega

/-- Expand some expressions, from left to right. -/
def Expr.expandedAll (es : List Expr) : Expr.ExpandedAll es :=
  match es with
  | [] => .nil
  | e :: es => .cons (Expr.expanded e) (Expr.expandedAll es)
termination_by Expr.weightAll 1 es
decreasing_by all_goals simp only [Expr.weightAll]; omega

/-- Expand a statement. -/
def Stmt.expanded (s : Stmt) : Stmt.Expanded s :=
  match s with
  | .expr value => .expr (Expr.expanded value)
  | .print value => .print (Expr.expanded value)
  | .var name none => .same (.var name none)
  | .var name (some initial) => .var name (Expr.expanded initial)
  | .block body => .block (Stmt.expandedAll body)
  | .branch condition yes none => .branch (Expr.expanded condition) (Stmt.expanded yes)
  | .branch condition yes (some no) =>
    .branchElse (Expr.expanded condition) (Stmt.expanded yes) (Stmt.expanded no)
  | .loop condition body increment =>
    .loop (Expr.expanded condition) (Stmt.expanded body) increment
  | .function name parameters body => .function name parameters (Stmt.expandedAll body)
  | .give keyword none => .same (.give keyword none)
  | .give keyword (some value) => .give keyword (Expr.expanded value)
  | .leave keyword => .same (.leave keyword)
  | .next keyword => .same (.next keyword)
termination_by Stmt.weight s
decreasing_by all_goals simp only [Stmt.weight, Expr.weightOption, Stmt.weightOption]; omega

/-- Expand some statements, from first to last. -/
def Stmt.expandedAll (ss : List Stmt) : Stmt.ExpandedAll ss :=
  match ss with
  | [] => .nil
  | s :: ss => .cons (Stmt.expanded s) (Stmt.expandedAll ss)
termination_by Stmt.weightAll ss
decreasing_by all_goals simp only [Stmt.weightAll]; omega

end

/-! ## §4. Programs without pipes. -/

/-- An expression with its pipes expanded. -/
def Expr.expand (e : Expr) : Expr := e.expanded.tree

/-- The faulty pipes found while an expression is expanded. -/
def Expr.pipeFaults (e : Expr) : List SyntaxFault := e.expanded.faults

/-- A pipe whose right side uses its left side stands for the filled right
side. -/
theorem Expr.expand_pipe (left : Expr) (operator : Token) {right : Expr}
    (own : right.hasOwn = true) :
    (Expr.pipe left operator right).expand = (Expr.fill left.expand right).expand := by
  rw [Expr.expand, Expr.expanded, dif_pos own]
  rfl

/-- A pipe whose right side does not use its left side is left as its right
side. -/
theorem Expr.expand_pipe_of_not_hasOwn (left : Expr) (operator : Token) {right : Expr}
    (own : right.hasOwn = false) : (Expr.pipe left operator right).expand = right := by
  rw [Expr.expand, Expr.expanded, dif_neg (by simp [own])]
  rfl

/-- A statement with its pipes expanded. -/
def Stmt.expand (s : Stmt) : Stmt := s.expanded.tree

/-- The faulty pipes found while a statement is expanded. -/
def Stmt.pipeFaults (s : Stmt) : List SyntaxFault := s.expanded.faults

/-- **Expand the pipes of a program.** -/
def expandPipes (program : List Stmt) : Draft :=
  ⟨(Stmt.expandedAll program).trees, (Stmt.expandedAll program).faults⟩

end Lox
