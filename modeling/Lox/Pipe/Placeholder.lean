/-
  Lox.Pipe.Placeholder
  ────────────────────────────────
  **THE PLACEHOLDERS OF A PIPE.**

  In `left |> right` the left side stands for every placeholder that `right` has
  of its own.  A placeholder inside the right side of a nested pipe belongs to
  that pipe, and one inside a function body belongs to no pipe around the
  function.  `fill` puts an expression in the place of the own placeholders.

  `weight` is what an expression may grow to when its pipes are expanded, each
  own placeholder counted with a given weight: a pipe weighs its right side with
  the weight of the left side for the placeholders.  Filling turns one weight
  into the other (`weight_fill`).
-/
import Lox.Tree

namespace Lox

/-! ## §1. Own placeholders. -/

mutual

/-- Whether an expression has a placeholder of its own. -/
def Expr.hasOwn : Expr → Bool
  | .literal _ => false
  | .name token => token.isSymbol .dollar
  | .unary _ operand => operand.hasOwn
  | .binary left _ right | .logical left _ right => left.hasOwn || right.hasOwn
  | .pipe left _ _ => left.hasOwn
  | .call callee _ arguments => callee.hasOwn || Expr.anyOwn arguments
  | .assign _ value => value.hasOwn
  | .group inner => inner.hasOwn
  | .function _ _ _ => false

/-- Whether one of some expressions has a placeholder of its own. -/
def Expr.anyOwn : List Expr → Bool
  | [] => false
  | e :: es => e.hasOwn || Expr.anyOwn es

end

mutual

/-- Put an expression in the place of every own placeholder. -/
def Expr.fill (filling : Expr) : Expr → Expr
  | .literal value => .literal value
  | .name token => if token.isSymbol .dollar then filling else .name token
  | .unary operator operand => .unary operator (Expr.fill filling operand)
  | .binary left operator right =>
    .binary (Expr.fill filling left) operator (Expr.fill filling right)
  | .logical left operator right =>
    .logical (Expr.fill filling left) operator (Expr.fill filling right)
  | .pipe left operator right => .pipe (Expr.fill filling left) operator right
  | .call callee paren arguments =>
    .call (Expr.fill filling callee) paren (Expr.fillAll filling arguments)
  | .assign target value => .assign target (Expr.fill filling value)
  | .group inner => .group (Expr.fill filling inner)
  | .function own parameters body => .function own parameters body

/-- Put an expression in the place of every own placeholder of some
expressions. -/
def Expr.fillAll (filling : Expr) : List Expr → List Expr
  | [] => []
  | e :: es => Expr.fill filling e :: Expr.fillAll filling es

end

/-! ## §2. Weight. -/

mutual

/-- What an expression may grow to, a placeholder counted as `unit`. -/
def Expr.weight (unit : Nat) : Expr → Nat
  | .literal _ => 1
  | .name token => if token.isSymbol .dollar then unit else 1
  | .unary _ operand => Expr.weight unit operand + 1
  | .binary left _ right | .logical left _ right =>
    Expr.weight unit left + Expr.weight unit right + 1
  | .pipe left _ right =>
    Expr.weight unit left + Expr.weight (Expr.weight unit left) right + 1
  | .call callee _ arguments => Expr.weight unit callee + Expr.weightAll unit arguments + 1
  | .assign _ value => Expr.weight unit value + 1
  | .group inner => Expr.weight unit inner + 1
  | .function _ _ body => Stmt.weightAll body + 1
termination_by structural tree => tree

/-- What some expressions may grow to together. -/
def Expr.weightAll (unit : Nat) : List Expr → Nat
  | [] => 0
  | e :: es => Expr.weight unit e + Expr.weightAll unit es + 1
termination_by structural trees => trees

/-- What an optional expression may grow to. -/
def Expr.weightOption : Option Expr → Nat
  | none => 0
  | some e => Expr.weight 1 e
termination_by structural tree => tree

/-- What a statement may grow to. -/
def Stmt.weight : Stmt → Nat
  | .expr value | .print value => Expr.weight 1 value + 1
  | .var _ initial => Expr.weightOption initial + 1
  | .block body => Stmt.weightAll body + 1
  | .branch condition yes no =>
    Expr.weight 1 condition + Stmt.weight yes + Stmt.weightOption no + 1
  | .loop condition body _ => Expr.weight 1 condition + Stmt.weight body + 1
  | .function _ _ body => Stmt.weightAll body + 1
  | .give _ value => Expr.weightOption value + 1
  | .leave _ | .next _ => 1
termination_by structural tree => tree

/-- What some statements may grow to together. -/
def Stmt.weightAll : List Stmt → Nat
  | [] => 0
  | s :: ss => Stmt.weight s + Stmt.weightAll ss + 1
termination_by structural trees => trees

/-- What an optional statement may grow to. -/
def Stmt.weightOption : Option Stmt → Nat
  | none => 0
  | some s => Stmt.weight s
termination_by structural tree => tree

end

/-! ## §3. Filling and weight. -/

mutual

/-- Heavier placeholders make a heavier expression. -/
theorem Expr.weight_mono {m n : Nat} (h : m ≤ n) :
    (e : Expr) → Expr.weight m e ≤ Expr.weight n e
  | .literal _ => by simp [Expr.weight]
  | .name token => by
    simp only [Expr.weight]
    split <;> omega
  | .unary _ operand => by
    have := Expr.weight_mono h operand
    simp only [Expr.weight]; omega
  | .binary left _ right | .logical left _ right => by
    have := Expr.weight_mono h left
    have := Expr.weight_mono h right
    simp only [Expr.weight]; omega
  | .pipe left _ right => by
    have l := Expr.weight_mono h left
    have := Expr.weight_mono l right
    simp only [Expr.weight]; omega
  | .call callee _ arguments => by
    have := Expr.weight_mono h callee
    have := Expr.weightAll_mono h arguments
    simp only [Expr.weight]; omega
  | .assign _ value => by
    have := Expr.weight_mono h value
    simp only [Expr.weight]; omega
  | .group inner => by
    have := Expr.weight_mono h inner
    simp only [Expr.weight]; omega
  | .function _ _ _ => by simp [Expr.weight]

/-- Heavier placeholders make heavier expressions. -/
theorem Expr.weightAll_mono {m n : Nat} (h : m ≤ n) :
    (es : List Expr) → Expr.weightAll m es ≤ Expr.weightAll n es
  | [] => by simp [Expr.weightAll]
  | e :: es => by
    have := Expr.weight_mono h e
    have := Expr.weightAll_mono h es
    simp only [Expr.weightAll]; omega

end

mutual

/-- Filling the placeholders counts them with the weight of the filling. -/
theorem Expr.weight_fill (n : Nat) (v : Expr) :
    (e : Expr) → Expr.weight n (Expr.fill v e) = Expr.weight (Expr.weight n v) e
  | .literal _ => by simp [Expr.fill, Expr.weight]
  | .name token => by
    simp only [Expr.fill, Expr.weight]
    split <;> simp_all [Expr.weight]
  | .unary _ operand => by
    simp only [Expr.fill, Expr.weight, Expr.weight_fill n v operand]
  | .binary left _ right | .logical left _ right => by
    simp only [Expr.fill, Expr.weight, Expr.weight_fill n v left, Expr.weight_fill n v right]
  | .pipe left _ right => by
    simp only [Expr.fill, Expr.weight, Expr.weight_fill n v left]
  | .call callee _ arguments => by
    simp only [Expr.fill, Expr.weight, Expr.weight_fill n v callee,
      Expr.weightAll_fill n v arguments]
  | .assign _ value => by
    simp only [Expr.fill, Expr.weight, Expr.weight_fill n v value]
  | .group inner => by
    simp only [Expr.fill, Expr.weight, Expr.weight_fill n v inner]
  | .function _ _ _ => by simp [Expr.fill, Expr.weight]

/-- Filling the placeholders of some expressions counts them likewise. -/
theorem Expr.weightAll_fill (n : Nat) (v : Expr) :
    (es : List Expr) → Expr.weightAll n (Expr.fillAll v es) = Expr.weightAll (Expr.weight n v) es
  | [] => by simp [Expr.fillAll, Expr.weightAll]
  | e :: es => by
    simp only [Expr.fillAll, Expr.weightAll, Expr.weight_fill n v e, Expr.weightAll_fill n v es]

end

mutual

/-- Without placeholders of its own an expression has one weight. -/
theorem Expr.weight_of_not_hasOwn (m n : Nat) :
    (e : Expr) → e.hasOwn = false → Expr.weight m e = Expr.weight n e
  | .literal _, _ => by simp [Expr.weight]
  | .name token, h => by simp_all [Expr.hasOwn, Expr.weight]
  | .unary _ operand, h => by
    simp only [Expr.weight, Expr.weight_of_not_hasOwn m n operand (by simpa [Expr.hasOwn] using h)]
  | .binary left _ right, h | .logical left _ right, h => by
    simp only [Expr.hasOwn, Bool.or_eq_false_iff] at h
    simp only [Expr.weight, Expr.weight_of_not_hasOwn m n left h.1,
      Expr.weight_of_not_hasOwn m n right h.2]
  | .pipe left _ right, h => by
    simp only [Expr.weight, Expr.weight_of_not_hasOwn m n left (by simpa [Expr.hasOwn] using h)]
  | .call callee _ arguments, h => by
    simp only [Expr.hasOwn, Bool.or_eq_false_iff] at h
    simp only [Expr.weight, Expr.weight_of_not_hasOwn m n callee h.1,
      Expr.weightAll_of_not_anyOwn m n arguments h.2]
  | .assign _ value, h => by
    simp only [Expr.weight, Expr.weight_of_not_hasOwn m n value (by simpa [Expr.hasOwn] using h)]
  | .group inner, h => by
    simp only [Expr.weight, Expr.weight_of_not_hasOwn m n inner (by simpa [Expr.hasOwn] using h)]
  | .function _ _ _, _ => by simp [Expr.weight]

/-- Without placeholders of their own some expressions have one weight. -/
theorem Expr.weightAll_of_not_anyOwn (m n : Nat) :
    (es : List Expr) → Expr.anyOwn es = false → Expr.weightAll m es = Expr.weightAll n es
  | [], _ => by simp [Expr.weightAll]
  | e :: es, h => by
    simp only [Expr.anyOwn, Bool.or_eq_false_iff] at h
    simp only [Expr.weightAll, Expr.weight_of_not_hasOwn m n e h.1,
      Expr.weightAll_of_not_anyOwn m n es h.2]

end

end Lox
