/-
  Lox.Proofs.Pipe.Shape
  ────────────────────────────────
  **EXPANSION KEEPS THE SHAPE OF TREES.**

  A flat tree has the operators, targets, loops and function bodies of the tree
  it comes from, at the same places, so it is well formed if that tree is.  What
  a placeholder is filled with may stand wherever an expression may.
-/
import Lox.Proofs.Pipe.Flatten
import Lox.Proofs.Shape

namespace Lox

open Parse (Context)

/-! ## §1. Filling. -/

mutual

theorem Expr.fill_wellFormed {v : Expr} (hv : v.WellFormed) :
    (e : Expr) → e.WellFormed → (Expr.fill v e).WellFormed
  | .literal _, h => h
  | .name token, h => by
    unfold Expr.fill
    by_cases hd : token.isSymbol .dollar = true
    · rw [if_pos hd]
      exact hv
    · rw [if_neg hd]
      exact h
  | .unary _ operand, h => ⟨h.1, Expr.fill_wellFormed hv operand h.2⟩
  | .binary left _ right, h =>
    ⟨h.1, Expr.fill_wellFormed hv left h.2.1, Expr.fill_wellFormed hv right h.2.2⟩
  | .logical left _ right, h =>
    ⟨h.1, Expr.fill_wellFormed hv left h.2.1, Expr.fill_wellFormed hv right h.2.2⟩
  | .pipe left _ _, h => ⟨h.1, Expr.fill_wellFormed hv left h.2.1, h.2.2⟩
  | .call callee _ arguments, h =>
    ⟨Expr.fill_wellFormed hv callee h.1, Expr.fillAll_wellFormed hv arguments h.2⟩
  | .assign _ value, h => ⟨h.1, Expr.fill_wellFormed hv value h.2⟩
  | .group inner, h => Expr.fill_wellFormed hv inner h
  | .function _ _ _, h => h

theorem Expr.fillAll_wellFormed {v : Expr} (hv : v.WellFormed) :
    (es : List Expr) → Expr.AllWellFormed es → Expr.AllWellFormed (Expr.fillAll v es)
  | [], _ => trivial
  | e :: es, h => ⟨Expr.fill_wellFormed hv e h.1, Expr.fillAll_wellFormed hv es h.2⟩

end

/-! ## §2. Flattening. -/

theorem Stmt.isDeclaration_flat (s : Stmt) : s.flat.isDeclaration = s.isDeclaration := by
  cases s <;> simp only [Stmt.flat, Stmt.isDeclaration]

/-- The step of a loop stays at the end of its body. -/
theorem Stmt.endsWithStep_flat {s : Stmt} (h : s.endsWithStep = true) :
    s.flat.endsWithStep = true := by
  unfold Stmt.endsWithStep at h
  split at h
  · next first value =>
    simp only [Stmt.flat, Stmt.flatAll, Stmt.endsWithStep, Stmt.isDeclaration_flat, h]
  · exact Bool.noConfusion h

mutual

/-- **A flat expression is well formed if the expression is.** -/
theorem Expr.flat_wellFormed : (e : Expr) → e.WellFormed → e.flat.WellFormed
  | .literal _, h => h
  | .name _, h => h
  | .unary _ operand, h => ⟨h.1, Expr.flat_wellFormed operand h.2⟩
  | .binary left _ right, h =>
    ⟨h.1, Expr.flat_wellFormed left h.2.1, Expr.flat_wellFormed right h.2.2⟩
  | .logical left _ right, h =>
    ⟨h.1, Expr.flat_wellFormed left h.2.1, Expr.flat_wellFormed right h.2.2⟩
  | .pipe left _ right, h =>
    Expr.fill_wellFormed (Expr.flat_wellFormed left h.2.1) right.flat
      (Expr.flat_wellFormed right h.2.2)
  | .call callee _ arguments, h =>
    ⟨Expr.flat_wellFormed callee h.1, Expr.flatAll_wellFormed arguments h.2⟩
  | .assign _ value, h => ⟨h.1, Expr.flat_wellFormed value h.2⟩
  | .group inner, h => Expr.flat_wellFormed inner h
  | .function _ _ body, h => Stmt.flatAll_wellFormed body h

theorem Expr.flatAll_wellFormed :
    (es : List Expr) → Expr.AllWellFormed es → Expr.AllWellFormed (Expr.flatAll es)
  | [], _ => trivial
  | e :: es, h => ⟨Expr.flat_wellFormed e h.1, Expr.flatAll_wellFormed es h.2⟩

theorem Expr.flatOption_wellFormed :
    (o : Option Expr) → Expr.OptionWellFormed o → Expr.OptionWellFormed (Expr.flatOption o)
  | none, _ => trivial
  | some e, h => Expr.flat_wellFormed e h

theorem Stmt.flat_wellFormed {ctx : Context} :
    (s : Stmt) → s.WellFormed ctx → s.flat.WellFormed ctx
  | .expr value, h => Expr.flat_wellFormed value h
  | .print value, h => Expr.flat_wellFormed value h
  | .var _ initial, h => ⟨h.1, Expr.flatOption_wellFormed initial h.2⟩
  | .block body, h => Stmt.flatAll_wellFormed body h
  | .branch condition yes no, h => by
    obtain ⟨hc, ⟨hd, hy⟩, hn⟩ := h
    have hdecl : yes.flat.isDeclaration = false := by rw [Stmt.isDeclaration_flat, hd]
    exact ⟨Expr.flat_wellFormed condition hc, ⟨hdecl, Stmt.flat_wellFormed yes hy⟩,
      Stmt.flatOption_wellFormed no hn⟩
  | .loop condition body _, h => by
    obtain ⟨hc, ⟨hd, hb⟩, hs⟩ := h
    have hdecl : body.flat.isDeclaration = false := by rw [Stmt.isDeclaration_flat, hd]
    exact ⟨Expr.flat_wellFormed condition hc, ⟨hdecl, Stmt.flat_wellFormed body hb⟩,
      fun hi => Stmt.endsWithStep_flat (hs hi)⟩
  | .function _ _ body, h => ⟨h.1, Stmt.flatAll_wellFormed body h.2⟩
  | .give _ value, h => ⟨h.1, Expr.flatOption_wellFormed value h.2⟩
  | .leave _, h => h
  | .next _, h => h

theorem Stmt.flatAll_wellFormed {ctx : Context} :
    (ss : List Stmt) → Stmt.AllWellFormed ctx ss → Stmt.AllWellFormed ctx (Stmt.flatAll ss)
  | [], _ => trivial
  | s :: ss, h => ⟨Stmt.flat_wellFormed s h.1, Stmt.flatAll_wellFormed ss h.2⟩

theorem Stmt.flatOption_wellFormed {ctx : Context} :
    (o : Option Stmt) → Stmt.OptionWellFormed ctx o → Stmt.OptionWellFormed ctx (Stmt.flatOption o)
  | none, _ => trivial
  | some s, h => by
    have hdecl : s.flat.isDeclaration = false := by rw [Stmt.isDeclaration_flat, h.1]
    exact ⟨hdecl, Stmt.flat_wellFormed s h.2⟩

end

end Lox
