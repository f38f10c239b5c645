/-
  Lox.Tree.Draft
  ────────────────────────────────
  **A PROGRAM AND WHAT IS WRONG WITH IT.**

  Reading a program and expanding its pipes both go on after a fault, so that
  all faults come out together.  What they give is a draft: statements, and the
  faults found while making them.  A draft may run only if it has no faults.
-/
import Lox.Fault
import Lox.Tree

namespace Lox

/-- Statements and the faults found while making them. -/
structure Draft where
  statements : List Stmt
  faults : List SyntaxFault

end Lox
