/-
  Lox.Journal
  ────────────────────────────────
  **WHAT HAS BEEN REPORTED.**

  A journal collects diagnostics in the order in which they are found.  Faults
  of the text and of the grammar set a flag that nothing clears; a fault of the
  running program is listed with the others and sets no flag.
-/
import Lox.Fault

namespace Lox

/-- A reported fault. -/
inductive Diagnostic where
  | scan (fault : ScanFault)
  | grammar (fault : SyntaxFault)
  | runtime (fault : RuntimeFault)
  deriving Repr, DecidableEq

namespace Diagnostic

/-- The chunks in which a diagnostic is written. -/
def chunks : Diagnostic → List String
  | scan fault => fault.chunks
  | grammar fault => fault.chunks
  | runtime fault => fault.chunks

/-- The text of a diagnostic. -/
def text (d : Diagnostic) : String := String.join d.chunks

/-- The line of a diagnostic. -/
def line : Diagnostic → Nat
  | scan fault => fault.line
  | grammar fault => fault.line
  | runtime fault => fault.line

/-- Whether a diagnostic was found before the program ran. -/
def isStatic : Diagnostic → Bool
  | runtime _ => false
  | _ => true

end Diagnostic

/-- The diagnostics reported so far, and whether one of them was found before
the program ran. -/
structure Journal where
  entries : List Diagnostic
  flagged : Bool
  deriving Repr

namespace Journal

/-- A journal without entries. -/
def empty : Journal := ⟨[], false⟩

/-- Report a diagnostic. -/
def report (j : Journal) (d : Diagnostic) : Journal :=
  ⟨j.entries ++ [d], j.flagged || d.isStatic⟩

/-- Report diagnostics one after the other. -/
def reportAll (j : Journal) (ds : List Diagnostic) : Journal := ds.foldl report j

/-- How many of the entries were found before the program ran. -/
def staticCount (j : Journal) : Nat := j.entries.countP Diagnostic.isStatic

/-- Take the entries out; the flag stays. -/
def drain (j : Journal) : List Diagnostic × Journal := (j.entries, { j with entries := [] })

end Journal

end Lox
