/-
  Lox.Token.Scan
  ────────────────────────────────
  **THE SCAN OF A TEXT, TOLD BY ITS PIECES.**

  A text is cut into pieces from front to back.  Every piece knows the line on
  which it ends: one more than the number of line ends up to there.  A scan of
  a text without faults is its tokens, blanks and comments left out, followed
  by one token for the end.  A text with faults has no tokens; its faults are
  all found in one pass.

  Sources are compiled with a scanner that reads characters and keeps counters
  (`scanTokens`).  It comes to the same as the scan here (`scanTokens_eq`).
-/
import Lox.Token.Piece

namespace Lox

/-! ## §1. Pieces and their lines. -/

/-- A piece of a text, with the line on which it ends. -/
structure Piece where
  shape : Shape
  text : List Char
  line : Nat
  deriving Repr

/-- The number of line ends in a text. -/
def lineEnds (cs : List Char) : Nat := cs.count '\n'

theorem lineEnds_append (cs ds : List Char) : lineEnds (cs ++ ds) = lineEnds cs + lineEnds ds :=
  List.count_append

theorem lineEnds_cons_of_ne {c : Char} (hc : c ≠ '\n') (cs : List Char) :
    lineEnds (c :: cs) = lineEnds cs := List.count_cons_of_ne hc

/-- A stretch of a class without line ends has none. -/
theorem lineEnds_takeWhile {p : Char → Bool} (hp : p '\n' = false) (cs : List Char) :
    lineEnds (cs.takeWhile p) = 0 := by
  refine List.count_eq_zero.2 fun hmem => ?_
  rw [List.all_eq_true.1 List.all_takeWhile '\n' hmem] at hp
  cases hp

/-- The pieces of a text that begins on the given line. -/
def piecesFrom (line : Nat) : List Char → List Piece
  | [] => []
  | c :: cs =>
    let last := line + lineEnds (cut c cs).text
    ⟨(cut c cs).shape, (cut c cs).text, last⟩ :: piecesFrom last (cut c cs).rest
termination_by cs => cs.length
decreasing_by exact rest_length_lt c cs

/-- The pieces of a text make up the text. -/
theorem flatMap_text_piecesFrom (line : Nat) (cs : List Char) :
    (piecesFrom line cs).flatMap Piece.text = cs := by
  fun_induction piecesFrom line cs with
  | case1 => rfl
  | case2 line c cs _ ih =>
    rw [List.flatMap_cons, ih]
    exact text_append_rest c cs

/-- The pieces of a whole text. -/
def pieces (source : String) : List Piece := piecesFrom 1 source.toList

/-! ## §2. Tokens and faults. -/

/-- The token that a piece contributes to a scan. -/
def Piece.token? (p : Piece) : Option Token :=
  match p.shape with
  | .token kind => if kind.isIgnored then none else some ⟨kind, String.ofList p.text, p.line⟩
  | .fault _ => none

/-- The fault that a piece contributes to a scan. -/
def Piece.fault? (p : Piece) : Option ScanFault :=
  match p.shape with
  | .token _ => none
  | .fault cause => some ⟨p.line, cause⟩

/-- The token for the end of a text. -/
def endToken (source : String) : Token := ⟨.endOfInput, "", 1 + lineEnds source.toList⟩

/-- **The scan of a text, told by its pieces:** its tokens and the end, or all of its
faults. -/
def scan (source : String) : Except (List ScanFault) (List Token) :=
  let all := pieces source
  match all.filterMap Piece.fault? with
  | [] => .ok (all.filterMap Piece.token? ++ [endToken source])
  | faults => .error faults

end Lox
