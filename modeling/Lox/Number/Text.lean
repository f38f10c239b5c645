/-
  Lox.Number.Text
  ────────────────────────────────
  **HOW NUMBERS ARE WRITTEN AND READ.**

  The digits of a number come from `shortest`; a `Layout` says how they are set
  out.  Programs print with `Layout.plain`, which never uses an exponent and
  shows an integer without a point.  Inspection uses `Layout.exact`, which
  always shows a point or an exponent.  `ofDecimal` reads the digits of a
  literal back.
-/
import Lox.Number.Shortest

namespace Lox.Number

/-! ## §1. Layouts. -/

/-- The decisions that a written form of numbers leaves open. -/
structure Layout where
  /-- Numbers below `10^least` in absolute value are written with an exponent. -/
  least : Option Int
  /-- So are numbers that reach `10^most`. -/
  most : Option Int
  /-- What follows the digits of an integer. -/
  integerTail : String
  deriving Repr

/-- Positional at every size, and an integer ends with its last digit. -/
def Layout.plain : Layout := ⟨none, none, ""⟩

/-- Positional from `10^-4` up to below `10^16`, and an integer ends in `.0`. -/
def Layout.exact : Layout := ⟨some (-4), some 16, ".0"⟩

/-- Whether a decimal with the point at this position is set with an exponent. -/
def Layout.isScientific (l : Layout) (point : Int) : Bool :=
  l.least.any (point ≤ ·) || l.most.any (· < point)

/-- A run of zeros. -/
def zeros (n : Int) : String := String.ofList (List.replicate n.toNat '0')

/-- Set out a decimal without an exponent. -/
def Decimal.positional (d : Decimal) (integerTail : String) : String :=
  let digits := Nat.toDigits 10 d.digits
  let count : Int := digits.length
  if d.point ≤ 0 then "0." ++ zeros (-d.point) ++ String.ofList digits
  else if count ≤ d.point then String.ofList digits ++ zeros (d.point - count) ++ integerTail
  else
    String.ofList (digits.take d.point.toNat) ++ "." ++ String.ofList (digits.drop d.point.toNat)

/-- Set out a decimal with one digit before the point and an exponent. -/
def Decimal.scientific (d : Decimal) : String :=
  let exponent := toString (d.point - 1)
  match Nat.toDigits 10 d.digits with
  | [] => ""
  | [c] => String.ofList [c] ++ "e" ++ exponent
  | c :: cs => String.ofList [c] ++ "." ++ String.ofList cs ++ "e" ++ exponent

/-- Set out a decimal by a layout. -/
def Layout.set (l : Layout) (d : Decimal) : String :=
  if d.digits ≠ 0 && l.isScientific d.point then d.scientific else d.positional l.integerTail

/-- The text of a number in a layout. -/
def Layout.text (l : Layout) (x : Float) : String :=
  match decode x with
  | .nan => "NaN"
  | .infinite negative => if negative then "-inf" else "inf"
  | .finite negative mantissa exponent wideBelow =>
    (if negative then "-" else "") ++ l.set (shortest mantissa exponent wideBelow)

/-- The text a program prints for a number. -/
def text (x : Float) : String := Layout.plain.text x

/-- The text inspection shows for a number. -/
def exactText (x : Float) : String := Layout.exact.text x

/-! ## §2. Reading. -/

/-- The natural that a run of decimal digits stands for. -/
def ofDigits (digits : List Char) : Nat :=
  digits.foldl (fun n c => 10 * n + (c.toNat - '0'.toNat)) 0

/-- The number nearest to the decimal `whole.fraction`. -/
def ofDecimal (whole fraction : List Char) : Float :=
  nearest (ofDigits (whole ++ fraction)) (Nat.pow 10 fraction.length)

/-- The number that a text stands for: digits with at most one point, and a digit on
one side of it.  A literal has no sign and no exponent, so none is read here. -/
def ofText? (text : List Char) : Option Float :=
  let whole := text.takeWhile Char.isDigit
  match text.dropWhile Char.isDigit with
  | [] => if whole.isEmpty then none else some (ofDecimal whole [])
  | '.' :: fraction =>
    if fraction.all Char.isDigit && !(whole.isEmpty && fraction.isEmpty) then
      some (ofDecimal whole fraction)
    else none
  | _ => none

section OfText

variable {whole fraction : List Char}

theorem ofText?_digits (hwhole : whole.all Char.isDigit = true) (hsome : whole ≠ []) :
    ofText? whole = some (ofDecimal whole []) := by
  have hdigits := List.all_eq_true.1 hwhole
  have htake : (whole ++ []).takeWhile Char.isDigit = whole ++ [] :=
    List.takeWhile_append_of_pos hdigits
  have hdrop : (whole ++ []).dropWhile Char.isDigit = [] := List.dropWhile_append_of_pos hdigits
  rw [List.append_nil] at htake hdrop
  unfold ofText?
  rw [htake, hdrop]
  simp [hsome]

theorem ofText?_point (hwhole : whole.all Char.isDigit = true) (hsome : whole ≠ [])
    (hfraction : fraction.all Char.isDigit = true) :
    ofText? (whole ++ '.' :: fraction) = some (ofDecimal whole fraction) := by
  have hdigits := List.all_eq_true.1 hwhole
  have htake : (whole ++ '.' :: fraction).takeWhile Char.isDigit = whole := by
    rw [List.takeWhile_append_of_pos hdigits, List.takeWhile_cons_of_neg (by decide),
      List.append_nil]
  have hdrop : (whole ++ '.' :: fraction).dropWhile Char.isDigit = '.' :: fraction := by
    rw [List.dropWhile_append_of_pos hdigits, List.dropWhile_cons_of_neg (by decide)]
  unfold ofText?
  rw [htake, hdrop]
  simp [hsome, hfraction]

end OfText

end Lox.Number
