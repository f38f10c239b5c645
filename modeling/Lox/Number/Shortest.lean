/-
  Lox.Number.Shortest
  ────────────────────────────────
  **THE FEWEST DIGITS THAT READ BACK.**

  The reals that round to a given double form an interval around it.  Among
  the decimals inside the interval, those with the fewest digits are the
  candidates, and of them the one nearest to the double is written.  For each
  digit count only the two grid points next to the double need a look: if any
  point of that grid lies in the interval, so does one of these two.
-/
import Lox.Number.Binary

namespace Lox.Number

/-! ## §1. Decimals. -/

/-- The decimal `0.d₁d₂…dₙ · 10^point`, its digits held as one natural. -/
structure Decimal where
  /-- The digits `d₁d₂…dₙ` as a natural; the last one is not zero unless the
  decimal is zero. -/
  digits : Nat
  /-- The position of the decimal point, counted from before the first digit. -/
  point : Int
  deriving Repr, DecidableEq

/-- The number of decimal digits of a natural; zero has one. -/
def digitCount (n : Nat) : Nat := (Nat.toDigits 10 n).length

/-- Drop the zeros at the end of a natural's digits. -/
def dropZeros (n : Nat) : Nat :=
  if h : n ≠ 0 ∧ n % 10 = 0 then dropZeros (n / 10) else n
termination_by n
decreasing_by omega

/-! ## §2. The interval that rounds to a double. -/

/-- A double with the reals that round to it, counted in quarters of its unit. -/
structure Span where
  /-- The double itself. -/
  value : Nat
  /-- The lower end. -/
  low : Nat
  /-- The upper end. -/
  high : Nat
  /-- Whether the ends themselves round to the double. -/
  closed : Bool
  /-- The exponent of two of the quarter unit. -/
  exponent : Int

/-- The interval around `mantissa · 2^exponent`. An even mantissa wins both
ties, so its interval includes the ends. -/
def Span.around (mantissa : Nat) (exponent : Int) (wideBelow : Bool) : Span where
  value := 4 * mantissa
  low := 4 * mantissa - (if wideBelow then 1 else 2)
  high := 4 * mantissa + 2
  closed := mantissa % 2 = 0
  exponent := exponent - 2

/-- Whether `grid · 10^k` lies in the interval; `num` and `den` give the
quarter unit as the ratio `num / den` of units of `10^k`. -/
def Span.contains (s : Span) (num den grid : Nat) : Bool :=
  if s.closed then s.low * num ≤ grid * den && grid * den ≤ s.high * num
  else s.low * num < grid * den && grid * den < s.high * num

/-- The ratio of `2^q` to `10^k`. -/
def unitRatio (q k : Int) : Nat × Nat :=
  ((if 0 ≤ q then Nat.pow 2 q.toNat else 1) * (if 0 ≤ k then 1 else Nat.pow 10 (-k).toNat),
   (if 0 ≤ q then 1 else Nat.pow 2 (-q).toNat) * (if 0 ≤ k then Nat.pow 10 k.toNat else 1))

/-! ## §3. The search. -/

/-- The point of the grid `10^k` that lies in the interval and is nearest to
the double, if any; a tie goes to the larger one. -/
def Span.onGrid? (s : Span) (k : Int) : Option Nat :=
  let (num, den) := unitRatio s.exponent k
  let below := s.value * num / den
  let rest := s.value * num % den
  let above := if rest = 0 then below else below + 1
  match s.contains num den below, s.contains num den above with
  | true, true => some (if 2 * rest < den then below else above)
  | true, false => some below
  | false, true => some above
  | false, false => none

/-- The position of the decimal point of `value · 2^exponent`. -/
def Span.point (s : Span) : Int :=
  let bits : Int := s.value.log2 + s.exponent
  -- The factor is so close to the logarithm of two that three positions are left.
  let guess : Int := bits * 30103 / 100000
  let (num, den) := unitRatio s.exponent guess
  if s.value * num < den then guess
  else if s.value * num < 10 * den then guess + 1
  else guess + 2

/-- Look at grids of more and more digits until one has a point in the
interval. -/
def Span.search (s : Span) (point : Int) : (digits fuel : Nat) → Option (Nat × Int)
  | _, 0 => none
  | digits, fuel + 1 =>
    match s.onGrid? (point - digits) with
    | some grid => some (grid, point - digits)
    | none => s.search point (digits + 1) fuel

/-- The most digits a double needs to be told from its neighbours. -/
def maxDigits : Nat := 17

/-- **The shortest decimal that reads back** as `mantissa · 2^exponent`. -/
def shortest (mantissa : Nat) (exponent : Int) (wideBelow : Bool) : Decimal :=
  if mantissa = 0 then ⟨0, 1⟩
  else
    let s := Span.around mantissa exponent wideBelow
    match s.search s.point 1 maxDigits with
    -- A grid point may end in zeros when it is a power of ten.
    | some (grid, k) => ⟨dropZeros grid, k + digitCount grid⟩
    | none => ⟨0, 1⟩

end Lox.Number
