/-
  Lox.Number.Binary
  ────────────────────────────────
  **THE EXACT VALUE BEHIND A DOUBLE.**

  Every finite double is `m · 2^q` for a natural `m` and an integer `q`.
  `decode` reads the pair off the 64 bits; `nearest` goes the other way and
  gives the bits of the double closest to a positive ratio `num / den`, ties
  going to the even mantissa.  Both work in exact `Nat` arithmetic, so what a
  decimal literal means and how a double is written never hang on an
  approximation.
-/

namespace Lox.Number

/-! ## §1. Reading the bits. -/

/-- What the 64 bits of a double stand for. -/
inductive Decoded where
  /-- Not a number. -/
  | nan
  /-- An infinity. -/
  | infinite (negative : Bool)
  /-- The number `± mantissa · 2^exponent`. `wideBelow` tells that the next
  double towards zero is half as far away as the next one outwards. -/
  | finite (negative : Bool) (mantissa : Nat) (exponent : Int) (wideBelow : Bool)
  deriving Repr, DecidableEq

/-- The number of fraction bits. -/
def fractionBits : Nat := 52

/-- The exponent of the unit in which the smallest doubles are counted. -/
def leastExponent : Int := -1074

/-- Split the bits of a double into sign, mantissa and exponent. -/
def decodeBits (bits : Nat) : Decoded :=
  let negative := Nat.pow 2 63 ≤ bits
  let field := bits / Nat.pow 2 fractionBits % Nat.pow 2 11
  let fraction := bits % Nat.pow 2 fractionBits
  if field = Nat.pow 2 11 - 1 then
    if fraction = 0 then .infinite negative else .nan
  else if field = 0 then .finite negative fraction leastExponent false
  else
    .finite negative (Nat.pow 2 fractionBits + fraction) (leastExponent + (field - 1 : Nat))
      (fraction = 0 && 1 < field)

/-- The exact value of a double. -/
def decode (x : Float) : Decoded :=
  decodeBits x.toBits.toNat

/-! ## §2. The double nearest to a ratio. -/

/-- `num / den` rounded to the nearest natural, a half going to the even one. -/
def roundHalfEven (num den : Nat) : Nat :=
  let quotient := num / den
  let twice := 2 * (num % den)
  if twice < den then quotient
  else if den < twice then quotient + 1
  else quotient + quotient % 2

/-- The ratio `num / den` counted in units of `2^q`, as a ratio again. -/
def inUnits (num den : Nat) (q : Int) : Nat × Nat :=
  if 0 ≤ q then (num, den * Nat.pow 2 q.toNat) else (num * Nat.pow 2 (-q).toNat, den)

/-- The exponent of the unit in which the ratio has 53 bits, or the least
exponent where it is too small for that. -/
def unitExponent (num den : Nat) : Int :=
  let guess := max leastExponent ((num.log2 : Int) - den.log2 - 53)
  -- Counted in this unit the ratio has 53 or 54 bits, or fewer at the least exponent.
  let (n, d) := inUnits num den guess
  if n / d < Nat.pow 2 (fractionBits + 1) then guess else guess + 1

/-- The bits of positive infinity. -/
def infinityBits : Nat := 0x7ff0000000000000

/-- The bits of the double nearest to the ratio `num / den`; beyond the
largest double this is infinity. -/
def nearestBits (num den : Nat) : Nat :=
  if num = 0 then 0
  else
    let q := unitExponent num den
    let (n, d) := inUnits num den q
    -- The leading bit of the mantissa adds one to the exponent field, and a
    -- mantissa that was rounded up to 54 bits adds one more.
    min infinityBits
      ((q - leastExponent).toNat * Nat.pow 2 fractionBits + roundHalfEven n d)

/-- The double nearest to the ratio `num / den`. -/
def nearest (num den : Nat) : Float :=
  Float.ofBits (nearestBits num den).toUInt64

end Lox.Number
