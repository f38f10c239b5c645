/-
  Lox.Proofs.Number.Text
  ────────────────────────────────
  **A PRINTED NUMBER TELLS ITS DOUBLE.**

  `Denotes` says what digits with a point among them stand for.  What a program
  prints for a finite double from zero up is such a text (`text_denotes`), and the
  number that it stands for is in the span of the double.  No number is in two spans,
  so two doubles with the same text are the same (`text_injective`).

  The literals of a program are such doubles, unless they are infinite
  (`toBits_ofDecimal_lt`).
-/
import Lox.Proofs.Number.Spans
import Lox.Proofs.Token.Lexemes
import Mathlib

namespace Lox.Number

/-! ## §1. What digits stand for. -/

/-- A text of digits, possibly with a point among them, and the number it stands for. -/
inductive Denotes : List Char → ℚ → Prop where
  | whole {ds : List Char} (hds : Digits ds) : Denotes ds (ofDigits ds)
  | decimal {ds fs : List Char} (hds : Digits ds) (hfs : Digits fs) :
      Denotes (ds ++ '.' :: fs) (ofDigits (ds ++ fs) / 10 ^ fs.length)

theorem not_digits_of_point (ds fs : List Char) : ¬ Digits (ds ++ '.' :: fs) :=
  fun h => absurd (h.2 '.' (by simp)) (by decide)

/-- A text stands for one number. -/
theorem Denotes.unique {text : List Char} {x y : ℚ} (hx : Denotes text x) (hy : Denotes text y) :
    x = y := by
  generalize htext : text = text' at hy
  cases hx with
  | whole hds =>
    cases hy with
    | whole _ => rw [htext]
    | decimal _ _ => exact absurd (htext ▸ hds) (not_digits_of_point _ _)
  | decimal hds hfs =>
    cases hy with
    | whole hds' => exact absurd (htext ▸ hds') (not_digits_of_point _ _)
    | decimal hds' hfs' =>
      obtain ⟨rfl, hrest⟩ := append_inj_of_stops hds.2 hds'.2 (stops_point _) (stops_point _) htext
      rw [(List.cons.inj hrest).2]

theorem ofDigits_append (ds es : List Char) :
    ofDigits (ds ++ es) = 10 ^ es.length * ofDigits ds + ofDigits es := by
  show Nat.ofDigitChars 10 (ds ++ es) 0 = _
  rw [Nat.ofDigitChars_append, Nat.ofDigitChars_eq_ofDigitChars_zero]
  rfl

theorem ofDigits_zeros (n : Nat) : ofDigits (List.replicate n '0') = 0 :=
  Nat.ofDigitChars_replicate_zero

theorem ofDigits_toDigits (n : Nat) : ofDigits (Nat.toDigits 10 n) = n :=
  Nat.ofDigitChars_ten_toDigits

theorem digits_toDigits (n : Nat) : Digits (Nat.toDigits 10 n) :=
  ⟨Nat.toDigits_ne_nil, fun _ hd => Nat.isDigit_of_mem_toDigits (by decide) (by decide) hd⟩

theorem isDigit_of_mem_zeros {n : Nat} {d : Char} (h : d ∈ List.replicate n '0') :
    d.isDigit = true := by
  rw [List.eq_of_mem_replicate h]
  rfl

/-! ## §2. Decimals as they are set out. -/

/-- The number that a decimal is. -/
def Decimal.value (d : Decimal) : ℚ := d.digits * 10 ^ (d.point - digitCount d.digits)

/-- Zeros at the end of the digits make no difference to the value. -/
theorem value_dropZeros (g : Nat) (k : Int) :
    (⟨dropZeros g, k + digitCount g⟩ : Decimal).value = g * 10 ^ k := by
  fun_induction dropZeros g generalizing k with
  | case1 n h ih =>
    have hcount : digitCount n = digitCount (n / 10) + 1 := by
      unfold digitCount
      rw [Nat.toDigits_of_base_le (by decide) (by omega), List.length_append, List.length_singleton]
    have hdigits : (n : ℚ) = (n / 10 : Nat) * 10 := by
      exact_mod_cast (by omega : n = n / 10 * 10)
    calc (⟨dropZeros (n / 10), k + digitCount n⟩ : Decimal).value
        = (⟨dropZeros (n / 10), k + 1 + digitCount (n / 10)⟩ : Decimal).value := by
          rw [hcount]
          congr 2
          omega
      _ = (n / 10 : Nat) * 10 ^ (k + 1) := ih (k + 1)
      _ = n * 10 ^ k := by
          rw [zpow_add_one₀ (by norm_num), hdigits]
          ring
  | case2 n h =>
    unfold Decimal.value
    rw [add_sub_cancel_right]

/-- Digits with a point among them are counted in the power of ten of the last one. -/
theorem Denotes.of_point {ds fs : List Char} (hds : Digits ds) (hfs : Digits fs) {n : Nat}
    {k : Int} (hn : ofDigits (ds ++ fs) = n) (hk : k = -fs.length) :
    Denotes (ds ++ '.' :: fs) (n * 10 ^ k) := by
  rw [hk, zpow_neg, zpow_natCast, ← div_eq_mul_inv, ← hn]
  exact .decimal hds hfs

/-- **A decimal without an exponent stands for its value.** -/
theorem Decimal.positional_denotes (d : Decimal) :
    Denotes (d.positional "").toList d.value := by
  obtain ⟨n, point⟩ := d
  have hdigits := digits_toDigits n
  have hvalue := ofDigits_toDigits n
  simp only [positional, value, digitCount]
  generalize Nat.toDigits 10 n = digits at hdigits hvalue
  split
  · next hpoint =>
    -- All digits are behind the point.
    have hfraction : Digits (List.replicate (-point).toNat '0' ++ digits) :=
      ⟨by simp [hdigits.1], List.forall_mem_append.2 ⟨fun _ => isDigit_of_mem_zeros, hdigits.2⟩⟩
    have hn : ofDigits (['0'] ++ (List.replicate (-point).toNat '0' ++ digits)) = n := by
      have hzero : ofDigits ['0'] = 0 := rfl
      rw [ofDigits_append, ofDigits_append, ofDigits_zeros, hzero, hvalue, Nat.mul_zero,
        Nat.mul_zero, Nat.zero_add, Nat.zero_add]
    have h := Denotes.of_point (k := point - digits.length) ⟨by decide, by simp⟩ hfraction hn <| by
      rw [List.length_append, List.length_replicate]
      omega
    simpa [zeros] using h
  · split
    · next hpoint hcount =>
      -- Zeros fill up the places in front of the point.
      have hwhole : Digits (digits ++ List.replicate (point - digits.length).toNat '0') :=
        ⟨by simp [hdigits.1], List.forall_mem_append.2 ⟨hdigits.2, fun _ => isDigit_of_mem_zeros⟩⟩
      have hn : (ofDigits (digits ++ List.replicate (point - digits.length).toNat '0') : ℚ) =
          n * 10 ^ (point - digits.length) := by
        rw [ofDigits_append, ofDigits_zeros, hvalue, List.length_replicate, Nat.add_zero,
          Nat.cast_mul, Nat.cast_pow, Nat.cast_ofNat, ← zpow_natCast,
          Int.toNat_of_nonneg (by omega), mul_comm]
      rw [← hn]
      simpa [zeros] using Denotes.whole hwhole
    · next hpoint hcount =>
      -- The point is among the digits.
      have hsplit : point.toNat < digits.length := by omega
      have hds : Digits (digits.take point.toNat) :=
        ⟨by simp [hdigits.1]; omega, fun d hd => hdigits.2 d (List.mem_of_mem_take hd)⟩
      have hfs : Digits (digits.drop point.toNat) :=
        ⟨by simpa using hsplit, fun d hd => hdigits.2 d (List.mem_of_mem_drop hd)⟩
      have hn : ofDigits (digits.take point.toNat ++ digits.drop point.toNat) = n := by
        rw [List.take_append_drop, hvalue]
      have h := Denotes.of_point (k := point - digits.length) hds hfs hn <| by
        rw [List.length_drop]
        omega
      simpa using h

/-! ## §3. The text of a double. -/

theorem holds_zero : (spanOf 0).Holds 0 := by
  unfold Span.Holds
  rw [if_pos ((closed_spanOf 0).2 rfl)]
  constructor
  · show ((4 * 0 - 2 : Nat) : ℚ) * _ ≤ 0
    simp
  · show (0 : ℚ) ≤ (2 : Nat) * 2 ^ _
    positivity

/-- The text of a finite double stands for a number of its span. -/
theorem text_denotes {x : Float} (h : x.toBits.toNat < infinityBits) :
    ∃ r, Denotes (text x).toList r ∧ (spanOf x.toBits.toNat).Holds r := by
  have htext : text x = (shortest (mantissa x.toBits.toNat) (unitOf x.toBits.toNat)
      (isWide x.toBits.toNat)).positional "" := by
    unfold text Layout.text decode
    rw [decodeBits_eq h]
    simp [Layout.set, Layout.plain, Layout.isScientific]
  rw [htext]
  refine ⟨_, Decimal.positional_denotes _, ?_⟩
  rcases Nat.eq_zero_or_pos x.toBits.toNat with hzero | hpos
  · have hvalue : (shortest (mantissa 0) (unitOf 0) (isWide 0)).value = 0 := by
      show ((0 : Nat) : ℚ) * _ = 0
      rw [Nat.cast_zero, zero_mul]
    rw [hzero, hvalue]
    exact holds_zero
  · obtain ⟨g, k, hshortest, hholds⟩ := shortest_holds hpos h
    rw [hshortest, value_dropZeros]
    exact hholds

theorem eq_of_toBits_eq {x y : Float} (h : x.toBits = y.toBits) : x = y := by
  obtain ⟨⟨b, hb⟩⟩ := x
  obtain ⟨⟨c, hc⟩⟩ := y
  obtain rfl : b = c := h
  rfl

/-- **A double is told by its text.** -/
theorem text_injective {x y : Float} (hx : x.toBits.toNat < infinityBits)
    (hy : y.toBits.toNat < infinityBits) (htext : text x = text y) : x = y := by
  obtain ⟨r, hr, hholds⟩ := text_denotes hx
  obtain ⟨r', hr', hholds'⟩ := text_denotes hy
  rw [htext] at hr
  have hbits := eq_of_holds hholds (hr.unique hr' ▸ hholds')
  exact eq_of_toBits_eq (UInt64.toNat_inj.1 hbits)

/-! ## §4. The doubles of literals. -/

section Bits

open Float.Model (Format UnpackedFloat)
open Float.Model.UnpackedFloat

variable {b : BitVec Format.binary64.numBits}

theorem msb_packComponents (e : BitVec 11) (m : BitVec 52) :
    (packComponents Format.binary64 .positive e m).msb = false := by
  unfold packComponents
  rw [BitVec.msb_append, BitVec.msb_append]
  rfl

theorem unpackSign_of_msb (h : b.msb = false) : unpackSign b = 0#1 := by
  rw [BitVec.msb_eq_getLsbD_last] at h
  ext i hi
  obtain rfl : i = 0 := by omega
  simpa [unpackSign] using h

/-- A double without a sign keeps none. -/
theorem msb_pack_unpack (h : b.msb = false) :
    (pack Format.binary64 (unpack Format.binary64 b)).msb = false := by
  have hsign : Sign.ofBitVec (unpackSign b) = .positive := by
    rw [unpackSign_of_msb h]
    rfl
  -- Whether a number is rounded to infinity does not matter for its sign.
  have hfinite : ∀ m e hm, (pack Format.binary64 (.finite .positive m e hm)).msb = false := by
    intro m e hm
    simp only [pack]
    split
    · exact msb_packComponents _ _
    · split <;> exact msb_packComponents _ _
  simp only [unpack, hsign]
  split
  · split <;> exact msb_packComponents _ _
  · split
    · split
      · exact msb_packComponents _ _
      · exact hfinite _ _ _
    · exact hfinite _ _ _

/-- A double with a full exponent field is no number or infinite. -/
theorem isFinite_unpack_of_field (h : b.toNat / 2 ^ 52 % 2 ^ 11 = 2 ^ 11 - 1) :
    (unpack Format.binary64 b).isFinite = false := by
  have hfull : unpackExponent b = -1#11 := by
    apply BitVec.eq_of_toNat_eq
    simpa [unpackExponent, Nat.shiftRight_eq_div_pow] using h
  simp only [unpack, if_pos hfull]
  split <;> rfl

end Bits

theorem toNat_toBits_ofBits_lt {n : UInt64} (h : n.toNat < 2 ^ 63) :
    (Float.ofBits n).toBits.toNat < 2 ^ 63 := by
  have hmsb : n.toBitVec.msb = false := by
    rw [BitVec.msb_eq_false_iff_two_mul_lt]
    show 2 * n.toNat < 2 ^ 64
    omega
  have hlt : 2 * (Float.ofBits n).toBits.toNat < 2 ^ 64 :=
    BitVec.msb_eq_false_iff_two_mul_lt.1 (msb_pack_unpack hmsb)
  omega

/-- **A finite literal is a finite double from zero up.** -/
theorem toBits_ofDecimal_lt {ds fs : List Char} (h : (ofDecimal ds fs).isFinite = true) :
    (ofDecimal ds fs).toBits.toNat < infinityBits := by
  have hbits : nearestBits (ofDigits (ds ++ fs)) (Nat.pow 10 fs.length) ≤ infinityBits := by
    unfold nearestBits
    split
    · decide
    · exact Nat.min_le_left _ _
  have hsign : (ofDecimal ds fs).toBits.toNat < 2 ^ 63 := by
    apply toNat_toBits_ofBits_lt
    calc (nearestBits (ofDigits (ds ++ fs)) (Nat.pow 10 fs.length)).toUInt64.toNat
        ≤ nearestBits (ofDigits (ds ++ fs)) (Nat.pow 10 fs.length) := Nat.mod_le _ _
      _ ≤ infinityBits := hbits
      _ < 2 ^ 63 := by decide
  have hfield : (ofDecimal ds fs).toBits.toNat / 2 ^ 52 % 2 ^ 11 ≠ 2 ^ 11 - 1 := by
    intro hfull
    exact absurd h (Bool.eq_false_iff.1 (isFinite_unpack_of_field hfull))
  show _ < 2047 * 2 ^ 52
  omega

end Lox.Number
