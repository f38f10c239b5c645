/-
  Lox.Proofs.Number.Spans
  ────────────────────────────────
  **THE NUMBERS THAT ROUND TO A DOUBLE.**

  The bits of the doubles from zero up are numbered in the order of the doubles.
  Every double has a span of rational numbers around it; the upper end of the span
  of one is the lower end of the span of the next (`lower_succ`), and of two doubles
  with a common end only one, the even one, has it in its span.  So no number is in
  the spans of two doubles (`eq_of_holds`).

  The search for the shortest decimal stays in the span (`Span.search_holds`), and it
  always comes to an end with one (`shortest_holds`): a grid of seventeen digits is
  finer than any span is wide (`seventeen_digits`).
-/
import Lox.Number.Shortest
import Mathlib.Algebra.Order.Field.Power
import Mathlib.Tactic.Linarith
import Mathlib.Tactic.NormNum
import Mathlib.Tactic.Positivity
import Mathlib.Tactic.Ring

namespace Lox.Number

/-! ## §1. Doubles from zero up, by their bits. -/

/-- How many times the unit of a double is twice the least one. -/
def scale (b : Nat) : Nat := b / 2 ^ 52 - 1

/-- The mantissa of a double. -/
def mantissa (b : Nat) : Nat := b - scale b * 2 ^ 52

/-- The exponent of the unit of a double. -/
def unitOf (b : Nat) : Int := leastExponent + scale b

/-- Whether the double below is half as far away as the one above. -/
def isWide (b : Nat) : Bool := mantissa b = 2 ^ 52 && 0 < scale b

variable {b c : Nat}

/-- The bits of a double are read as these parts. -/
theorem decodeBits_eq (h : b < infinityBits) :
    decodeBits b = .finite false (mantissa b) (unitOf b) (isWide b) := by
  have hlt : b < 2047 * 2 ^ 52 := h
  have hfield : b / 2 ^ 52 % 2 ^ 11 = b / 2 ^ 52 := by omega
  show (if b / 2 ^ 52 % 2 ^ 11 = 2 ^ 11 - 1 then
      if b % 2 ^ 52 = 0 then Decoded.infinite (2 ^ 63 ≤ b) else .nan
    else if b / 2 ^ 52 % 2 ^ 11 = 0 then .finite (2 ^ 63 ≤ b) (b % 2 ^ 52) leastExponent false
    else .finite (2 ^ 63 ≤ b) (2 ^ 52 + b % 2 ^ 52)
      (leastExponent + (b / 2 ^ 52 % 2 ^ 11 - 1 : Nat))
      (b % 2 ^ 52 = 0 && 1 < b / 2 ^ 52 % 2 ^ 11)) = _
  rw [hfield, if_neg (by omega), decide_eq_false (by omega : ¬ 2 ^ 63 ≤ b)]
  split
  · next hzero =>
    have hscale : scale b = 0 := by unfold scale; omega
    have hmantissa : mantissa b = b % 2 ^ 52 := by unfold mantissa; omega
    simp [isWide, unitOf, hscale, hmantissa]
  · next hsome =>
    have hmantissa : mantissa b = 2 ^ 52 + b % 2 ^ 52 := by unfold mantissa scale; omega
    have hwide : (b % 2 ^ 52 = 0 && 1 < b / 2 ^ 52 : Bool) = isWide b := by
      rw [Bool.eq_iff_iff]
      simp only [isWide, hmantissa, Bool.and_eq_true, decide_eq_true_eq]
      unfold scale
      omega
    rw [hwide, hmantissa]
    rfl

theorem mantissa_lt (b : Nat) : mantissa b < 2 ^ 53 := by
  unfold mantissa scale
  omega

theorem mantissa_pos (h : 0 < b) : 0 < mantissa b := by
  unfold mantissa scale
  omega

theorem mantissa_mod_two (b : Nat) : mantissa b % 2 = b % 2 := by
  unfold mantissa scale
  omega

/-- The parts of the next double. -/
theorem parts_succ (b : Nat) :
    (scale (b + 1) = scale b ∧ mantissa (b + 1) = mantissa b + 1 ∧ isWide (b + 1) = false) ∨
      (scale (b + 1) = scale b + 1 ∧ mantissa (b + 1) = 2 ^ 52 ∧ mantissa b + 1 = 2 ^ 53 ∧
        isWide (b + 1) = true) := by
  simp only [isWide, Bool.and_eq_true, Bool.and_eq_false_iff, decide_eq_true_eq,
    decide_eq_false_iff_not]
  unfold mantissa scale
  omega

/-! ## §2. Spans. -/

/-- The span of a double, as the search takes it. -/
def spanOf (b : Nat) : Span := .around (mantissa b) (unitOf b) (isWide b)

/-- The lower end of a span. -/
def Span.lower (s : Span) : ℚ := s.low * 2 ^ s.exponent

/-- The upper end of a span. -/
def Span.upper (s : Span) : ℚ := s.high * 2 ^ s.exponent

/-- The numbers in a span. The ends themselves may belong to it or not. -/
def Span.Holds (s : Span) (x : ℚ) : Prop :=
  if s.closed then s.lower ≤ x ∧ x ≤ s.upper else s.lower < x ∧ x < s.upper

theorem Span.Holds.le {s : Span} {x : ℚ} (h : s.Holds x) : s.lower ≤ x ∧ x ≤ s.upper := by
  unfold Holds at h
  split at h
  · exact h
  · exact ⟨h.1.le, h.2.le⟩

/-- Only a span with its ends holds one of them. -/
theorem Span.Holds.closed {s : Span} {x : ℚ} (h : s.Holds x) (hend : x = s.lower ∨ x = s.upper) :
    s.closed = true := by
  by_contra hopen
  unfold Holds at h
  rw [if_neg hopen] at h
  rcases hend with rfl | rfl
  · exact lt_irrefl _ h.1
  · exact lt_irrefl _ h.2

theorem lower_lt_upper (b : Nat) : (spanOf b).lower < (spanOf b).upper := by
  have hlow : (spanOf b).low < (spanOf b).high := by
    show 4 * mantissa b - _ < 4 * mantissa b + 2
    omega
  have hunit : (0 : ℚ) < 2 ^ (spanOf b).exponent := by positivity
  exact mul_lt_mul_of_pos_right (Nat.cast_lt.2 hlow) hunit

/-- **A span begins where the one before it ends.** -/
theorem lower_succ (b : Nat) : (spanOf (b + 1)).lower = (spanOf b).upper := by
  unfold Span.lower Span.upper spanOf Span.around
  rcases parts_succ b with ⟨hscale, hmantissa, hwide⟩ | ⟨hscale, hmantissa, hlast, hwide⟩
  · have hlow : 4 * (mantissa b + 1) - 2 = 4 * mantissa b + 2 := by omega
    simp only [unitOf, hscale, hmantissa, hwide, Bool.false_eq_true, if_false, hlow]
  · -- The largest mantissa is followed by the smallest one of twice the unit.
    have hlow : 4 * 2 ^ 52 - 1 = 2 ^ 54 - 1 := by norm_num
    have hhigh : 4 * mantissa b + 2 = 2 * (2 ^ 54 - 1) := by omega
    have hunit : unitOf (b + 1) - 2 = unitOf b - 2 + 1 := by
      unfold unitOf
      rw [hscale]
      omega
    simp only [hunit, hmantissa, hwide, if_true, hlow, hhigh]
    rw [zpow_add_one₀ two_ne_zero, Nat.cast_mul, Nat.cast_ofNat]
    ring

theorem strictMono_lower : StrictMono fun b => (spanOf b).lower := by
  refine strictMono_nat_of_lt_succ fun b => ?_
  show (spanOf b).lower < (spanOf (b + 1)).lower
  rw [lower_succ]
  exact lower_lt_upper b

theorem closed_spanOf (b : Nat) : (spanOf b).closed = true ↔ b % 2 = 0 := by
  rw [← mantissa_mod_two]
  exact decide_eq_true_iff

theorem not_holds_of_lt {x : ℚ} (hlt : b < c) (hb : (spanOf b).Holds x) :
    ¬ (spanOf c).Holds x := by
  intro hc
  have hends : (spanOf b).upper ≤ (spanOf c).lower := by
    rw [← lower_succ]
    exact strictMono_lower.monotone hlt
  have hupper : x = (spanOf b).upper := le_antisymm hb.le.2 (hends.trans hc.le.1)
  have hlower : x = (spanOf c).lower := le_antisymm (hb.le.2.trans hends) hc.le.1
  -- A common end makes the two neighbours, and it belongs to one of them only.
  have hnext : b + 1 = c := by
    apply strictMono_lower.injective
    show (spanOf (b + 1)).lower = (spanOf c).lower
    rw [lower_succ, ← hupper, hlower]
  have hevenLow := (closed_spanOf b).1 (hb.closed (.inr hupper))
  have hevenHigh := (closed_spanOf c).1 (hc.closed (.inl hlower))
  omega

/-- **No number is in the spans of two doubles.** -/
theorem eq_of_holds {x : ℚ} (hb : (spanOf b).Holds x) (hc : (spanOf c).Holds x) : b = c := by
  rcases lt_trichotomy b c with hlt | heq | hgt
  · exact absurd hc (not_holds_of_lt hlt hb)
  · exact heq
  · exact absurd hb (not_holds_of_lt hgt hc)

/-! ## §3. Grids of powers of ten. -/

section Grid

variable {q k : Int} {a g : Nat}

/-- A power of an integral exponent, as a ratio of powers. -/
theorem cast_positive_part (a : Nat) (ha : a ≠ 0) (q : Int) :
    ((if 0 ≤ q then Nat.pow a q.toNat else 1 : Nat) : ℚ) =
      (a : ℚ) ^ q * (if 0 ≤ q then 1 else Nat.pow a (-q).toNat : Nat) := by
  have ha' : (a : ℚ) ≠ 0 := Nat.cast_ne_zero.2 ha
  split
  · next hq =>
    have hpow : (a : ℚ) ^ q = (a : ℚ) ^ q.toNat := by
      rw [← zpow_natCast, Int.toNat_of_nonneg hq]
    rw [hpow, Nat.pow_eq, Nat.cast_pow, Nat.cast_one, mul_one]
  · next hq =>
    have hpow : (a : ℚ) ^ (-q).toNat = (a : ℚ) ^ (-q) := by
      rw [← zpow_natCast, Int.toNat_of_nonneg (by omega)]
    rw [Nat.pow_eq, Nat.cast_pow, hpow, ← zpow_add₀ ha', add_neg_cancel, zpow_zero, Nat.cast_one]

theorem unitRatio_pos (q k : Int) : 0 < (unitRatio q k).1 ∧ 0 < (unitRatio q k).2 := by
  have htwo (n : Nat) : 0 < Nat.pow 2 n := Nat.pow_pos (by decide)
  have hten (n : Nat) : 0 < Nat.pow 10 n := Nat.pow_pos (by decide)
  unfold unitRatio
  constructor <;> apply Nat.mul_pos <;> split <;> simp only [htwo, hten, Nat.one_pos]

/-- The ratio of a power of two to a power of ten. -/
theorem unitRatio_eq (q k : Int) :
    ((unitRatio q k).1 : ℚ) * 10 ^ k = (unitRatio q k).2 * 2 ^ q := by
  unfold unitRatio
  have htwo := cast_positive_part 2 (by decide) q
  have hten := cast_positive_part 10 (by decide) k
  rw [Nat.cast_ofNat] at htwo hten
  rw [Nat.cast_mul, Nat.cast_mul, htwo, hten]
  ring

/-- Units and grid points are compared as the numbers they stand for. -/
theorem exists_common_factor (q k : Int) : ∃ f : ℚ, 0 < f ∧
    (∀ a : Nat, ((a * (unitRatio q k).1 : Nat) : ℚ) = a * 2 ^ q * f) ∧
      ∀ g : Nat, ((g * (unitRatio q k).2 : Nat) : ℚ) = g * 10 ^ k * f := by
  have hden : (0 : ℚ) < (unitRatio q k).2 := Nat.cast_pos.2 (unitRatio_pos q k).2
  have hten : (0 : ℚ) < 10 ^ k := by positivity
  have hratio := unitRatio_eq q k
  refine ⟨(unitRatio q k).2 / 10 ^ k, div_pos hden hten, fun a => ?_, fun g => ?_⟩
  · rw [Nat.cast_mul, mul_assoc, mul_div_assoc', mul_comm (2 ^ q), ← hratio,
      mul_div_assoc, div_self hten.ne', mul_one]
  · rw [Nat.cast_mul, mul_assoc, mul_div_cancel₀ _ hten.ne']

theorem units_le_grid_iff :
    a * (unitRatio q k).1 ≤ g * (unitRatio q k).2 ↔ (a : ℚ) * 2 ^ q ≤ g * 10 ^ k := by
  obtain ⟨f, hf, hunits, hgrid⟩ := exists_common_factor q k
  rw [← @Nat.cast_le ℚ, hunits, hgrid, mul_le_mul_iff_left₀ hf]

theorem grid_le_units_iff :
    g * (unitRatio q k).2 ≤ a * (unitRatio q k).1 ↔ (g : ℚ) * 10 ^ k ≤ a * 2 ^ q := by
  obtain ⟨f, hf, hunits, hgrid⟩ := exists_common_factor q k
  rw [← @Nat.cast_le ℚ, hunits, hgrid, mul_le_mul_iff_left₀ hf]

theorem units_lt_grid_iff :
    a * (unitRatio q k).1 < g * (unitRatio q k).2 ↔ (a : ℚ) * 2 ^ q < g * 10 ^ k := by
  rw [← not_le, grid_le_units_iff, not_le]

theorem grid_lt_units_iff :
    g * (unitRatio q k).2 < a * (unitRatio q k).1 ↔ (g : ℚ) * 10 ^ k < a * 2 ^ q := by
  rw [← not_le, units_le_grid_iff, not_le]

variable {s : Span}

theorem Span.contains_iff :
    s.contains (unitRatio s.exponent k).1 (unitRatio s.exponent k).2 g = true ↔
      s.Holds (g * 10 ^ k) := by
  unfold contains Holds lower upper
  split <;>
    simp only [Bool.and_eq_true, decide_eq_true_eq, units_le_grid_iff, grid_le_units_iff,
      units_lt_grid_iff, grid_lt_units_iff]

theorem Span.onGrid?_holds (h : s.onGrid? k = some g) : s.Holds (g * 10 ^ k) := by
  rw [← contains_iff]
  simp only [onGrid?] at h
  split at h
  · next hbelow habove =>
    obtain rfl := Option.some.inj h
    split <;> assumption
  · next hbelow _ => exact Option.some.inj h ▸ hbelow
  · next _ habove => exact Option.some.inj h ▸ habove
  · cases h

/-- What is between the ends of a span is in it. -/
theorem Span.contains_of_bounds {num den : Nat} (hlow : s.low * num < g * den)
    (hhigh : g * den < s.high * num) : s.contains num den g = true := by
  unfold contains
  split <;> simp only [Bool.and_eq_true, decide_eq_true_eq] <;> omega

/-- **A grid that is finer than a span is wide has a point in it.** -/
theorem Span.exists_onGrid? (hlow : s.low < s.value) (hhigh : s.value < s.high)
    (hfine : (10 : ℚ) ^ k < s.upper - s.lower) : ∃ g, s.onGrid? k = some g := by
  obtain ⟨hnum, hden⟩ := unitRatio_pos s.exponent k
  have hstep : 1 * (unitRatio s.exponent k).2 + s.low * (unitRatio s.exponent k).1 <
      s.high * (unitRatio s.exponent k).1 := by
    obtain ⟨f, hf, hunits, hgrid⟩ := exists_common_factor s.exponent k
    rw [← @Nat.cast_lt ℚ, Nat.cast_add, hunits, hunits, hgrid, Nat.cast_one, one_mul,
      ← lt_sub_iff_add_lt, ← sub_mul]
    exact mul_lt_mul_of_pos_right hfine hf
  simp only [onGrid?]
  generalize (unitRatio s.exponent k).1 = num at *
  generalize (unitRatio s.exponent k).2 = den at *
  have hlow' : s.low * num < s.value * num := Nat.mul_lt_mul_of_pos_right hlow hnum
  have hhigh' : s.value * num < s.high * num := Nat.mul_lt_mul_of_pos_right hhigh hnum
  have hdivides := Nat.div_add_mod' (s.value * num) den
  have hrest : s.value * num % den < den := Nat.mod_lt _ hden
  have hpoint : s.contains num den (s.value * num / den) = true ∨
      s.contains num den (if s.value * num % den = 0 then s.value * num / den
        else s.value * num / den + 1) = true := by
    -- The point below is too low only if the point above is not too high.
    by_cases hbelow : s.low * num < s.value * num / den * den
    · exact .inl (contains_of_bounds hbelow (by omega))
    · have habove : (s.value * num / den + 1) * den = s.value * num / den * den + den :=
        Nat.succ_mul _ _
      rw [if_neg (by omega)]
      exact .inr (contains_of_bounds (by omega) (by omega))
  split
  · exact ⟨_, rfl⟩
  · exact ⟨_, rfl⟩
  · exact ⟨_, rfl⟩
  · next hbelow habove =>
    rw [hbelow, habove] at hpoint
    exact absurd hpoint (by decide)

/-! ## §4. The search. -/

theorem Span.search_holds {point : Int} {digits fuel : Nat}
    (h : s.search point digits fuel = some (g, k)) : s.Holds (g * 10 ^ k) := by
  induction fuel generalizing digits with
  | zero => cases h
  | succ fuel ih =>
    unfold search at h
    split at h
    · next grid hgrid =>
      obtain ⟨rfl, rfl⟩ := Prod.mk.inj (Option.some.inj h)
      exact onGrid?_holds hgrid
    · exact ih h

theorem Span.exists_search {point : Int} {digits fuel more : Nat} (hmore : more < fuel)
    (hgrid : s.onGrid? (point - (digits + more : Nat)) = some g) :
    ∃ found, s.search point digits fuel = some found := by
  induction more generalizing digits fuel with
  | zero =>
    obtain ⟨fuel, rfl⟩ := Nat.exists_eq_succ_of_ne_zero (Nat.ne_of_gt hmore)
    rw [search]
    rw [Nat.add_zero] at hgrid
    rw [hgrid]
    exact ⟨_, rfl⟩
  | succ more ih =>
    obtain ⟨fuel, rfl⟩ := Nat.exists_eq_succ_of_ne_zero (Nat.ne_of_gt (Nat.zero_lt_of_lt hmore))
    rw [search]
    split
    · exact ⟨_, rfl⟩
    · refine ih (Nat.lt_of_succ_lt_succ hmore) ?_
      rwa [Nat.succ_add_eq_add_succ]

end Grid

/-- Powers of two against powers of ten, by an approximation `a / c` of the
logarithm of two. -/
theorem ten_zpow_le {a c : Nat} {j n : Int} (hc : c ≠ 0) (hjn : c * j ≤ a * n)
    (happrox : ((10 : ℚ) ^ a) ^ n ≤ (2 ^ c) ^ n) : (10 : ℚ) ^ j ≤ 2 ^ n := by
  -- Both sides are raised to the power `c`, so that all exponents are integers.
  have hpow : ((10 : ℚ) ^ j) ^ c ≤ (2 ^ n) ^ c := by
    calc ((10 : ℚ) ^ j) ^ c = 10 ^ (c * j) := by rw [← zpow_natCast, ← zpow_mul, mul_comm]
      _ ≤ 10 ^ (a * n) := zpow_le_zpow_right₀ (by norm_num) hjn
      _ = (10 ^ a) ^ n := by rw [zpow_mul, zpow_natCast]
      _ ≤ (2 ^ c) ^ n := happrox
      _ = (2 ^ n) ^ c := by rw [← zpow_natCast, ← zpow_natCast, ← zpow_mul, ← zpow_mul, mul_comm]
  exact (pow_le_pow_iff_left₀ (by positivity) (by positivity) hc).1 hpow

/-- The factor by which the point is guessed is good enough. -/
theorem ten_zpow_guess_le {n : Int} (hlow : -20000 ≤ n) (hhigh : n ≤ 20000) :
    (10 : ℚ) ^ (n * 30103 / 100000 - 1) ≤ 2 ^ n := by
  rcases le_total 0 n with hn | hn
  · -- 59 / 196 is a bit less than the logarithm, and 28 / 93 a bit more.
    refine ten_zpow_le (a := 59) (c := 196) (by decide) (by omega) ?_
    exact zpow_le_zpow_left₀ hn (by norm_num) (by norm_num)
  · refine ten_zpow_le (a := 28) (c := 93) (by decide) (by omega) ?_
    obtain ⟨m, rfl⟩ := Int.exists_eq_neg_ofNat hn
    rw [zpow_neg, zpow_neg, zpow_natCast, zpow_natCast]
    exact inv_anti₀ (by positivity) (pow_le_pow_left₀ (by norm_num) (by norm_num) m)

/-- The number has at least as many digits as its point tells. -/
theorem Span.ten_zpow_point_le {s : Span} (hvalue : s.value ≠ 0)
    (hlow : -20000 ≤ s.value.log2 + s.exponent) (hhigh : s.value.log2 + s.exponent ≤ 20000) :
    (10 : ℚ) ^ (s.point - 1) ≤ s.value * 2 ^ s.exponent := by
  simp only [point]
  generalize hguess : (s.value.log2 + s.exponent) * 30103 / 100000 = guess
  split
  · calc (10 : ℚ) ^ (guess - 1) ≤ 2 ^ (s.value.log2 + s.exponent) := by
          rw [← hguess]
          exact ten_zpow_guess_le hlow hhigh
      _ = 2 ^ s.value.log2 * 2 ^ s.exponent := by
          rw [zpow_add₀ two_ne_zero, zpow_natCast]
      _ ≤ s.value * 2 ^ s.exponent := by
          have hlog : (2 : ℚ) ^ s.value.log2 ≤ s.value := by
            exact_mod_cast Nat.log2_self_le hvalue
          exact mul_le_mul_of_nonneg_right hlog (by positivity)
  · next hone =>
    have hgrid : 1 * (unitRatio s.exponent guess).2 ≤ s.value * (unitRatio s.exponent guess).1 := by
      omega
    rw [grid_le_units_iff] at hgrid
    split
    · simpa using hgrid
    · next hten =>
      rw [not_lt, grid_le_units_iff] at hten
      calc (10 : ℚ) ^ (guess + 2 - 1) = 10 ^ (guess + 1) := by congr 1; omega
        _ = (10 : Nat) * 10 ^ guess := by
          rw [zpow_add_one₀ (by norm_num), mul_comm, Nat.cast_ofNat]
        _ ≤ s.value * 2 ^ s.exponent := hten

/-- A span has seventeen digits of its double to spare. -/
theorem width_spanOf (hpos : 0 < b) :
    (spanOf b).value + (spanOf b).low * 10 ^ 16 < (spanOf b).high * 10 ^ 16 := by
  have hmantissa := mantissa_pos hpos
  have hbound := mantissa_lt b
  show 4 * mantissa b + (4 * mantissa b - if isWide b then 1 else 2) * 10 ^ 16 <
    (4 * mantissa b + 2) * 10 ^ 16
  split
  · next hwide =>
    -- A span that is only three quarters of a unit wide has the smallest mantissa.
    simp only [isWide, Bool.and_eq_true, decide_eq_true_eq] at hwide
    omega
  · omega

/-- **A grid of seventeen digits is finer than a span is wide.** -/
theorem seventeen_digits (hpos : 0 < b) (hfinite : b < infinityBits) :
    (10 : ℚ) ^ ((spanOf b).point - 17) < (spanOf b).upper - (spanOf b).lower := by
  have hmantissa := mantissa_pos hpos
  have hbound := mantissa_lt b
  have hlog : (4 * mantissa b).log2 < 55 := (Nat.log2_lt (by omega)).2 (by omega)
  have hscale : scale b ≤ 2045 := by
    have hlt : b < 2047 * 2 ^ 52 := hfinite
    unfold scale
    omega
  have hpoint : (10 : ℚ) ^ ((spanOf b).point - 1) ≤
      (spanOf b).value * 2 ^ (spanOf b).exponent := by
    apply Span.ten_zpow_point_le
    · show 4 * mantissa b ≠ 0
      omega
    · show -20000 ≤ ((4 * mantissa b).log2 : Int) + (-1074 + scale b - 2)
      omega
    · show ((4 * mantissa b).log2 : Int) + (-1074 + scale b - 2) ≤ 20000
      omega
  have hwidth : ((spanOf b).value : ℚ) < ((spanOf b).high - (spanOf b).low) * 10 ^ 16 := by
    have hcast := (@Nat.cast_lt ℚ _ _ _ _ _).2 (width_spanOf hpos)
    push_cast at hcast
    linarith
  have hunit : (0 : ℚ) < 2 ^ (spanOf b).exponent := by positivity
  have hsplit : (10 : ℚ) ^ ((spanOf b).point - 17) = 10 ^ ((spanOf b).point - 1) / 10 ^ 16 := by
    rw [← zpow_natCast, ← zpow_sub₀ (by norm_num)]
    congr 1
    omega
  rw [hsplit, div_lt_iff₀ (by positivity)]
  calc (10 : ℚ) ^ ((spanOf b).point - 1) ≤ (spanOf b).value * 2 ^ (spanOf b).exponent := hpoint
    _ < ((spanOf b).high - (spanOf b).low) * 10 ^ 16 * 2 ^ (spanOf b).exponent :=
      mul_lt_mul_of_pos_right hwidth hunit
    _ = ((spanOf b).upper - (spanOf b).lower) * 10 ^ 16 := by
      unfold Span.upper Span.lower
      ring

/-- **Every double but zero is written with a number of its span.** -/
theorem shortest_holds (hpos : 0 < b) (hfinite : b < infinityBits) : ∃ g k,
    shortest (mantissa b) (unitOf b) (isWide b) = ⟨dropZeros g, k + digitCount g⟩ ∧
      (spanOf b).Holds (g * 10 ^ k) := by
  have hmantissa := mantissa_pos hpos
  have hlow : (spanOf b).low < (spanOf b).value := by
    show 4 * mantissa b - _ < 4 * mantissa b
    split <;> omega
  have hhigh : (spanOf b).value < (spanOf b).high := by
    show 4 * mantissa b < 4 * mantissa b + 2
    omega
  obtain ⟨grid, hgrid⟩ := Span.exists_onGrid? hlow hhigh (seventeen_digits hpos hfinite)
  obtain ⟨⟨g, k⟩, hfound⟩ : ∃ found, (spanOf b).search (spanOf b).point 1 maxDigits = some found :=
    Span.exists_search (by decide : 16 < maxDigits) hgrid
  refine ⟨g, k, ?_, Span.search_holds hfound⟩
  unfold spanOf at hfound
  simp only [shortest, if_neg hmantissa.ne', hfound]

end Lox.Number
