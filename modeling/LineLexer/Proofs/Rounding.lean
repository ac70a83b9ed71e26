import LineLexer.Binary64.Shortest
import Mathlib.Algebra.Order.Field.Power
import Mathlib.Algebra.Order.Ring.Rat
import Mathlib.Algebra.Order.Floor.Semifield
import Mathlib.Data.Int.Log
import Mathlib.Data.Rat.Floor
import Mathlib.Tactic.FieldSimp
import Mathlib.Tactic.Linarith
import Mathlib.Tactic.NormNum
import Mathlib.Tactic.Positivity
import Mathlib.Tactic.Ring

/-!
# `LineLexer.Proofs.Rounding`: what rounds to a number

A decimal is read as the binary64 number nearest to it. Every positive
finite number has an interval of rationals around it, and this module
shows that the interval is what it should be: each decimal with its value
in there is read as the number. The shortest decimal of a number is one of
those, so a report that writes it loses nothing of the number.

The interval reaches half a unit of the last place to either side, with
the ends if the significand is even. Below a power of two it reaches a
quarter of that unit only, as the numbers there lie twice as close. A
rational just below a power of two is therefore rounded in the smaller
unit, and comes out as the significand with fifty-four bits, which is the
power of two.

* `Decimal.value`: the rational that a decimal writes.
* `Interval.Contains`, `Interval.reaches_iff`: the interval as a set of
  rationals.
* `nearestScaled_eq`, `floorLog2_eq_log`: the two steps of rounding by what
  they find.
* `ratioMagnitude_eq`: a quotient in the interval of a number is rounded
  to the number.
* `contains_shortest`: the shortest decimal of a number lies in its
  interval.
* `ofDecimal_of_contains`: a decimal in the interval is read as the number.
-/

set_option autoImplicit false

namespace LineLexer

/-- The rational that a decimal writes, which is what different layouts of
one decimal have in common. -/
def Decimal.value (d : Decimal) : ℚ := d.digits * 10 ^ d.exponent

namespace Binary64

/-! ### Powers as quotients -/

/-- A power of a positive base is a quotient of two natural powers, of
which one is one. -/
theorem zpow_eq_div {base : Nat} (hbase : 0 < base) (n : Int) :
    (base : ℚ) ^ n = (base ^ n.toNat : Nat) / (base ^ (-n).toNat : Nat) := by
  have hne : (base : ℚ) ≠ 0 := by positivity
  have hn : n = (n.toNat : Int) - ((-n).toNat : Int) := by omega
  conv_lhs => rw [hn, zpow_sub₀ hne, zpow_natCast, zpow_natCast]
  push_cast
  rfl

/-- A shift is taken only in one of two directions, and the other one
would not change anything. -/
theorem ite_shiftLeft (n : Int) (num den : Nat) :
    (if 0 ≤ n then (num <<< n.toNat, den) else (num, den <<< (-n).toNat))
      = (num * 2 ^ n.toNat, den * 2 ^ (-n).toNat) := by
  split
  · next h =>
    have hneg : (-n).toNat = 0 := by omega
    rw [hneg, Nat.pow_zero, Nat.mul_one, Nat.shiftLeft_eq]
  · next h =>
    have hpos : n.toNat = 0 := by omega
    rw [hpos, Nat.pow_zero, Nat.mul_one, Nat.shiftLeft_eq]

/-! ### The interval as a set of rationals -/

/-- A rational lies between the ends of the interval. The ends belong to
it if it is closed. -/
def Interval.Contains (i : Interval) (q : ℚ) : Prop :=
  if i.closed then i.low * 2 ^ i.exponent ≤ q ∧ q ≤ i.high * 2 ^ i.exponent
  else i.low * 2 ^ i.exponent < q ∧ q < i.high * 2 ^ i.exponent

/-- The scale of an interval is made of the powers of ten and of two that
are natural numbers. -/
theorem Interval.scale_eq (i : Interval) (place : Int) :
    i.scale place = (10 ^ (-place).toNat * 2 ^ i.exponent.toNat,
      10 ^ place.toNat * 2 ^ (-i.exponent).toNat) := by
  have hnum : (if 0 ≤ place then 1 else Nat.pow 10 (-place).toNat) = 10 ^ (-place).toNat := by
    split
    · next h =>
      have hzero : (-place).toNat = 0 := by omega
      rw [hzero, Nat.pow_zero]
    · rfl
  have hden : (if 0 ≤ place then Nat.pow 10 place.toNat else 1) = 10 ^ place.toNat := by
    split
    · rfl
    · next h =>
      have hzero : place.toNat = 0 := by omega
      rw [hzero, Nat.pow_zero]
  rw [scale, hnum, hden]
  exact ite_shiftLeft i.exponent _ _

/-- A decimal lies in the interval, as the natural numbers tell that it is
compared by, exactly if its value does. -/
theorem Interval.reaches_iff (i : Interval) (d : Decimal) :
    i.reaches d.digits d.exponent = true ↔ i.Contains d.value := by
  have hscale := i.scale_eq d.exponent
  let below : ℚ := (10 ^ (-d.exponent).toNat * 2 ^ (-i.exponent).toNat : Nat)
  have hbelow : 0 < below := by positivity
  -- Both sides are compared after multiplication with the powers below the line.
  have hend (bound : Nat) :
      (bound : ℚ) * 2 ^ i.exponent * below = (bound * (i.scale d.exponent).1 : Nat) := by
    have htwo := zpow_eq_div (by decide : 0 < 2) i.exponent
    rw [Nat.cast_ofNat] at htwo
    rw [htwo, hscale]
    simp only [below]
    push_cast
    field_simp
  have hvalue : d.value * below = (d.digits * (i.scale d.exponent).2 : Nat) := by
    have hten := zpow_eq_div (by decide : 0 < 10) d.exponent
    rw [Nat.cast_ofNat] at hten
    rw [Decimal.value, hten, hscale]
    simp only [below]
    push_cast
    field_simp
  have hlow : (i.low : ℚ) * 2 ^ i.exponent ≤ d.value
      ↔ i.low * (i.scale d.exponent).1 ≤ d.digits * (i.scale d.exponent).2 := by
    rw [← mul_le_mul_iff_left₀ hbelow, hend, hvalue, Nat.cast_le]
  have hhigh : d.value ≤ i.high * 2 ^ i.exponent
      ↔ d.digits * (i.scale d.exponent).2 ≤ i.high * (i.scale d.exponent).1 := by
    rw [← mul_le_mul_iff_left₀ hbelow, hend, hvalue, Nat.cast_le]
  have hlow' : (i.low : ℚ) * 2 ^ i.exponent < d.value
      ↔ i.low * (i.scale d.exponent).1 < d.digits * (i.scale d.exponent).2 := by
    rw [← mul_lt_mul_iff_left₀ hbelow, hend, hvalue, Nat.cast_lt]
  have hhigh' : d.value < i.high * 2 ^ i.exponent
      ↔ d.digits * (i.scale d.exponent).2 < i.high * (i.scale d.exponent).1 := by
    rw [← mul_lt_mul_iff_left₀ hbelow, hend, hvalue, Nat.cast_lt]
  rw [reaches, Contains]
  simp only [hlow, hhigh, hlow', hhigh']
  split <;> simp

/-! ### Rounding -/

/-- A natural number that lies at most half a unit away from a quotient is
the nearest one to it. At just half a unit it has to be even. -/
theorem nearest_eq {num den k : Nat} (hden : 0 < den) (hlow : 2 * (k * den) ≤ 2 * num + den)
    (hhigh : 2 * num ≤ 2 * (k * den) + den)
    (heven : 2 * (k * den) = 2 * num + den ∨ 2 * num = 2 * (k * den) + den → k % 2 = 0) :
    nearest num den = k := by
  have hrest := Nat.mod_lt num hden
  have hsplit : num / den * den + num % den = num := by
    rw [Nat.mul_comm]
    exact Nat.div_add_mod num den
  rw [nearest]
  generalize num / den = whole at hsplit ⊢
  generalize num % den = rest at hsplit hrest ⊢
  -- The number is the whole part of the quotient or one more.
  have hge : whole ≤ k := by
    by_contra hlt
    have hmul := Nat.mul_le_mul_right den (Nat.succ_le_of_lt (Nat.not_le.mp hlt))
    rw [Nat.succ_mul k den] at hmul
    omega
  have hle : k ≤ whole + 1 := by
    by_contra hlt
    have hmul := Nat.mul_le_mul_right den (Nat.succ_le_of_lt (Nat.not_le.mp hlt))
    rw [Nat.succ_mul (whole + 1) den, Nat.succ_mul whole den] at hmul
    omega
  rcases Nat.eq_or_lt_of_le hge with rfl | hlt
  · split_ifs <;> omega
  · obtain rfl : k = whole + 1 := by omega
    rw [Nat.succ_mul whole den] at hlow hhigh heven
    split_ifs <;> omega

/-- Rounding in units of a power of two finds the natural number that lies
at most half a unit away. At just half a unit it has to be even. -/
theorem nearestScaled_eq {num den k : Nat} {exponent : Int} (hden : 0 < den)
    (hlow : ((k : ℚ) - 1 / 2) * 2 ^ exponent ≤ num / den)
    (hhigh : (num / den : ℚ) ≤ (k + 1 / 2) * 2 ^ exponent)
    (heven : ((k : ℚ) - 1 / 2) * 2 ^ exponent = num / den ∨
      (num / den : ℚ) = (k + 1 / 2) * 2 ^ exponent → k % 2 = 0) :
    nearestScaled num den exponent = k := by
  -- In both directions of the shift this is the quotient of two natural numbers.
  obtain ⟨top, bottom, hbottom, hquotient, hscaled⟩ :
      ∃ top bottom : Nat, 0 < bottom ∧ (num / den : ℚ) = top / bottom * 2 ^ exponent ∧
        nearestScaled num den exponent = nearest top bottom := by
    refine ⟨num * 2 ^ (-exponent).toNat, den * 2 ^ exponent.toNat,
      Nat.mul_pos hden (Nat.two_pow_pos _), ?_, ?_⟩
    · have htwo := zpow_eq_div (by decide : 0 < 2) exponent
      rw [Nat.cast_ofNat] at htwo
      rw [htwo]
      push_cast
      field_simp
    · rw [nearestScaled]
      split
      · next h =>
        have hneg : (-exponent).toNat = 0 := by omega
        rw [hneg, Nat.pow_zero, Nat.mul_one, Nat.shiftLeft_eq]
      · next h =>
        have hpos : exponent.toNat = 0 := by omega
        rw [hpos, Nat.pow_zero, Nat.mul_one, Nat.shiftLeft_eq]
  have hunit : (0 : ℚ) < 2 ^ exponent := by positivity
  have hcast : (0 : ℚ) < bottom := by exact_mod_cast hbottom
  rw [hquotient, mul_le_mul_iff_left₀ hunit] at hlow hhigh
  rw [hquotient, mul_left_inj' hunit.ne', mul_left_inj' hunit.ne', eq_div_iff hcast.ne',
    div_eq_iff hcast.ne'] at heven
  rw [le_div_iff₀ hcast] at hlow
  rw [div_le_iff₀ hcast] at hhigh
  rw [hscaled]
  refine nearest_eq hbottom ?_ ?_ fun hend => heven ?_
  · have h : (2 * (k * bottom) : ℚ) ≤ 2 * top + bottom := by linarith
    exact_mod_cast h
  · have h : (2 * top : ℚ) ≤ 2 * (k * bottom) + bottom := by linarith
    exact_mod_cast h
  · refine hend.imp (fun h => ?_) (fun h => ?_)
    · have h' : (2 * (k * bottom) : ℚ) = 2 * top + bottom := by exact_mod_cast h
      linarith
    · have h' : (2 * top : ℚ) = 2 * (k * bottom) + bottom := by exact_mod_cast h
      linarith

/-- A quotient of two positive numbers lies less than one power of two away
from the quotient of the powers of two below them. -/
theorem quotient_bounds {num den : Nat} (hnum : 0 < num) (hden : 0 < den) :
    (2 : ℚ) ^ ((num.log2 : Int) - den.log2 - 1) < num / den ∧
      (num / den : ℚ) < 2 ^ ((num.log2 : Int) - den.log2 + 1) := by
  have htwo : (2 : ℚ) ≠ 0 := two_ne_zero
  have hcast : (0 : ℚ) < den := by exact_mod_cast hden
  have hnumLow : (2 : ℚ) ^ num.log2 ≤ num := by
    exact_mod_cast Nat.log2_self_le (Nat.ne_of_gt hnum)
  have hnumHigh : (num : ℚ) < 2 ^ (num.log2 + 1) := by exact_mod_cast Nat.lt_log2_self
  have hdenLow : (2 : ℚ) ^ den.log2 ≤ den := by
    exact_mod_cast Nat.log2_self_le (Nat.ne_of_gt hden)
  have hdenHigh : (den : ℚ) < 2 ^ (den.log2 + 1) := by exact_mod_cast Nat.lt_log2_self
  -- The bounds on the two numbers, each multiplied out.
  have hlow : (2 : ℚ) ^ ((num.log2 : Int) - den.log2 - 1) * 2 ^ (den.log2 + 1)
      = 2 ^ num.log2 := by
    rw [← zpow_natCast, ← zpow_natCast, ← zpow_add₀ htwo]
    congr 1
    push_cast
    ring
  have hhigh : (2 : ℚ) ^ ((num.log2 : Int) - den.log2 + 1) * 2 ^ den.log2
      = 2 ^ (num.log2 + 1) := by
    rw [← zpow_natCast, ← zpow_natCast, ← zpow_add₀ htwo]
    congr 1
    push_cast
    ring
  have hpos : ∀ n : Int, (0 : ℚ) < 2 ^ n := fun n => by positivity
  constructor
  · rw [lt_div_iff₀ hcast]
    calc _ < (2 : ℚ) ^ ((num.log2 : Int) - den.log2 - 1) * 2 ^ (den.log2 + 1) :=
          mul_lt_mul_of_pos_left hdenHigh (hpos _)
      _ ≤ num := hlow ▸ hnumLow
  · rw [div_lt_iff₀ hcast]
    calc (num : ℚ) < 2 ^ ((num.log2 : Int) - den.log2 + 1) * 2 ^ den.log2 := hhigh ▸ hnumHigh
      _ ≤ _ := mul_le_mul_of_nonneg_left hdenLow (hpos _).le

/-- The exponent of the greatest power of two that is at most a quotient is
found: it is the logarithm of the quotient. -/
theorem floorLog2_eq_log {num den : Nat} (hnum : 0 < num) (hden : 0 < den) :
    floorLog2 num den = Int.log 2 (num / den : ℚ) := by
  obtain ⟨hlow, hhigh⟩ := quotient_bounds hnum hden
  have hcast : (0 : ℚ) < den := by exact_mod_cast hden
  have hquotient : (0 : ℚ) < num / den := div_pos (by exact_mod_cast hnum) hcast
  have hle (k : Int) : (2 : ℚ) ^ k ≤ num / den ↔ k ≤ Int.log 2 (num / den : ℚ) := by
    exact_mod_cast Int.zpow_le_iff_le_log (by decide : 1 < 2) hquotient
  have hlt (k : Int) : (num / den : ℚ) < 2 ^ k ↔ Int.log 2 (num / den : ℚ) < k := by
    exact_mod_cast Int.lt_zpow_iff_log_lt (by decide : 1 < 2) hquotient
  -- The guess is right, or one too great.
  have hlower := (hle _).mp hlow.le
  have hupper := (hlt _).mp hhigh
  rw [floorLog2]
  generalize (num.log2 : Int) - den.log2 = guess at hupper hlower
  have hreaches : (if 0 ≤ guess then decide (den <<< guess.toNat ≤ num)
      else decide (den ≤ num <<< (-guess).toNat))
        = decide (guess ≤ Int.log 2 (num / den : ℚ)) := by
    have htwo := zpow_eq_div (by decide : 0 < 2) guess
    rw [Nat.cast_ofNat] at htwo
    have hpos : (0 : ℚ) < (2 ^ (-guess).toNat : Nat) := by positivity
    have hcross : guess ≤ Int.log 2 (num / den : ℚ)
        ↔ den * 2 ^ guess.toNat ≤ num * 2 ^ (-guess).toNat := by
      rw [← hle, htwo, div_le_div_iff₀ hpos hcast, mul_comm]
      exact_mod_cast Iff.rfl
    have hdecide : decide (guess ≤ Int.log 2 (num / den : ℚ))
        = decide (den * 2 ^ guess.toNat ≤ num * 2 ^ (-guess).toNat) := decide_eq_decide.mpr hcross
    rw [hdecide]
    split
    · next h =>
      have hneg : (-guess).toNat = 0 := by omega
      simp only [hneg, Nat.pow_zero, Nat.mul_one, Nat.shiftLeft_eq]
    · next h =>
      have hzero : guess.toNat = 0 := by omega
      simp only [hzero, Nat.pow_zero, Nat.mul_one, Nat.shiftLeft_eq]
  simp only [hreaches, decide_eq_true_eq]
  split <;> omega

/-! ### The number of an interval -/

section Number
variable {x : Binary64}

/-- What the parts of a finite number other than zero are: a positive
significand of at most fifty-three bits and an exponent, which is the
least one if the significand has fewer. The ends of the interval are
given in quarters of a unit. -/
structure HasParts (x : Binary64) (significand : Nat) (exponent : Int) : Prop where
  pos : 0 < significand
  lt : significand < 2 ^ 53
  least_le : -1074 ≤ exponent
  le_greatest : exponent ≤ 971
  normal : -1074 < exponent → 2 ^ 52 ≤ significand
  /-- The significand is added to the exponent field. -/
  magnitude : x.magnitude = (exponent + 1074).toNat * 2 ^ 52 + significand
  unit : x.interval.exponent = exponent - 2
  closed : x.interval.closed = true ↔ significand % 2 = 0
  high : x.interval.high = 4 * significand + 2
  low_le : 4 * significand ≤ x.interval.low + 2
  low_lt : x.interval.low < 4 * significand
  /-- Below a power of two the interval is half as wide. -/
  narrow : -1074 < exponent → significand = 2 ^ 52 → x.interval.low + 1 = 4 * significand

/-- Every finite number other than zero has such parts. -/
theorem hasParts (hfinite : x.isFinite = true) (hx : x.magnitude ≠ 0) :
    x.HasParts x.parts.1 x.parts.2 := by
  have hinterval : x.interval =
      { low := 4 * x.parts.1 - if x.fraction = 0 ∧ 1 < x.exponentField then 1 else 2
        middle := 4 * x.parts.1
        high := 4 * x.parts.1 + 2
        exponent := x.parts.2 - 2
        closed := x.parts.1 % 2 = 0 } := rfl
  have hstep : exponentStep = 2 ^ 52 := rfl
  have hlt : x.magnitude < 2 ^ 63 := Nat.mod_lt _ (by decide)
  have hfield : x.exponentField = x.magnitude / 2 ^ 52 := rfl
  have hfraction : x.fraction = x.magnitude % 2 ^ 52 := rfl
  have hnotInfinite : x.exponentField ≠ 0x7FF := by simpa [isFinite] using hfinite
  by_cases hsub : x.exponentField = 0
  · have hparts : x.parts = (x.fraction, -1074) := if_pos hsub
    rw [hparts] at hinterval ⊢
    constructor <;> simp only [hinterval, decide_eq_true_eq] <;> (try split_ifs) <;> omega
  · have hparts : x.parts
        = (exponentStep + x.fraction, -1074 + ((x.exponentField - 1 : Nat) : Int)) := if_neg hsub
    rw [hparts, hstep] at hinterval ⊢
    constructor <;> simp only [hinterval, decide_eq_true_eq] <;> (try split_ifs) <;> omega

section Contains
variable {significand : Nat} {exponent : Int} (hparts : x.HasParts significand exponent) {q : ℚ}
include hparts

/-- A rational in the interval of a number lies at most half a unit away
from it, and at just half a unit only if the significand is even. -/
theorem HasParts.bounds (h : x.interval.Contains q) :
    (significand - 1 / 2 : ℚ) * 2 ^ exponent ≤ q ∧ q ≤ (significand + 1 / 2) * 2 ^ exponent ∧
      ((significand - 1 / 2 : ℚ) * 2 ^ exponent = q ∨ q = (significand + 1 / 2) * 2 ^ exponent →
        significand % 2 = 0) := by
  have hquarter : (2 : ℚ) ^ x.interval.exponent = 2 ^ exponent / 4 := by
    rw [hparts.unit, zpow_sub₀ two_ne_zero]
    norm_num
  have hunit : (0 : ℚ) < 2 ^ exponent := by positivity
  -- The ends of the interval are given in quarters of the unit.
  have hlow : (significand - 1 / 2 : ℚ) * 2 ^ exponent
      ≤ x.interval.low * 2 ^ x.interval.exponent := by
    have hle : (4 * significand : ℚ) ≤ x.interval.low + 2 := by exact_mod_cast hparts.low_le
    rw [hquarter]
    nlinarith
  have hhigh : (x.interval.high * 2 ^ x.interval.exponent : ℚ)
      = (significand + 1 / 2) * 2 ^ exponent := by
    rw [hquarter, hparts.high]
    push_cast
    ring
  rw [Interval.Contains, hhigh] at h
  split at h
  · next hclosed => exact ⟨hlow.trans h.1, h.2, fun _ => hparts.closed.mp hclosed⟩
  · refine ⟨hlow.trans h.1.le, h.2.le, fun hend => ?_⟩
    rcases hend with hend | hend
    · exact absurd h.1 (not_lt.mpr (hend ▸ hlow))
    · exact absurd h.2 (not_lt.mpr hend.ge)

/-- A rational in the interval of a number lies below the next power of two
and its unit. -/
theorem HasParts.lt_zpow (h : x.interval.Contains q) : q < 2 ^ (exponent + 53) := by
  have hunit : (0 : ℚ) < 2 ^ exponent := by positivity
  have hle : (significand : ℚ) + 1 ≤ 2 ^ 53 := by exact_mod_cast hparts.lt
  have hhigh := (hparts.bounds h).2.1
  rw [zpow_add₀ two_ne_zero]
  norm_num at hle ⊢
  nlinarith

end Contains

/-- A rational in the interval of a number that lies below the power of two
with fifty-three bits: the significand is that power, and the rational lies
at most half of the smaller unit below it. -/
theorem HasParts.of_lt_zpow {significand : Nat} {exponent : Int}
    (hparts : x.HasParts significand exponent) {q : ℚ} (h : x.interval.Contains q)
    (hleast : -1074 < exponent) (hlt : q < 2 ^ (exponent + 52)) :
    significand = 2 ^ 52 ∧ (2 ^ 53 - 1 / 2 : ℚ) * 2 ^ (exponent - 1) ≤ q := by
  have hunit : (0 : ℚ) < 2 ^ exponent := by positivity
  have hhalf : (2 : ℚ) ^ (exponent - 1) = 2 ^ exponent / 2 := zpow_sub_one₀ two_ne_zero _
  have hsignificand : significand = 2 ^ 52 := by
    have hmul : (significand - 1 / 2 : ℚ) * 2 ^ exponent < 2 ^ 52 * 2 ^ exponent := by
      refine lt_of_le_of_lt (hparts.bounds h).1 (hlt.trans_eq ?_)
      rw [zpow_add₀ two_ne_zero, mul_comm]
      norm_num
    have hbelow : (significand : ℚ) < 2 ^ 52 + 1 := by
      linarith [lt_of_mul_lt_mul_right hmul hunit.le]
    have hless : significand < 2 ^ 52 + 1 := by exact_mod_cast hbelow
    exact Nat.le_antisymm (Nat.le_of_lt_succ hless) (hparts.normal hleast)
  refine ⟨hsignificand, ?_⟩
  -- The interval is the narrow one, of which a quarter of a unit is half a smaller one.
  have hnarrow : (x.interval.low : ℚ) + 1 = 4 * 2 ^ 52 := by
    have hlow := hparts.narrow hleast hsignificand
    rw [hsignificand] at hlow
    exact_mod_cast hlow
  have hlow : (x.interval.low : ℚ) * 2 ^ x.interval.exponent ≤ q := by
    rw [Interval.Contains] at h
    split at h
    · exact h.1
    · exact h.1.le
  rw [hparts.unit, zpow_sub₀ two_ne_zero] at hlow
  rw [hhalf]
  norm_num at hnarrow hlow ⊢
  nlinarith

/-- A quotient reaches a power of two exactly if the exponent that is found
for it reaches the exponent of the power. -/
theorem le_floorLog2_iff {num den : Nat} (hnum : 0 < num) (hden : 0 < den) (k : Int) :
    k ≤ floorLog2 num den ↔ (2 : ℚ) ^ k ≤ num / den := by
  have hquotient : (0 : ℚ) < num / den :=
    div_pos (by exact_mod_cast hnum) (by exact_mod_cast hden)
  rw [floorLog2_eq_log hnum hden]
  exact_mod_cast (Int.zpow_le_iff_le_log (by decide : 1 < 2) hquotient).symm

/-- A quotient in the interval of a number that lies below the power of two
with fifty-three bits is rounded in units half as large as that of the
number. It comes out as the power with fifty-four bits, which is the same
number. -/
theorem HasParts.nearestScaled_below {significand : Nat} {exponent : Int}
    (hparts : x.HasParts significand exponent) {num den : Nat}
    (hnum : 0 < num) (hden : 0 < den) (h : x.interval.Contains (num / den))
    (hleast : -1074 < exponent) (hlt : (num / den : ℚ) < 2 ^ (exponent + 52)) :
    significand = 2 ^ 52 ∧ exponent + 51 ≤ floorLog2 num den ∧
      nearestScaled num den (exponent - 1) = 2 ^ 53 := by
  obtain ⟨hsignificand, hlow⟩ := hparts.of_lt_zpow h hleast hlt
  have hpow (n : Nat) : (2 : ℚ) ^ (exponent - 1 + n) = 2 ^ n * 2 ^ (exponent - 1) := by
    rw [zpow_add₀ two_ne_zero, zpow_natCast, mul_comm]
  have hsmaller : (0 : ℚ) < 2 ^ (exponent - 1) := by positivity
  have hfits : (2 : ℚ) ^ (exponent - 1 + (52 : Nat)) ≤ num / den := by
    rw [hpow]
    exact le_trans (mul_le_mul_of_nonneg_right (by norm_num) hsmaller.le) hlow
  have hhigh : (num / den : ℚ) < 2 ^ 53 * 2 ^ (exponent - 1) := by
    have heq : exponent + 52 = exponent - 1 + (53 : Nat) := by omega
    rw [← hpow, ← heq]
    exact hlt
  refine ⟨hsignificand, ?_, nearestScaled_eq hden ?_ ?_ fun _ => by norm_num⟩
  · have hlower := (le_floorLog2_iff hnum hden _).mpr hfits
    omega
  · exact_mod_cast hlow
  · push_cast
    nlinarith

/-- A quotient in the interval of a number is rounded to the number. Only
just below a power of two is it rounded in another unit than that of the
number. -/
theorem ratioMagnitude_eq {significand : Nat} {exponent : Int}
    (hparts : x.HasParts significand exponent) {num den : Nat}
    (hnum : 0 < num) (hden : 0 < den) (h : x.interval.Contains (num / den)) :
    ratioMagnitude num den = x.magnitude := by
  have hlt (k : Int) : (num / den : ℚ) < 2 ^ k → floorLog2 num den < k := fun hless =>
    lt_of_not_ge fun hge => not_lt.mpr ((le_floorLog2_iff hnum hden k).mp hge) hless
  have hupper := hlt _ (hparts.lt_zpow h)
  have hleast : leastExponent = -1074 := rfl
  have hstep : exponentStep = 2 ^ 52 := rfl
  rw [ratioMagnitude, hparts.magnitude, hleast, hstep]
  by_cases hbelow : -1074 < exponent ∧ (num / den : ℚ) < 2 ^ (exponent + 52)
  · -- Just below a power of two the unit is half as large, and the significand twice.
    obtain ⟨hsignificand, hlower, hscaled⟩ :=
      hparts.nearestScaled_below hnum hden h hbelow.1 hbelow.2
    have hless := hlt _ hbelow.2
    have hunit : max (floorLog2 num den - 52) (-1074) = exponent - 1 := by omega
    simp only [hunit, hscaled, hsignificand]
    omega
  · have hunit : max (floorLog2 num den - 52) (-1074) = exponent := by
      have hleast_le := hparts.least_le
      by_cases hnormal : -1074 < exponent
      · have hreached := not_lt.mp fun hless => hbelow ⟨hnormal, hless⟩
        have hge := (le_floorLog2_iff hnum hden _).mpr hreached
        omega
      · omega
    obtain ⟨hlow, hhigh, heven⟩ := hparts.bounds h
    simp only [hunit, nearestScaled_eq hden hlow hhigh heven]
    omega

/-- The number without its sign. -/
def unsigned (x : Binary64) : Binary64 := ⟨.ofNat x.magnitude⟩

/-- A quotient in the interval of a number is rounded to the number without
its sign. It does not become infinite. -/
theorem ofRatio_eq {significand : Nat} {exponent : Int}
    (hparts : x.HasParts significand exponent) {num den : Nat}
    (hnum : 0 < num) (hden : 0 < den) (h : x.interval.Contains (num / den)) :
    ofRatio num den = x.unsigned := by
  have hfits : x.magnitude < infinity.bits.toNat := by
    have hinfinity : infinity.bits.toNat = 2047 * 2 ^ 52 := rfl
    have hlt := hparts.lt
    have hgreatest := hparts.le_greatest
    rw [hparts.magnitude, hinfinity]
    omega
  have hmagnitude := ratioMagnitude_eq hparts hnum hden h
  rw [ofRatio, if_neg (Nat.ne_of_gt hnum)]
  dsimp only
  rw [hmagnitude, if_neg (Nat.not_le.mpr hfits), unsigned]

/-- A rational in the interval of a number is positive and neither too
small nor too large for the shortcuts of `ofDecimal`. -/
theorem HasParts.range {significand : Nat} {exponent : Int}
    (hparts : x.HasParts significand exponent) {q : ℚ} (h : x.interval.Contains q) :
    (2 : ℚ) ^ (-1099 : Int) < q ∧ q < 10 ^ (311 : Int) := by
  have hunit : (0 : ℚ) < 2 ^ exponent := by positivity
  constructor
  · have hone : (1 : ℚ) ≤ significand := by exact_mod_cast hparts.pos
    have hless : (2 : ℚ) ^ (-1099 : Int) < 2 ^ (exponent - 1) :=
      zpow_lt_zpow_right₀ one_lt_two (by linarith [hparts.least_le])
    rw [zpow_sub_one₀ two_ne_zero] at hless
    calc (2 : ℚ) ^ (-1099 : Int) < 1 / 2 * 2 ^ exponent := by linarith
      _ ≤ (significand - 1 / 2) * 2 ^ exponent := by nlinarith
      _ ≤ q := (hparts.bounds h).1
  · have hlarge : (2 : ℚ) ^ (exponent + 53) ≤ 2 ^ (1024 : Int) :=
      zpow_le_zpow_right₀ one_le_two (by linarith [hparts.le_greatest])
    have hpowers : (2 : ℚ) ^ 1024 < 10 ^ 311 := by
      exact_mod_cast (by decide +kernel : 2 ^ 1024 < 10 ^ 311)
    calc q < 2 ^ (exponent + 53) := hparts.lt_zpow h
      _ ≤ 2 ^ (1024 : Int) := hlarge
      _ < 10 ^ (311 : Int) := by exact_mod_cast hpowers

/-- A decimal that `ofDecimal` reads as zero without a calculation lies
below every interval. -/
theorem value_le_of_shortcut {d : Decimal} (hneg : d.exponent < 0)
    (hlog : d.digits.log2 + 1100 < 3 * (-d.exponent).toNat) :
    d.value ≤ 2 ^ (-1099 : Int) := by
  obtain ⟨n, hn⟩ : ∃ n : Nat, d.exponent = -n := ⟨(-d.exponent).toNat, by omega⟩
  rw [hn, Int.neg_neg, Int.toNat_natCast] at hlog
  have hdigits : (d.digits : ℚ) ≤ 2 ^ (d.digits.log2 + 1) := by
    exact_mod_cast (Nat.lt_log2_self (n := d.digits)).le
  have hten : (10 : ℚ) ^ d.exponent ≤ 2 ^ (-(3 * n : Int)) := by
    have height : (8 : ℚ) ^ n ≤ 10 ^ n := pow_le_pow_left₀ (by norm_num) (by norm_num) n
    have hcube : (2 : ℚ) ^ (3 * n) = 8 ^ n := by
      rw [pow_mul]
      norm_num
    have htriple : (2 : ℚ) ^ (3 * n : Int) = 2 ^ (3 * n) := by exact_mod_cast rfl
    rw [hn, zpow_neg, zpow_neg, zpow_natCast, htriple]
    exact inv_anti₀ (by positivity) (hcube ▸ height)
  calc d.value ≤ 2 ^ (d.digits.log2 + 1) * 2 ^ (-(3 * n : Int)) := by
        rw [Decimal.value]
        exact mul_le_mul hdigits hten (by positivity) (by positivity)
    _ = 2 ^ ((d.digits.log2 + 1 : Nat) + -(3 * n : Int)) := by
        rw [zpow_add₀ two_ne_zero, zpow_natCast]
    _ ≤ 2 ^ (-1099 : Int) := zpow_le_zpow_right₀ one_le_two (by omega)

/-- A decimal with its value in the interval of a number is read as the
number without its sign. -/
theorem ofDecimal_of_contains (hfinite : x.isFinite = true) (hx : x.magnitude ≠ 0) {d : Decimal}
    (h : x.interval.Contains d.value) : ofDecimal d.digits d.exponent = x.unsigned := by
  have hparts := hasParts hfinite hx
  obtain ⟨hsmall, hlarge⟩ := hparts.range h
  have hten : (0 : ℚ) < 10 ^ d.exponent := by positivity
  have hdigits : 0 < d.digits := by
    refine Nat.pos_of_ne_zero fun hzero => ?_
    have htiny : (0 : ℚ) < 2 ^ (-1099 : Int) := by positivity
    rw [Decimal.value, hzero, Nat.cast_zero, zero_mul] at hsmall
    exact absurd hsmall (not_lt.mpr htiny.le)
  -- Neither shortcut is taken.
  have hnotLarge : ¬ 310 < d.exponent := by
    intro hexponent
    have hone : (1 : ℚ) ≤ d.digits := by exact_mod_cast hdigits
    have hpow : (10 : ℚ) ^ (311 : Int) ≤ 10 ^ d.exponent :=
      zpow_le_zpow_right₀ (by norm_num) (by omega)
    exact absurd hlarge (not_lt.mpr (hpow.trans (le_mul_of_one_le_left hten.le hone)))
  have hnotSmall : ¬ (d.exponent < 0 ∧ d.digits.log2 + 1100 < 3 * (-d.exponent).toNat) :=
    fun hboth => absurd hsmall (not_lt.mpr (value_le_of_shortcut hboth.1 hboth.2))
  have hpower := zpow_eq_div (by decide : 0 < 10) d.exponent
  rw [Nat.cast_ofNat] at hpower
  rw [Decimal.value, hpower] at h
  rw [ofDecimal, if_neg (Nat.ne_of_gt hdigits), if_neg hnotLarge, if_neg hnotSmall]
  split
  · next hpos =>
    have hnone : (-d.exponent).toNat = 0 := by omega
    rw [hnone, ← mul_div_assoc, ← Nat.cast_mul] at h
    exact ofRatio_eq hparts (Nat.mul_pos hdigits (Nat.pow_pos (by decide))) Nat.one_pos h
  · next hneg =>
    have hnone : d.exponent.toNat = 0 := by omega
    rw [hnone, Nat.pow_zero, Nat.cast_one, mul_one_div] at h
    exact ofRatio_eq hparts hdigits (Nat.pow_pos (by decide)) h

/-- The exact decimal of a number has the value of the number. -/
theorem value_exactDecimal (x : Binary64) :
    x.exactDecimal.value = x.parts.1 * 2 ^ x.parts.2 := by
  have htwo := zpow_eq_div (by decide : 0 < 2) x.parts.2
  have hten := zpow_eq_div (by decide : 0 < 10) x.parts.2
  have hexact : x.exactDecimal = if 0 ≤ x.parts.2 then ⟨x.parts.1 <<< x.parts.2.toNat, 0⟩
      else ⟨x.parts.1 * 5 ^ (-x.parts.2).toNat, x.parts.2⟩ := rfl
  rw [Nat.cast_ofNat] at htwo hten
  rw [hexact, Decimal.value, htwo]
  split
  · next hpos =>
    have hnone : (-x.parts.2).toNat = 0 := by omega
    simp [hnone, Nat.shiftLeft_eq]
  · next hneg =>
    have hnone : x.parts.2.toNat = 0 := by omega
    have hfactors : (10 : ℚ) ^ (-x.parts.2).toNat
        = 2 ^ (-x.parts.2).toNat * 5 ^ (-x.parts.2).toNat := by
      rw [← mul_pow]
      norm_num
    dsimp only
    rw [hten, hnone]
    push_cast
    rw [hfactors]
    field_simp

/-- The shortest decimal of a number lies in its interval. Every candidate
has been tried against the interval, and the exact decimal, which stands
in where none is found, lies there too. -/
theorem contains_shortest (hfinite : x.isFinite = true) (hx : x.magnitude ≠ 0) :
    x.interval.Contains x.shortest.value := by
  have hparts := hasParts hfinite hx
  rw [shortest]
  cases hshortest : x.shortest? with
  | some d => exact (x.interval.reaches_iff d).mp (reaches_of_shortest? hshortest)
  | none =>
    -- The number itself lies between the ends of its interval.
    have hunit : (0 : ℚ) < 2 ^ x.parts.2 := by positivity
    have hlow : (x.interval.low : ℚ) < 4 * x.parts.1 := by exact_mod_cast hparts.low_lt
    have hinside : (x.interval.low : ℚ) * 2 ^ x.interval.exponent < x.parts.1 * 2 ^ x.parts.2 ∧
        (x.parts.1 * 2 ^ x.parts.2 : ℚ) < x.interval.high * 2 ^ x.interval.exponent := by
      rw [hparts.unit, hparts.high, zpow_sub₀ two_ne_zero]
      push_cast
      constructor <;> nlinarith
    rw [Option.getD_none, value_exactDecimal, Interval.Contains]
    split
    · exact ⟨hinside.1.le, hinside.2.le⟩
    · exact hinside

end Number

end Binary64

end LineLexer
