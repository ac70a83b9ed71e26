/-!
# `LineLexer.Binary64`: double-precision numbers as bits

The value of a real number token is a number of the IEEE 754 format
binary64, kept as its 64 bits. Equality is equality of bits, so the
two zeros differ and a NaN equals itself.

* `nearest`: a quotient rounded to the nearest natural number, a half
  going to the even neighbour.
* `ofRatio`: a quotient rounded to the nearest binary64 number.
* `ofDecimal`: a whole number times a power of ten, rounded to the nearest
  binary64 number.
* `ofInt`: an integer rounded to the nearest binary64 number.
* `two_mul_nearest_bounds`: rounding is off by half a unit at most.
* `neg_neg`: flipping the sign twice changes nothing.
* `isNaN_ofDecimal`, `isNaN_ofInt`: rounding gives no NaN.
-/

set_option autoImplicit false

namespace LineLexer

/-- A number of the format binary64, by its bits: one for the sign,
eleven for the exponent, fifty-two for the fraction. -/
structure Binary64 where
  bits : UInt64
  deriving DecidableEq, Repr

namespace Binary64

/-- Positive zero: all bits are clear. It is the number that zero digits
are read as. -/
def zero : Binary64 := ⟨0⟩

/-- Positive infinity, which stands for every number past the largest
finite one. -/
def infinity : Binary64 := ⟨0x7FF0000000000000⟩

/-- A quiet NaN. This is the one that the word for it is read as; what
stands in the fraction beside its top bit is not used. -/
def nan : Binary64 := ⟨0x7FF8000000000000⟩

instance : Inhabited Binary64 := ⟨zero⟩

/-- The bit that holds the sign. It is the highest one of the
sixty-four. -/
def signBit : UInt64 := 0x8000000000000000

/-- The number with the opposite sign. Only the sign bit changes, so zeros
and NaNs have an opposite too. -/
def neg (x : Binary64) : Binary64 := ⟨x.bits ^^^ signBit⟩

/-- The number with its sign flipped if `negative` is set. Numbers are
read without their sign, which is put on in this way. -/
def signed (negative : Bool) (x : Binary64) : Binary64 :=
  if negative then x.neg else x

/-- Whether the sign bit is set. This holds of the negative zero too. -/
def isNegative (x : Binary64) : Bool := x.bits &&& signBit != 0

/-- The bits without the sign, as a number. Numbers of one sign are
ordered as these numbers are. -/
def magnitude (x : Binary64) : Nat := x.bits.toNat % signBit.toNat

/-- What one step of the exponent field adds to the bits, as a number.
The fraction is what lies below it, and normal significands have it
added to the fraction. -/
def exponentStep : Nat := 0x10000000000000

/-- The exponent field: the eleven bits below the sign. It is zero for
subnormal numbers and all ones for infinities and NaNs. -/
def exponentField (x : Binary64) : Nat := x.magnitude / exponentStep

/-- The fraction field: the fifty-two lowest bits. The top bit of a normal
significand is not among them. -/
def fraction (x : Binary64) : Nat := x.magnitude % exponentStep

/-- The number is finite: neither infinite nor a NaN. Only finite numbers
can be written in JSON. -/
def isFinite (x : Binary64) : Bool := x.exponentField != 0x7FF

/-- The number is a NaN: its exponent field is that of the infinities, and
something stands in its fraction. -/
def isNaN (x : Binary64) : Bool := !x.isFinite && x.fraction != 0

/-- The exponent of the last place of subnormal numbers. It is the least
one of all numbers. -/
def leastExponent : Int := -1074

/-- The significand and the exponent of a finite number, which is
`significand * 2 ^ exponent` up to its sign. -/
def parts (x : Binary64) : Nat × Int :=
  if x.exponentField = 0 then (x.fraction, leastExponent)
  else (exponentStep + x.fraction, leastExponent + (x.exponentField - 1 : Nat))

/-! ### Rounding -/

/-- The natural number nearest to `num / den`; of two equally near
ones the even one. -/
def nearest (num den : Nat) : Nat :=
  let whole := num / den
  let rest := num % den
  if 2 * rest < den then whole
  else if den < 2 * rest then whole + 1
  else whole + whole % 2

/-- The quotient `num / den` in units of `2 ^ exponent`, rounded to the
nearest natural number. The unit is shifted to the side on which it makes
a whole number. -/
def nearestScaled (num den : Nat) (exponent : Int) : Nat :=
  if 0 ≤ exponent then nearest num (den <<< exponent.toNat)
  else nearest (num <<< (-exponent).toNat) den

/-- The exponent of the greatest power of two that is at most `num / den`,
for positive `num` and `den`. The number of digits gives a guess that is
right or one too great. -/
def floorLog2 (num den : Nat) : Int :=
  let guess : Int := (num.log2 : Int) - den.log2
  let reaches : Bool :=
    if 0 ≤ guess then den <<< guess.toNat ≤ num
    else den ≤ num <<< (-guess).toNat
  if reaches then guess else guess - 1

/-- The bits of the number nearest to `num / den`. The significand is
added to the exponent field and not put beside it: a significand of
fifty-three bits then carries its top bit into the exponent, and so
does one that was rounded up to the next power of two. -/
def ratioMagnitude (num den : Nat) : Nat :=
  -- The last place of fifty-three bits, or that of subnormal numbers.
  let exponent := max (floorLog2 num den - 52) leastExponent
  (exponent - leastExponent).toNat * exponentStep + nearestScaled num den exponent

/-- The number nearest to `num / den`. What lies past the largest
finite number becomes infinite. -/
def ofRatio (num den : Nat) : Binary64 :=
  if num = 0 then zero
  else
    let magnitude := ratioMagnitude num den
    if infinity.bits.toNat ≤ magnitude then infinity
    else ⟨UInt64.ofNat magnitude⟩

/-- The number nearest to `digits * 10 ^ exponent`. The first two
cases need no large powers: whatever reaches `10 ^ 310` is infinite,
and whatever is below `2 ^ -1099` is zero. -/
def ofDecimal (digits : Nat) (exponent : Int) : Binary64 :=
  if digits = 0 then zero
  else if 310 < exponent then infinity
  else if exponent < 0 ∧ digits.log2 + 1100 < 3 * (-exponent).toNat then zero
  else if 0 ≤ exponent then ofRatio (digits * Nat.pow 10 exponent.toNat) 1
  else ofRatio digits (Nat.pow 10 (-exponent).toNat)

/-- The number nearest to an integer. Integers of at most fifty-three bits
are represented exactly. -/
def ofInt (n : Int) : Binary64 :=
  signed (n < 0) (ofRatio n.natAbs 1)

/-! ### Laws -/

/-- Flipping the sign twice gives the same number back. This is about
bits, so it holds of NaNs as well. -/
theorem neg_neg (x : Binary64) : x.neg.neg = x := by
  simp only [neg, UInt64.xor_assoc, UInt64.xor_self, UInt64.xor_zero]

@[simp] theorem signed_false (x : Binary64) : signed false x = x := rfl

@[simp] theorem signed_true (x : Binary64) : signed true x = x.neg := rfl

/-- Rounding a quotient to the nearest natural number is off by half a
unit at most. Both sides are multiplied with the denominator, twice. -/
theorem two_mul_nearest_bounds (num den : Nat) (hden : 0 < den) :
    2 * num ≤ 2 * (nearest num den * den) + den
      ∧ 2 * (nearest num den * den) ≤ 2 * num + den := by
  have hsplit : num / den * den + num % den = num := by
    rw [Nat.mul_comm]
    exact Nat.div_add_mod num den
  have hrest := Nat.mod_lt num hden
  have hsucc : (num / den + 1) * den = num / den * den + den := Nat.succ_mul _ _
  unfold nearest
  dsimp only
  split
  · omega
  · split
    · omega
    · rcases Nat.mod_two_eq_zero_or_one (num / den) with h | h <;> rw [h]
      · rw [Nat.add_zero]
        omega
      · omega

/-- A quotient that is a natural number is not changed by rounding. This
is how a whole number of units is kept exact. -/
theorem nearest_mul (k den : Nat) (hden : 0 < den) : nearest (k * den) den = k := by
  simp [nearest, Nat.mul_div_cancel k hden, hden]

@[simp] theorem ofDecimal_zero (exponent : Int) : ofDecimal 0 exponent = zero := by
  simp [ofDecimal]

@[simp] theorem ofInt_zero : ofInt 0 = zero := by
  simp [ofInt, ofRatio]

/-- The numbers that are no NaN are those up to infinity, whatever their
sign. -/
theorem isNaN_eq_false_iff {x : Binary64} :
    x.isNaN = false ↔ x.magnitude ≤ infinity.magnitude := by
  have hlt : x.magnitude < 2 ^ 63 := Nat.mod_lt _ (by decide)
  have hinfinity : infinity.magnitude = 0x7FF * 2 ^ 52 := by decide
  have hstep : exponentStep = 2 ^ 52 := rfl
  simp only [isNaN, isFinite, exponentField, fraction, hstep, hinfinity, Bool.and_eq_false_iff,
    Bool.not_eq_false', bne_iff_ne, ne_eq, bne_eq_false_iff_eq]
  omega

/-- A number and its opposite have the same magnitude. -/
theorem magnitude_neg (x : Binary64) : x.neg.magnitude = x.magnitude := by
  have hsign : signBit.toNat = 2 ^ 63 := rfl
  rw [magnitude, magnitude, neg, UInt64.toNat_xor, hsign, Nat.xor_mod_two_pow, Nat.mod_self,
    Nat.xor_zero]

/-- A sign makes no number a NaN and takes none away. -/
theorem isNaN_signed {x : Binary64} (h : x.isNaN = false) (negative : Bool) :
    (x.signed negative).isNaN = false := by
  rw [isNaN_eq_false_iff] at h ⊢
  cases negative with
  | false => exact h
  | true =>
    rw [signed_true, magnitude_neg]
    exact h

/-- Rounding a quotient gives no NaN. What lies past the finite numbers
becomes infinite. -/
theorem isNaN_ofRatio (num den : Nat) : (ofRatio num den).isNaN = false := by
  rw [isNaN_eq_false_iff, ofRatio]
  split
  · decide
  dsimp only
  split
  · exact Nat.le_refl _
  · next h =>
    have hbits : (UInt64.ofNat (ratioMagnitude num den)).toNat ≤ ratioMagnitude num den := by
      rw [UInt64.toNat_ofNat']
      exact Nat.mod_le ..
    have hinfinity : infinity.magnitude = infinity.bits.toNat := by decide
    rw [hinfinity]
    exact Nat.le_trans (Nat.mod_le ..) (Nat.le_trans hbits (Nat.le_of_lt (Nat.not_le.mp h)))

/-- A whole number times a power of ten is not read as a NaN. One that is
too large to be finite is read as infinity. -/
theorem isNaN_ofDecimal (digits : Nat) (exponent : Int) :
    (ofDecimal digits exponent).isNaN = false := by
  unfold ofDecimal
  split
  · decide
  split
  · decide
  split
  · decide
  split <;> exact isNaN_ofRatio ..

/-- An integer is not rounded to a NaN. -/
theorem isNaN_ofInt (n : Int) : (ofInt n).isNaN = false :=
  isNaN_signed (isNaN_ofRatio ..) _

end Binary64

end LineLexer
