import LineLexer.Binary64

/-!
# `LineLexer.Binary64.Shortest`: the fewest digits that read back

Every finite number is the nearest binary64 number to a whole interval
of reals, and a decimal inside that interval reads back as the number.
This module finds the decimal with the fewest digits in it, the one
nearest to the number where several have as few, and writes it.

* `Decimal.write`: a decimal as text, positional or with an exponent.
* `shortest`: the decimal of a positive finite number.
* `reaches_of_shortest?`: it lies in the number's interval.
* `write`: a finite number as text.
-/

set_option autoImplicit false

namespace LineLexer

/-- A decimal is the number `digits * 10 ^ exponent`. One number is
written by several of them, as zeros can be moved between the parts. -/
structure Decimal where
  digits : Nat
  exponent : Int
  deriving DecidableEq, Repr

namespace Decimal

/-- How the exponent of a decimal's first digit decides its form. Between
the bounds a decimal is written positionally, otherwise with an
exponent. -/
structure Style where
  /-- The least exponent that is written positionally. -/
  lowest : Int
  /-- The greatest exponent that is written positionally. -/
  highest : Int

/-- A decimal as text. Positional notation always has a point. With an
exponent, one digit stands before the point, the point is left out if
nothing follows it, and the exponent has its sign. -/
def write (style : Style) (d : Decimal) : String :=
  let digits := Nat.toDigits 10 d.digits
  -- The exponent of the first digit.
  let first : Int := d.exponent + digits.length - 1
  if style.lowest ≤ first ∧ first ≤ style.highest then
    if 0 ≤ d.exponent then
      String.ofList (digits ++ List.replicate d.exponent.toNat '0' ++ ['.', '0'])
    else if 0 ≤ first then
      let whole := first.toNat + 1
      String.ofList (digits.take whole ++ '.' :: digits.drop whole)
    else
      String.ofList (['0', '.'] ++ List.replicate (-first - 1).toNat '0' ++ digits)
  else
    let fraction := digits.drop 1
    let point := if fraction.isEmpty then [] else ['.']
    let sign := if first < 0 then '-' else '+'
    String.ofList (digits.take 1 ++ point ++ fraction ++ ['e', sign]
      ++ Nat.toDigits 10 first.natAbs)

end Decimal

namespace Binary64

/-! ### The interval of a number -/

/-- The reals that round to a positive finite number, in quarters of
its last place: from `low` to `high` times `2 ^ exponent`, with the
number itself at `middle`. -/
structure Interval where
  low : Nat
  middle : Nat
  high : Nat
  exponent : Int
  /-- Whether the ends of the interval belong to it. -/
  closed : Bool

/-- The interval of a number. It is half as wide below a power of two,
where the numbers lie twice as close; its ends belong to it if the
significand is even, as a half goes to the even neighbour. -/
def interval (x : Binary64) : Interval :=
  let (significand, exponent) := x.parts
  let narrow := x.fraction = 0 ∧ 1 < x.exponentField
  { low := 4 * significand - if narrow then 1 else 2
    middle := 4 * significand
    high := 4 * significand + 2
    exponent := exponent - 2
    closed := significand % 2 = 0 }

namespace Interval

/-- The interval's unit over the unit `10 ^ place`, as a ratio of two
natural numbers. Comparing with a decimal is then comparing natural
numbers. -/
def scale (i : Interval) (place : Int) : Nat × Nat :=
  let num := if 0 ≤ place then 1 else Nat.pow 10 (-place).toNat
  let den := if 0 ≤ place then Nat.pow 10 place.toNat else 1
  if 0 ≤ i.exponent then (num <<< i.exponent.toNat, den)
  else (num, den <<< (-i.exponent).toNat)

/-- Whether `count * 10 ^ place` lies in the interval. The ends count if
the interval is closed. -/
def reaches (i : Interval) (count : Nat) (place : Int) : Bool :=
  let (num, den) := i.scale place
  if i.closed then i.low * num ≤ count * den && count * den ≤ i.high * num
  else i.low * num < count * den && count * den < i.high * num

/-- The decimal in the interval among the two multiples of
`10 ^ place` next to the middle; of two the nearer, and of two equally
near the even one. -/
def onGrid? (i : Interval) (place : Int) : Option Decimal :=
  let (num, den) := i.scale place
  let below := i.middle * num / den
  let rest := 2 * (i.middle * num % den)
  let above := below + 1
  if i.reaches below place then
    if i.reaches above place then
      if rest < den ∨ (rest = den ∧ below % 2 = 0) then some ⟨below, place⟩
      else some ⟨above, place⟩
    else some ⟨below, place⟩
  else if i.reaches above place then some ⟨above, place⟩
  else none

/-- A place so coarse that `10 ^ place` lies past the interval. The search
for the shortest decimal begins there. -/
def coarsest (i : Interval) : Int :=
  -- `2 ^ length` lies past the interval, and a binary place is worth
  -- between 0.3 and 0.31 decimal ones.
  let length : Int := i.exponent + (i.high.log2 + 1 : Nat)
  if 0 ≤ length then length * 31 / 100 + 1 else length * 3 / 10 + 1

end Interval

/-! ### The shortest decimal -/

/-- The decimal on the coarsest grid that has one. Seventeen digits
always suffice, and the first grid is at most a dozen places too
coarse. -/
def shortest? (x : Binary64) : Option Decimal :=
  (List.range 40).findSome? fun step : Nat =>
    x.interval.onGrid? (x.interval.coarsest - step)

/-- The number as a decimal, exactly. It has up to 767 digits, and stands
in where the search for a short one finds none. -/
def exactDecimal (x : Binary64) : Decimal :=
  let (significand, exponent) := x.parts
  if 0 ≤ exponent then ⟨significand <<< exponent.toNat, 0⟩
  else ⟨significand * Nat.pow 5 (-exponent).toNat, exponent⟩

/-- The shortest decimal that reads back as the positive finite number
`x`, and the nearest to it of those. -/
def shortest (x : Binary64) : Decimal :=
  x.shortest?.getD x.exactDecimal

/-! ### The text of a number -/

/-- A finite number as text, by its shortest decimal. A zero is written
with a digit behind its point, and keeps its sign. -/
def write (style : Decimal.Style) (x : Binary64) : String :=
  let sign := if x.isNegative then "-" else ""
  if x.magnitude = 0 then sign ++ "0.0"
  else sign ++ x.shortest.write style

/-! ### Laws -/

/-- A decimal that is offered for a grid lies in the interval. The
multiple below the middle and the one above it are both tested. -/
theorem Interval.reaches_of_onGrid? {i : Interval} {place : Int} {d : Decimal}
    (h : i.onGrid? place = some d) : i.reaches d.digits d.exponent = true := by
  unfold Interval.onGrid? at h
  simp only at h
  split at h
  · split at h
    · split at h <;> cases h <;> assumption
    · cases h
      assumption
  · split at h
    · cases h
      assumption
    · cases h

/-- The shortest decimal of a number lies in the number's interval. So it
rounds back to the number. -/
theorem reaches_of_shortest? {x : Binary64} {d : Decimal}
    (h : x.shortest? = some d) : x.interval.reaches d.digits d.exponent = true := by
  obtain ⟨step, -, hstep⟩ := List.exists_of_findSome?_eq_some h
  exact Interval.reaches_of_onGrid? hstep

end Binary64

end LineLexer
