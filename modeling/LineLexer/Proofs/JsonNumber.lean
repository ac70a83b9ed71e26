import LineLexer.Json
import LineLexer.Proofs.Exchange

/-!
# `LineLexer.Proofs.JsonNumber`: numbers in JSON are JSON's numbers

JSON is strict about numbers: no zero in front of other digits, at least
one digit on both sides of a point, at least one in an exponent. The
reports write integers and real numbers, the latter in three layouts
that depend on their size, and all of it is to the letter of that rule.

* `isNumber`: JSON's numbers.
* `isNumber_int`: an integer is written as a number of JSON.
* `isUnsigned_write`: a decimal without sign is written as a number of
  JSON, in any layout.
* `isNumber_writeReal`: a finite real number is written as a number of
  JSON.
* `isWordChar_of_isNumber`: what numbers are made of.
-/

set_option autoImplicit false

namespace LineLexer

open Lexeme (takeWhile_append_stop dropWhile_append_stop)

namespace Json

/-! ### The rule -/

/-- Whether some characters are decimal digits, at least one of them. -/
def areDigits (chars : List Char) : Bool := !chars.isEmpty && chars.all Char.isDigit

/-- Whether some characters are digits without a zero in front of
others. -/
def isWhole (chars : List Char) : Bool :=
  areDigits chars && (chars.head? != some '0' || chars.length == 1)

/-- Whether some characters are an exponent, with a sign or without, or
nothing at all. -/
def isExponent : List Char → Bool
  | [] => true
  | marker :: rest =>
    let digits := if rest.head? = some '+' ∨ rest.head? = some '-' then rest.tail else rest
    (marker == 'e' || marker == 'E') && areDigits digits

/-- Whether some characters can follow the whole part of a number: a point
with digits, an exponent, both or neither. -/
def isFraction (chars : List Char) : Bool :=
  if chars.head? = some '.' then
    areDigits (chars.tail.takeWhile Char.isDigit) && isExponent (chars.tail.dropWhile Char.isDigit)
  else isExponent chars

/-- Whether some characters are a JSON number without a minus sign. -/
def isUnsigned (chars : List Char) : Bool :=
  isWhole (chars.takeWhile Char.isDigit) && isFraction (chars.dropWhile Char.isDigit)

/-- Whether some characters are a JSON number. There is no other sign in
front than a minus sign. -/
def isNumber (chars : List Char) : Bool :=
  isUnsigned (if chars.head? = some '-' then chars.tail else chars)

/-! ### Numbers and their parts -/

section Parts
variable {chars digits rest : List Char}

/-- Characters are digits if there are some, and each of them is a decimal
digit. -/
theorem areDigits_iff :
    areDigits digits = true ↔ digits ≠ [] ∧ ∀ c ∈ digits, c.isDigit = true := by
  simp [areDigits]

/-- A marker, a sign and digits make an exponent. -/
theorem isExponent_of_digits {sign : Char} (hsign : sign = '+' ∨ sign = '-')
    (h : areDigits digits = true) : isExponent ('e' :: sign :: digits) = true := by
  rcases hsign with rfl | rfl <;> simp [isExponent, h]

/-- A point and digits make a fraction, if an exponent or nothing follows
them. -/
theorem isFraction_of_digits (h : areDigits digits = true) (hrest : isExponent rest = true)
    (hstop : ∀ c ∈ rest.head?, c.isDigit = false) :
    isFraction ('.' :: (digits ++ rest)) = true := by
  have hdigits := (areDigits_iff.mp h).2
  rw [isFraction, List.head?_cons, if_pos rfl, List.tail_cons,
    takeWhile_append_stop hdigits hstop, dropWhile_append_stop hdigits hstop, h, hrest]
  rfl

/-- The whole part of a number and what can follow it make a number
without a minus sign. -/
theorem isUnsigned_append (h : isWhole digits = true) (hrest : isFraction rest = true)
    (hstop : ∀ c ∈ rest.head?, c.isDigit = false) : isUnsigned (digits ++ rest) = true := by
  have hdigits := (areDigits_iff.mp (Bool.and_eq_true_iff.mp h).1).2
  rw [isUnsigned, takeWhile_append_stop hdigits hstop, dropWhile_append_stop hdigits hstop, h,
    hrest]
  rfl

/-- A number without a minus sign begins with a digit. -/
theorem isDigit_of_isUnsigned (h : isUnsigned chars = true) :
    ∃ c rest, chars = c :: rest ∧ c.isDigit = true := by
  have hwhole := (areDigits_iff.mp (Bool.and_eq_true_iff.mp (Bool.and_eq_true_iff.mp h).1).1).1
  cases chars with
  | nil => exact absurd rfl hwhole
  | cons c rest =>
    refine ⟨c, rest, rfl, ?_⟩
    by_contra hc
    exact hwhole (List.takeWhile_cons_of_neg hc)

/-- A number without a minus sign is a number, and so it is with a minus
sign in front. -/
theorem isNumber_of_isUnsigned (h : isUnsigned chars = true) :
    isNumber chars = true ∧ isNumber ('-' :: chars) = true := by
  obtain ⟨c, rest, rfl, hc⟩ := isDigit_of_isUnsigned h
  have hminus : c ≠ '-' := by
    rintro rfl
    cases hc
  refine ⟨?_, ?_⟩
  · rw [isNumber, List.head?_cons, if_neg (Option.some_inj.not.mpr hminus), h]
  · rw [isNumber, List.head?_cons, if_pos rfl, List.tail_cons, h]

end Parts

/-! ### Integers -/

/-- A natural number is written with digits, at least one. -/
theorem areDigits_toDigits (n : Nat) : areDigits (Nat.toDigits 10 n) = true :=
  areDigits_iff.mpr
    ⟨Nat.toDigits_ne_nil, fun _ hc => Nat.isDigit_of_mem_toDigits (by decide) (by decide) hc⟩

/-- The first digit of a natural number is no zero, unless the number is
zero. -/
theorem head?_toDigits {n : Nat} (h : 0 < n) : (Nat.toDigits 10 n).head? ≠ some '0' := by
  induction n using Nat.strongRecOn with
  | ind n ih =>
    rcases Nat.lt_or_ge n 10 with hn | hn
    · have hall : ∀ n < 10, 0 < n → [n.digitChar].head? ≠ some '0' := by decide
      rw [Nat.toDigits_of_lt_base hn]
      exact hall n hn h
    · -- One more digit behind others does not change the first.
      rw [Nat.toDigits_of_base_le (by decide) hn, List.head?_append_of_ne_nil _ Nat.toDigits_ne_nil]
      exact ih (n / 10) (by omega) (by omega)

/-- A natural number is written without a zero in front of other
digits. -/
theorem isWhole_toDigits (n : Nat) : isWhole (Nat.toDigits 10 n) = true := by
  rcases Nat.eq_zero_or_pos n with rfl | hn
  · rfl
  · simp [isWhole, areDigits_toDigits, head?_toDigits hn]

/-- A natural number is written as a JSON number without a minus sign. -/
theorem isUnsigned_repr (n : Nat) : isUnsigned n.repr.toList = true := by
  rw [Nat.repr_eq_ofList_toDigits, String.toList_ofList, ← List.append_nil (Nat.toDigits 10 n)]
  exact isUnsigned_append (isWhole_toDigits n) rfl (by simp)

/-- An integer is written as a JSON number, with no zero in front of other
digits. -/
theorem isNumber_int (value : Int) : isNumber (toString value).toList = true := by
  rw [Int.toString_eq_repr, Int.repr_eq_if]
  split
  · exact (isNumber_of_isUnsigned (isUnsigned_repr _)).1
  · rw [String.toList_append]
    exact (isNumber_of_isUnsigned (isUnsigned_repr _)).2

/-! ### Decimals -/

section Layouts
variable {digits zeros : List Char}

/-- Digits that do not begin with a zero can be the whole part of a
number. -/
theorem isWhole_of_head? (h : areDigits digits = true) (hzero : digits.head? ≠ some '0') :
    isWhole digits = true := by
  simp [isWhole, h, hzero]

/-- Digits with some zeros on either side of them are digits. -/
theorem areDigits_zeros (h : areDigits digits = true) (count : Nat) :
    areDigits (digits ++ List.replicate count '0') = true ∧
      areDigits (List.replicate count '0' ++ digits) = true := by
  obtain ⟨hne, hdigits⟩ := areDigits_iff.mp h
  have hzero : ∀ c ∈ List.replicate count '0', c.isDigit = true := by
    intro c hc
    rw [List.eq_of_mem_replicate hc]
    rfl
  refine ⟨areDigits_iff.mpr ⟨List.append_ne_nil_of_left_ne_nil hne _, fun c hc => ?_⟩,
    areDigits_iff.mpr ⟨List.append_ne_nil_of_right_ne_nil _ hne, fun c hc => ?_⟩⟩
  · exact (List.mem_append.mp hc).elim (hdigits c) (hzero c)
  · exact (List.mem_append.mp hc).elim (hzero c) (hdigits c)

/-- Digits, zeros that fill the places up to the point, and a zero behind
the point make a number. -/
theorem isUnsigned_filled (h : areDigits digits = true) (hzero : digits.head? ≠ some '0')
    (count : Nat) : isUnsigned (digits ++ List.replicate count '0' ++ ['.', '0']) = true := by
  refine isUnsigned_append (isWhole_of_head? (areDigits_zeros h count).1 ?_) rfl (by simp)
  rwa [List.head?_append_of_ne_nil _ (areDigits_iff.mp h).1]

/-- Digits with the point among them make a number, if there are some on
both sides of it. -/
theorem isUnsigned_split (h : areDigits digits = true) (hzero : digits.head? ≠ some '0')
    {count : Nat} (hpos : 0 < count) (hlt : count < digits.length) :
    isUnsigned (digits.take count ++ '.' :: digits.drop count) = true := by
  obtain ⟨hne, hdigits⟩ := areDigits_iff.mp h
  have hfront : areDigits (digits.take count) = true :=
    areDigits_iff.mpr ⟨by simp [hne, Nat.ne_of_gt hpos],
      fun c hc => hdigits c (List.mem_of_mem_take hc)⟩
  have hback : areDigits (digits.drop count) = true :=
    areDigits_iff.mpr ⟨by simpa using hlt, fun c hc => hdigits c (List.mem_of_mem_drop hc)⟩
  refine isUnsigned_append (isWhole_of_head? hfront ?_) ?_ (by simp)
  · rwa [List.head?_take, if_neg (Nat.ne_of_gt hpos)]
  · rw [← List.append_nil (digits.drop count)]
    exact isFraction_of_digits hback rfl (by simp)

/-- Digits with the point and some zeros in front of all of them make a
number. -/
theorem isUnsigned_below (h : areDigits digits = true) (count : Nat) :
    isUnsigned (['0', '.'] ++ List.replicate count '0' ++ digits) = true := by
  have hfraction : isFraction ('.' :: (List.replicate count '0' ++ digits ++ [])) = true :=
    isFraction_of_digits (areDigits_zeros h count).2 rfl (by simp)
  rw [List.append_nil] at hfraction
  have hnumber : isUnsigned (['0'] ++ '.' :: (List.replicate count '0' ++ digits)) = true :=
    isUnsigned_append rfl hfraction (by simp)
  exact hnumber

/-- One digit, the point and the other digits, and an exponent make a
number. The point stands only where digits follow it. -/
theorem isUnsigned_scientific {c sign : Char} {exponent : List Char}
    (h : areDigits (c :: digits) = true) (hsign : sign = '+' ∨ sign = '-')
    (hexponent : areDigits exponent = true) :
    isUnsigned (c :: ((if digits.isEmpty then [] else ['.']) ++ digits
      ++ 'e' :: sign :: exponent)) = true := by
  have hscaled := isExponent_of_digits hsign hexponent
  have hc : isWhole [c] = true := by
    simpa [isWhole, areDigits] using (areDigits_iff.mp h).2 c List.mem_cons_self
  cases digits with
  | nil => exact isUnsigned_append hc hscaled (by simp)
  | cons d more =>
    have hmore : areDigits (d :: more) = true :=
      areDigits_iff.mpr ⟨List.cons_ne_nil _ _,
        fun x hx => (areDigits_iff.mp h).2 x (List.mem_cons_of_mem _ hx)⟩
    exact isUnsigned_append hc (isFraction_of_digits hmore hscaled (by simp)) (by simp)

end Layouts

/-- A positive decimal is written as a JSON number, in each of the four
layouts. -/
theorem isUnsigned_write (style : Decimal.Style) {d : Decimal} (h : 0 < d.digits) :
    isUnsigned (d.write style).toList = true := by
  have hdigits := areDigits_toDigits d.digits
  have hzero := head?_toDigits h
  have hlength : 0 < (Nat.toDigits 10 d.digits).length := Nat.length_toDigits_pos
  rw [Decimal.write]
  -- No layout looks at the decimal but through its digits and its exponent.
  generalize Nat.toDigits 10 d.digits = digits at hdigits hzero hlength
  extract_lets _ fraction point sign
  split
  · split
    · rw [String.toList_ofList]
      exact isUnsigned_filled hdigits hzero _
    · split
      · rw [String.toList_ofList]
        exact isUnsigned_split hdigits hzero (Nat.succ_pos _) (by omega)
      · rw [String.toList_ofList]
        exact isUnsigned_below hdigits _
  · obtain ⟨c, more, rfl⟩ := List.exists_cons_of_length_pos hlength
    have hsign : sign = '+' ∨ sign = '-' := (ite_eq_or_eq _ _ _).symm
    rw [String.toList_ofList]
    simpa [fraction, point] using isUnsigned_scientific hdigits hsign (areDigits_toDigits _)

/-! ### Real numbers -/

/-- The significand of a number other than zero is positive. -/
theorem significand_pos {x : Binary64} (h : x.magnitude ≠ 0) : 0 < x.parts.1 := by
  have hstep : 0 < Binary64.exponentStep := by decide
  rw [Binary64.parts]
  split
  · next hfield =>
    -- Without an exponent all of the magnitude is fraction.
    have hlt : x.magnitude < Binary64.exponentStep :=
      (Nat.div_eq_zero_iff.mp hfield).resolve_left (Nat.ne_of_gt hstep)
    show 0 < x.magnitude % Binary64.exponentStep
    rw [Nat.mod_eq_of_lt hlt]
    exact Nat.pos_of_ne_zero h
  · exact Nat.add_pos_left hstep _

/-- A decimal in an interval above zero is positive. -/
theorem digits_pos_of_reaches {i : Binary64.Interval} (hlow : 0 < i.low) {count : Nat}
    {place : Int} (h : i.reaches count place = true) : 0 < count := by
  have hscale : 0 < (i.scale place).1 := by
    have hnum : 0 < (if 0 ≤ place then 1 else Nat.pow 10 (-place).toNat) := by
      split
      · exact Nat.one_pos
      · exact Nat.pow_pos (by decide)
    rw [Binary64.Interval.scale]
    split
    · rw [Nat.shiftLeft_eq]
      exact Nat.mul_pos hnum (Nat.two_pow_pos _)
    · exact hnum
  have hle : i.low * (i.scale place).1 ≤ count * (i.scale place).2 := by
    simp only [Binary64.Interval.reaches] at h
    split at h
    · exact (by simpa using h : _ ∧ _).1
    · exact Nat.le_of_lt (by simpa using h : _ ∧ _).1
  exact Nat.pos_of_mul_pos_right (Nat.lt_of_lt_of_le (Nat.mul_pos hlow hscale) hle)

/-- The shortest decimal of a number other than zero is positive. -/
theorem digits_shortest_pos {x : Binary64} (h : x.magnitude ≠ 0) : 0 < x.shortest.digits := by
  have hsignificand := significand_pos h
  have hlow : 0 < x.interval.low := by
    show 0 < 4 * x.parts.1 - _
    split <;> omega
  rw [Binary64.shortest]
  cases hshortest : x.shortest? with
  | some d => exact digits_pos_of_reaches hlow (Binary64.reaches_of_shortest? hshortest)
  | none =>
    show 0 < (if 0 ≤ x.parts.2 then Decimal.mk (x.parts.1 <<< x.parts.2.toNat) 0
      else ⟨x.parts.1 * Nat.pow 5 (-x.parts.2).toNat, x.parts.2⟩).digits
    split
    · rw [Nat.shiftLeft_eq]
      exact Nat.mul_pos hsignificand (Nat.two_pow_pos _)
    · exact Nat.mul_pos hsignificand (Nat.pow_pos (by decide))

/-- A finite real number is written as a JSON number, a zero included. The
infinities and NaNs are written as null. -/
theorem isNumber_writeReal {x : Binary64} (h : x.isFinite = true) :
    isNumber (writeReal x).toList = true := by
  have hzero : isUnsigned "0.0".toList = true := by decide
  have hsigned : ∀ text : String, isUnsigned text.toList = true →
      isNumber ((if x.isNegative then "-" else "") ++ text).toList = true := by
    intro text htext
    obtain ⟨hplain, hminus⟩ := isNumber_of_isUnsigned htext
    rw [String.toList_append]
    split
    · exact hminus
    · exact hplain
  rw [writeReal, if_pos h, Binary64.write]
  split
  · exact hsigned _ hzero
  · next hx => exact hsigned _ (isUnsigned_write realStyle (digits_shortest_pos hx))

/-! ### Words -/

/-- What words are made of: letters, digits, signs and points. -/
def isWordChar (c : Char) : Bool := c.isAlphanum || c == '+' || c == '-' || c == '.'

section Words
variable {chars : List Char}

/-- A digit is part of a word. -/
theorem isWordChar_of_isDigit {c : Char} (h : c.isDigit = true) : isWordChar c = true := by
  simp [isWordChar, Char.isAlphanum, h]

/-- All characters of an exponent are part of a word. -/
theorem isWordChar_of_isExponent (h : isExponent chars = true) :
    ∀ c ∈ chars, isWordChar c = true := by
  cases chars with
  | nil => simp
  | cons marker rest =>
    simp only [isExponent, Bool.and_eq_true, Bool.or_eq_true, beq_iff_eq] at h
    obtain ⟨hmarker, hdigits⟩ := h
    refine List.forall_mem_cons.mpr ⟨by rcases hmarker with rfl | rfl <;> rfl, ?_⟩
    have hall := (areDigits_iff.mp hdigits).2
    split at hall
    · next hsign =>
      rcases hsign with hsign | hsign
      all_goals
        obtain ⟨digits, rfl⟩ := List.head?_eq_some_iff.mp hsign
        exact List.forall_mem_cons.mpr ⟨rfl, fun c hc => isWordChar_of_isDigit (hall c hc)⟩
    · exact fun c hc => isWordChar_of_isDigit (hall c hc)

/-- All characters of what can follow the whole part of a number are part
of a word. -/
theorem isWordChar_of_isFraction (h : isFraction chars = true) :
    ∀ c ∈ chars, isWordChar c = true := by
  rw [isFraction] at h
  split at h
  · next hpoint =>
    obtain ⟨rest, rfl⟩ := List.head?_eq_some_iff.mp hpoint
    obtain ⟨hdigits, hexponent⟩ := Bool.and_eq_true_iff.mp h
    have hfront := (areDigits_iff.mp hdigits).2
    have hback := isWordChar_of_isExponent hexponent
    rw [List.tail_cons] at hfront hback
    refine List.forall_mem_cons.mpr ⟨rfl, fun c hc => ?_⟩
    rw [← List.takeWhile_append_dropWhile (p := Char.isDigit) (l := rest)] at hc
    exact (List.mem_append.mp hc).elim (fun hc => isWordChar_of_isDigit (hfront c hc)) (hback c)
  · exact isWordChar_of_isExponent h

/-- A number is a word: it is not empty, and all of its characters are
part of a word. -/
theorem isWordChar_of_isNumber (h : isNumber chars = true) :
    chars ≠ [] ∧ ∀ c ∈ chars, isWordChar c = true := by
  have hunsigned : ∀ chars, isUnsigned chars = true → ∀ c ∈ chars, isWordChar c = true := by
    intro chars h c hc
    obtain ⟨hwhole, hfraction⟩ := Bool.and_eq_true_iff.mp h
    have hfront := (areDigits_iff.mp (Bool.and_eq_true_iff.mp hwhole).1).2
    rw [← List.takeWhile_append_dropWhile (p := Char.isDigit) (l := chars)] at hc
    exact (List.mem_append.mp hc).elim (fun hc => isWordChar_of_isDigit (hfront c hc))
      (isWordChar_of_isFraction hfraction c)
  rw [isNumber] at h
  split at h
  · next hminus =>
    obtain ⟨rest, rfl⟩ := List.head?_eq_some_iff.mp hminus
    exact ⟨List.cons_ne_nil _ _, List.forall_mem_cons.mpr ⟨rfl, hunsigned _ h⟩⟩
  · obtain ⟨c, rest, rfl, -⟩ := isDigit_of_isUnsigned h
    exact ⟨List.cons_ne_nil _ _, hunsigned _ h⟩

/-- What is written for a real number is a word: the number, or null if
it is not finite. -/
theorem isWordChar_writeReal (value : Binary64) :
    (writeReal value).toList ≠ [] ∧ ∀ c ∈ (writeReal value).toList, isWordChar c = true := by
  cases hfinite : value.isFinite with
  | true => exact isWordChar_of_isNumber (isNumber_writeReal hfinite)
  | false =>
    rw [writeReal, hfinite]
    have hnull : "null".toList ≠ [] ∧ "null".toList.all isWordChar = true := by decide
    exact ⟨hnull.1, List.all_eq_true.mp hnull.2⟩

end Words

end Json

end LineLexer
