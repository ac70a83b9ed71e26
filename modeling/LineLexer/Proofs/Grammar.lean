import Mathlib.Computability.Language
import LineLexer.Numeral

/-!
# `LineLexer.Proofs.Grammar`: what numbers look like

The numbers that the scanner reads are written in regular languages of
bytes, here as sets of lists with union, concatenation and repetition.
None of them mentions how a number is read.

* `plainNumber`: a number where no real numbers are read. It begins
  with a digit, and has hexadecimal digits only where a marker behind
  them or an `x` before them says that they are digits.
* `realNumber`: a real number without its sign, as it may be written.
* `mantissa`, `capitalExponent`: the parts of the text of a number without
  hexadecimal marker, of which the first may have no digit at all.
* `IsLongestPrefix`: the longest front of some bytes that a language
  has.
-/

set_option autoImplicit false

namespace LineLexer.Grammar

open scoped Computability
open Ascii Numeral

/-! ### Languages of bytes -/

/-- The words of one byte that passes a test. -/
def byte (p : UInt8 → Bool) : Language UInt8 := {w | ∃ b, p b = true ∧ w = [b]}

/-- The empty word, and the words of the language. -/
def optional (l : Language UInt8) : Language UInt8 := 1 + l

/-- The longest front of some bytes that a language has: it is in the
language, and no longer front is. -/
structure IsLongestPrefix (l : Language UInt8) (bytes w : List UInt8) : Prop where
  front : w <+: bytes
  mem : w ∈ l
  longest : ∀ v, v <+: bytes → v ∈ l → v.length ≤ w.length

/-! ### Numbers -/

/-- A word of one decimal digit. -/
def digit : Language UInt8 := byte isDigit

/-- The words of decimal digits, of which there is at least one. -/
def digits : Language UInt8 := digit * digit∗

/-- A word of one hexadecimal digit, of either case. -/
def hexDigit : Language UInt8 := byte isHexDigit

/-- Whether a byte is a marker of hexadecimal numbers, in front of digits
or behind them. -/
def isHexMarkerByte (b : UInt8) : Bool := isPrefixMarker b || isSuffixMarker b

/-- A group of digits: a decimal one, or hexadecimal ones with the
marker behind them. -/
def group : Language UInt8 := digit + hexDigit∗ * byte isSuffixMarker

/-- What may follow the first digit of a number: groups of digits, and
then, behind an `x`, hexadecimal digits and markers in any order. -/
def groups : Language UInt8 :=
  group∗ * optional (byte isPrefixMarker * (hexDigit + byte isHexMarkerByte)∗)

/-- A number where no real numbers are read: a digit, and groups of digits
behind it. -/
def plainNumber : Language UInt8 := digit * groups

/-- Whether a byte spells a sign where real numbers are read. The
underscore spells a minus sign. -/
def isSignByte (b : UInt8) : Bool := isSign b || b == underscore

/-- A sign where real numbers are read, the underscore included. -/
def sign : Language UInt8 := byte isSignByte

/-- The decimal point, as a word of one byte. -/
def decimalPoint : Language UInt8 := byte (· == '.'.toUInt8)

/-- The words of a point with any number of digits behind it, and the
empty word. -/
def fraction : Language UInt8 := optional (decimalPoint * digit∗)

/-- An exponent: a marker that passes the test, at most one sign, and at
least one digit. -/
def exponentWith (isMarker : UInt8 → Bool) : Language UInt8 :=
  byte isMarker * optional sign * digits

/-- A real number without its sign, as it may be written. Digits stand on
one side of the point at least, and an exponent may follow. -/
def realNumber : Language UInt8 :=
  (digits * fraction + decimalPoint * digits) * optional (exponentWith isExponentMarker)

/-- Digits with or without a point, all of which may be missing. The text
of every number without marker begins like this. -/
def mantissa : Language UInt8 := digit∗ * fraction

/-- An exponent with a capital marker, as the text of a token has it where
letters are put in capitals. -/
def capitalExponent : Language UInt8 := exponentWith (· == 'E'.toUInt8)

/-! ### Membership -/

section Membership
variable {p q : UInt8 → Bool} {l : Language UInt8} {u v w : List UInt8} {b : UInt8}

/-- A word is one byte that passes a test if it consists of such a
byte. -/
theorem mem_byte : w ∈ byte p ↔ ∃ b, p b = true ∧ w = [b] := Iff.rfl

/-- A byte by itself is a word of one byte that passes a test exactly if
it passes the test. -/
@[simp] theorem singleton_mem_byte : [b] ∈ byte p ↔ p b = true := by
  rw [mem_byte]
  constructor
  · rintro ⟨c, hc, heq⟩
    cases heq
    exact hc
  · intro h
    exact ⟨b, h, rfl⟩

/-- A word of an optional part is empty, or a word of the part. -/
theorem mem_optional : w ∈ optional l ↔ w = [] ∨ w ∈ l := by
  rw [optional, Language.mem_add, Language.mem_one]

/-- A byte that passes one of two tests is a byte that passes either. -/
theorem byte_add : byte p + byte q = byte fun b => p b || q b := by
  ext w
  simp only [Language.mem_add, mem_byte, Bool.or_eq_true]
  constructor
  · rintro (⟨b, hb, rfl⟩ | ⟨b, hb, rfl⟩)
    · exact ⟨b, Or.inl hb, rfl⟩
    · exact ⟨b, Or.inr hb, rfl⟩
  · rintro ⟨b, hb | hb, rfl⟩
    · exact Or.inl ⟨b, hb, rfl⟩
    · exact Or.inr ⟨b, hb, rfl⟩

/-- A word in front of a repetition makes a longer repetition. -/
theorem append_mem_kstar (hu : u ∈ l) (hv : v ∈ l∗) : u ++ v ∈ l∗ := by
  obtain ⟨words, rfl, hwords⟩ := Language.mem_kstar.mp hv
  refine Language.mem_kstar.mpr ⟨u :: words, List.flatten_cons.symm, ?_⟩
  intro w hw
  rcases List.mem_cons.mp hw with rfl | hw
  · exact hu
  · exact hwords w hw

/-- What holds of the empty word, and of a word of the language in front
of any repetition of which it holds, holds of every repetition. -/
theorem kstar_induction {P : List UInt8 → Prop} (hnil : P [])
    (happend : ∀ u ∈ l, ∀ v, P v → P (u ++ v)) (hw : w ∈ l∗) : P w := by
  obtain ⟨words, rfl, hwords⟩ := Language.mem_kstar.mp hw
  induction words with
  | nil => exact hnil
  | cons u words ih =>
    have hmore : ∀ v ∈ words, v ∈ l := fun v hv => hwords v (List.mem_cons_of_mem _ hv)
    rw [List.flatten_cons]
    exact happend u (hwords u List.mem_cons_self) _ (ih hmore (Language.join_mem_kstar hmore))

/-- A word is a repetition of bytes that pass a test exactly if all of its
bytes pass the test. -/
theorem mem_kstar_byte : w ∈ (byte p)∗ ↔ ∀ b ∈ w, p b = true := by
  constructor
  · intro hw
    refine kstar_induction (P := fun w => ∀ b ∈ w, p b = true) ?_ ?_ hw
    · intro b hb
      cases hb
    · rintro u ⟨c, hc, rfl⟩ v hv b hb
      rcases List.mem_cons.mp hb with rfl | hb
      · exact hc
      · exact hv b hb
  · intro hall
    induction w with
    | nil => exact Language.nil_mem_kstar _
    | cons b w ih =>
      have hb : [b] ∈ byte p := singleton_mem_byte.mpr (hall b List.mem_cons_self)
      exact append_mem_kstar hb (ih fun c hc => hall c (List.mem_cons_of_mem _ hc))

/-- A word is a number's digits exactly if it is not empty and all of its
bytes are digits. -/
theorem mem_digits : w ∈ digits ↔ w ≠ [] ∧ ∀ b ∈ w, isDigit b = true := by
  rw [digits, digit, Language.mem_mul]
  constructor
  · rintro ⟨u, ⟨b, hb, rfl⟩, v, hv, rfl⟩
    refine ⟨List.cons_ne_nil b v, ?_⟩
    intro c hc
    rcases List.mem_cons.mp hc with rfl | hc
    · exact hb
    · exact mem_kstar_byte.mp hv c hc
  · rintro ⟨hne, hall⟩
    obtain ⟨b, v, rfl⟩ := List.exists_cons_of_ne_nil hne
    exact ⟨[b], singleton_mem_byte.mpr (hall b List.mem_cons_self), v,
      mem_kstar_byte.mpr fun c hc => hall c (List.mem_cons_of_mem _ hc), rfl⟩

/-- A word of an optional byte is empty, or one byte that passes the
test. -/
theorem mem_optional_byte : w ∈ optional (byte p) ↔ w = [] ∨ ∃ b, p b = true ∧ w = [b] := by
  rw [mem_optional, mem_byte]

/-- A word is a fraction exactly if it is empty, or a point with digits
behind it. -/
theorem mem_fraction : w ∈ fraction ↔
    w = [] ∨ ∃ ds, (∀ b ∈ ds, isDigit b = true) ∧ w = '.'.toUInt8 :: ds := by
  rw [fraction, mem_optional, Language.mem_mul]
  refine or_congr Iff.rfl ⟨?_, ?_⟩
  · rintro ⟨u, ⟨b, hb, rfl⟩, v, hv, rfl⟩
    obtain rfl := beq_iff_eq.mp hb
    exact ⟨v, mem_kstar_byte.mp hv, rfl⟩
  · rintro ⟨ds, hds, rfl⟩
    exact ⟨['.'.toUInt8], singleton_mem_byte.mpr (beq_self_eq_true _), ds,
      mem_kstar_byte.mpr hds, rfl⟩

/-- A word is a mantissa exactly if it is made of digits and a fraction,
both of which may be empty. -/
theorem mem_mantissa : w ∈ mantissa ↔
    ∃ ds f, (∀ b ∈ ds, isDigit b = true) ∧ f ∈ fraction ∧ w = ds ++ f := by
  rw [mantissa, digit, Language.mem_mul]
  constructor
  · rintro ⟨ds, hds, f, hf, rfl⟩
    exact ⟨ds, f, mem_kstar_byte.mp hds, hf, rfl⟩
  · rintro ⟨ds, f, hds, hf, rfl⟩
    exact ⟨ds, mem_kstar_byte.mpr hds, f, hf, rfl⟩

/-- A word is an exponent exactly if it is made of a marker, at most one
sign, and at least one digit. -/
theorem mem_exponentWith : w ∈ exponentWith p ↔
    ∃ e s ds, p e = true ∧ s ∈ optional sign ∧ ds ∈ digits ∧ w = e :: (s ++ ds) := by
  rw [exponentWith, Language.mem_mul]
  constructor
  · rintro ⟨u, hu, ds, hds, rfl⟩
    obtain ⟨_, ⟨e, he, rfl⟩, s, hs, rfl⟩ := Language.mem_mul.mp hu
    exact ⟨e, s, ds, he, hs, hds, rfl⟩
  · rintro ⟨e, s, ds, he, hs, hds, rfl⟩
    exact ⟨[e] ++ s, Language.append_mem_mul (singleton_mem_byte.mpr he) hs, ds, hds, rfl⟩

/-- A real number is a mantissa that has a digit, and an exponent behind
it, which may be missing. -/
theorem exists_of_mem_realNumber (h : w ∈ realNumber) :
    ∃ m e, w = m ++ e ∧ m ∈ mantissa ∧ (∃ b ∈ m, isDigit b = true) ∧
      e ∈ optional (exponentWith isExponentMarker) := by
  obtain ⟨m, hm, e, he, rfl⟩ := Language.mem_mul.mp h
  refine ⟨m, e, rfl, ?_, ?_, he⟩
  · rcases (Language.mem_add _ _ _).mp hm with hm | hm
    · obtain ⟨ds, hds, f, hf, rfl⟩ := Language.mem_mul.mp hm
      exact mem_mantissa.mpr ⟨ds, f, (mem_digits.mp hds).2, hf, rfl⟩
    · obtain ⟨_, ⟨p, hp, rfl⟩, ds, hds, rfl⟩ := Language.mem_mul.mp hm
      obtain rfl := beq_iff_eq.mp hp
      have hf : '.'.toUInt8 :: ds ∈ fraction :=
        mem_fraction.mpr (Or.inr ⟨ds, (mem_digits.mp hds).2, rfl⟩)
      exact mem_mantissa.mpr ⟨[], _, nofun, hf, rfl⟩
  · -- One side of the point at least has digits, and these are not empty.
    have hdigit : ∀ ds ∈ digits, ∃ b ∈ ds, isDigit b = true := by
      intro ds hds
      obtain ⟨hne, hall⟩ := mem_digits.mp hds
      exact ⟨_, List.head_mem hne, hall _ (List.head_mem hne)⟩
    rcases (Language.mem_add _ _ _).mp hm with hm | hm
    · obtain ⟨ds, hds, f, -, rfl⟩ := Language.mem_mul.mp hm
      obtain ⟨b, hb, hisDigit⟩ := hdigit ds hds
      exact ⟨b, List.mem_append_left f hb, hisDigit⟩
    · obtain ⟨p, -, ds, hds, rfl⟩ := Language.mem_mul.mp hm
      obtain ⟨b, hb, hisDigit⟩ := hdigit ds hds
      exact ⟨b, List.mem_append_right p hb, hisDigit⟩

end Membership

end LineLexer.Grammar
