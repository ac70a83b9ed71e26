import LineLexer.Proofs.HexReading
import LineLexer.Proofs.SignAndRun

/-!
# `LineLexer.Proofs.HexNumber`: the value of a hexadecimal number

The bytes of a hexadecimal number take several ways into its text. A
marker in front of digits is kept and one behind them is not, the sign
is set apart, and a point or an exponent may have been taken before
the first marker. The value is that of the bytes themselves all the
same: without the sign and without the markers they are read to the
base of sixteen.

* `hexBytes`: the bytes of a number without its sign and its markers.
* `Token.IsHexadecimal`: what the token of a hexadecimal number says,
  and what is reported about it.
* `Cursor.intValue_of_hex`: the value and the diagnostic of every
  hexadecimal number that a scan returns, whatever is pinned.
-/

set_option autoImplicit false

namespace LineLexer

open Ascii Grammar

namespace Numeral

/-! ### The bytes of a number -/

/-- The bytes of a number without the sign in front, if it has one. -/
def unsigned : List UInt8 → List UInt8
  | [] => []
  | b :: rest => if isSignByte b then rest else b :: rest

/-- The bytes of a number without its sign and without the markers of
hexadecimal numbers. -/
def hexBytes (source : List UInt8) : List UInt8 := unmarked (unsigned source)

/-- The bytes of a number without its sign are those of the run behind the
sign. -/
theorem unsigned_append {mode : Mode} {sign bytes taken : List UInt8}
    (hbegins : Begins mode sign bytes) (htaken : taken <+: bytes) (hne : sign ++ taken ≠ []) :
    unsigned (sign ++ taken) = taken := by
  cases hbegins with
  | @unsigned b rest hclass hplain =>
    -- The first byte is a digit or the point, and no sign.
    have hfirst : isSignByte b = false := by
      have hall : ∀ b : UInt8, isDigit b = true ∨ b = '.'.toUInt8 → isSignByte b = false :=
        forall_byte (by decide +kernel)
      rcases eq_of_classes_digit hclass with hdigit | hpoint | hunderscore
      · exact hall b (Or.inl hdigit)
      · exact hall b (Or.inr hpoint)
      · exact absurd hunderscore hplain
    cases taken with
    | nil => exact absurd rfl hne
    | cons c taken =>
      obtain ⟨rfl, -⟩ := List.cons_prefix_cons.mp htaken
      rw [List.nil_append, unsigned, if_neg (by simp [hfirst])]
  | @signed s b rest hsign hclass hplain =>
    have hs : isSignByte s = true := by simp [isSignByte, hsign]
    rw [List.singleton_append, unsigned, if_pos hs]
  | underscored hmode => rfl

end Numeral

/-! ### The token -/

/-- What the token of a hexadecimal number says, and what is reported
about it, if these are its bytes without sign and markers. They are
read from left to right, so digits in front that write a number out of
range are reported even if a byte behind them is no digit. -/
structure Token.IsHexadecimal (token : Token) (mode : Mode) (reported : List Diagnostic)
    (bytes : List UInt8) : Prop where
  /-- Markers alone write zero, and nothing is reported about them. -/
  empty : bytes = [] → token.intValue = 0 ∧ reported = []
  small : (∀ b ∈ bytes, isHexDigit b = true) → Numeral.hexWritten bytes < 2 ^ 63 →
    token.intValue = (if token.flags.negative then -(Numeral.hexWritten bytes : Int)
      else Numeral.hexWritten bytes) ∧ reported = []
  large : (∀ b ∈ bytes, isHexDigit b = true) → 2 ^ 63 ≤ Numeral.hexWritten bytes →
    token.intValue = 0 ∧ reported = [Diagnostic.ofFault token.span ⟨.hexOutOfRange, token.text⟩]
  malformed : (∃ b ∈ bytes, isHexDigit b = false) → token.intValue = 0 ∧
    reported = [Diagnostic.ofFault token.span
      ⟨if 2 ^ 63 ≤ Numeral.hexWritten (bytes.takeWhile isHexDigit) then .hexOutOfRange
        else .malformed, token.text⟩]
  realValue : token.realValue
    = if mode = .real then some (Binary64.ofInt token.intValue) else none

namespace Numeral

section Scanned
variable {n : Numeral} {mode : Mode} {fold : Bool} {token : Token} {reported : List Diagnostic}

/-- The token of a hexadecimal number has the value of its text or none, and
there is no other fault than that of the integer value. -/
theorem fields_of_hex (hscanned : n.ScannedAs mode fold token reported) (hhex : n.hex = true) :
    token.intValue = recovered 0 ((readHex token.text).map fun value =>
        if n.negative then -value else value) ∧
      reported = (faultOf (readHex token.text)).map (Diagnostic.ofFault token.span) ∧
      token.realValue = if mode = .real then some (Binary64.ofInt token.intValue) else none := by
  have hvalue : n.value? token.text
      = (readHex token.text).map fun value => if n.negative then -value else value := by
    rw [value?, if_pos hhex]
  have hreal : n.realValue? token.text token.intValue = .ok (Binary64.ofInt token.intValue) := by
    rw [realValue?, if_pos hhex]
  refine ⟨?_, ?_, ?_⟩
  · rw [hscanned.intValue, hvalue]
  · rw [hscanned.reported, hvalue, hreal]
    cases readHex token.text <;> cases mode <;> rfl
  · rw [hscanned.realValue, hreal]
    rfl

/-- The token of a hexadecimal number whose text has no sign says what the
text without its prefix markers writes. -/
theorem isHexadecimal_of_scanned (hscanned : n.ScannedAs mode fold token reported)
    (hhex : n.hex = true) (hunsigned : n.Unsigned) :
    token.IsHexadecimal mode reported (unprefixed n.text) := by
  obtain ⟨hint, hreported, hreal⟩ := fields_of_hex hscanned hhex
  have hread := readHex_folded (mode.folds fold) hunsigned.ascii hunsigned.head
  dsimp only at hread
  rw [← hscanned.text] at hread
  generalize unprefixed n.text = bytes at hread
  have hnegative : n.negative = token.flags.negative := by rw [hscanned.flags]
  -- Where all bytes are digits, those at the start are all of them.
  have hall : (∀ b ∈ bytes, isHexDigit b = true) →
      bytes.takeWhile isHexDigit = bytes ∧ bytes.all isHexDigit = true := by
    intro h
    exact ⟨List.takeWhile_eq_self_iff.mpr h, List.all_eq_true.mpr h⟩
  have hsmall : (∀ b ∈ bytes, isHexDigit b = true) → hexWritten bytes < 2 ^ 63 →
      token.intValue = (if token.flags.negative then -(hexWritten bytes : Int)
        else hexWritten bytes) ∧ reported = [] := by
    intro hdigits hlt
    obtain ⟨htake, hevery⟩ := hall hdigits
    rw [htake, hevery, if_neg (Nat.not_le.mpr hlt), if_pos rfl] at hread
    rw [hint, hreported, hread, hnegative]
    exact ⟨rfl, rfl⟩
  refine ⟨?_, hsmall, ?_, ?_, hreal⟩
  · rintro rfl
    obtain ⟨hvalue, hnone⟩ := hsmall nofun (by decide)
    refine ⟨?_, hnone⟩
    rw [hvalue]
    split <;> rfl
  · intro hdigits hle
    obtain ⟨htake, -⟩ := hall hdigits
    rw [htake, if_pos hle] at hread
    rw [hint, hreported, hread]
    exact ⟨rfl, rfl⟩
  · rintro ⟨b, hb, hnot⟩
    have hsome : bytes.all isHexDigit = false := List.all_eq_false.mpr ⟨b, hb, by simp [hnot]⟩
    have hfault : readHex token.text = .error
        ⟨if 2 ^ 63 ≤ hexWritten (bytes.takeWhile isHexDigit) then .hexOutOfRange else .malformed,
          token.text⟩ := by
      rw [hread, hsome, if_neg Bool.false_ne_true]
      split <;> rfl
    rw [hint, hreported, hfault]
    exact ⟨rfl, rfl⟩

/-- The token of a hexadecimal number that is a run behind its sign says
what the bytes of the run without their markers write. -/
theorem isHexadecimal_of_run {negative : Bool} {classes : ClassTable} {reals : Bool}
    {bytes : List UInt8}
    (hscanned : ((signed negative).run classes reals bytes).1.ScannedAs mode fold token reported)
    (hhex : ((signed negative).run classes reals bytes).1.hex = true) :
    token.IsHexadecimal mode reported
      (unmarked ((signed negative).run classes reals bytes).2.1) := by
  have htext := (text_of_run classes reals (signed negative) bytes).1
  rw [text_signed, List.nil_append] at htext
  rw [← unprefixed_unsuffixed, ← htext]
  exact isHexadecimal_of_scanned hscanned hhex
    (unsigned_run (unsigned_signed negative) classes reals bytes)

end Scanned

end Numeral

namespace Cursor

open Numeral

variable {cursor next : Cursor} {mode : Mode} {fold : Bool} {token : Token}

/-- Whatever is pinned, the value of a hexadecimal number is what its
bytes write without its sign and its markers, with its sign. If they
write no number in range, the value is zero, and that is reported
once. Nothing else is reported about it. -/
theorem intValue_of_hex {pinned : List UInt8}
    (hclasses : cursor.classes = ClassTable.standard.pinAll pinned)
    (h : cursor.scan mode fold = (some token, next)) (hdigit : token.byteClass = .digit)
    (hhex : token.flags.hex = true) :
    ∃ reported, next.diagnostics = cursor.diagnostics ++ reported ∧
      token.IsHexadecimal mode reported (hexBytes (token.span.slice cursor.line.bytes)) := by
  obtain ⟨sign, bytes, reported, hbegins, hdiagnostics, hscanned, hslice, hne⟩ :=
    run_of_scan hclasses h hdigit
  rw [hscanned.flags] at hhex
  have htaken := unsigned_append hbegins ⟨_, run_append ..⟩ hne
  refine ⟨reported, hdiagnostics, ?_⟩
  rw [hslice, hexBytes, htaken]
  exact isHexadecimal_of_run hscanned hhex

/-- The number `_0xfFh` of the line `; _0xfFh:1`, where the colon is
pinned. -/
theorem intValue_of_hex_before_colon : ∃ cursor token next reported,
    (Settings.mk true [0x3a] .real).cursor?
        [0x3b, 0x20, 0x5f, 0x30, 0x78, 0x66, 0x46, 0x68, 0x3a, 0x31] = some cursor ∧
    cursor.scan .real true = (some token, next) ∧ token.byteClass = .digit ∧
    token.flags.hex = true ∧ next.diagnostics = cursor.diagnostics ++ reported ∧
    token.IsHexadecimal .real reported [0x30, 0x66, 0x46] := by
  obtain ⟨cursor, token, next, hcursor, hclasses, hscan, hdigit, hhex, hbytes⟩ :
      ∃ cursor token next, (Settings.mk true [0x3a] .real).cursor?
          [0x3b, 0x20, 0x5f, 0x30, 0x78, 0x66, 0x46, 0x68, 0x3a, 0x31] = some cursor ∧
        cursor.classes = ClassTable.standard.pinAll [0x3a] ∧
        cursor.scan .real true = (some token, next) ∧ token.byteClass = .digit ∧
        token.flags.hex = true ∧
        hexBytes (token.span.slice cursor.line.bytes) = [0x30, 0x66, 0x46] :=
    ⟨_, _, _, rfl, rfl, rfl, rfl, by decide +kernel, by decide +kernel⟩
  obtain ⟨reported, hdiagnostics, hvalue⟩ := intValue_of_hex hclasses hscan hdigit hhex
  rw [hbytes] at hvalue
  exact ⟨cursor, token, next, reported, hcursor, hscan, hdigit, hhex, hdiagnostics, hvalue⟩

end Cursor

end LineLexer
