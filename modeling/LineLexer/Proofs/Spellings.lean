import LineLexer.Proofs.DecimalValue
import LineLexer.Proofs.HexNumber

/-!
# `LineLexer.Proofs.Spellings`: one integer in three spellings

A 64-bit integer can be written in decimal, in hexadecimal behind `0x`
or in hexadecimal before an `h`. Each of the three lines is one token,
and they agree on the value, up to the greatest integer and down to
all but the least one. The magnitude of the least integer is one more
than the greatest. A decimal number is given its sign before it is
compared with the range, a hexadecimal one after it. So the least
integer has only a decimal spelling.

* `Numeral.IsSpelling`: the three spellings, with any leading zeros
  and with letters of either case.
* `Numeral.printedLines`: the three lines that print an integer, which
  are such spellings.
* `taken_all`: when a run takes all bytes.
* `scanLine_of_begins`: a line that is one number is one token.
* `scanLine_spelling`: the value of a spelling.
* `scanLine_spelling_least`: the least integer in hexadecimal is
  reported and read as zero.
* `scanLine_printed`: the lines that print an integer agree on it, unless
  it is the least one.
-/

set_option autoImplicit false

namespace LineLexer

open Ascii Grammar

namespace Numeral

/-! ### Spellings -/

/-- The minus sign of a negative integer, and nothing for any other. -/
def minus (n : Int) : List UInt8 := if n < 0 then ['-'.toUInt8] else []

/-- The line spells the integer: a minus sign if it is negative, and then
its magnitude. The magnitude is written in decimal or, if the flag is set,
in hexadecimal behind `0x` or between `0` and `h`. There may be leading
zeros, and letters may be of either case. -/
inductive IsSpelling (n : Int) : Bool → List UInt8 → Prop where
  | decimal {ds : List UInt8} (hne : ds ≠ []) (hds : ∀ b ∈ ds, isDigit b = true)
      (hvalue : written ds = n.natAbs) : IsSpelling n false (minus n ++ ds)
  | hexPrefixed {x : UInt8} {hs : List UInt8} (hx : isPrefixMarker x = true) (hne : hs ≠ [])
      (hhs : ∀ b ∈ hs, isHexDigit b = true) (hvalue : hexWritten hs = n.natAbs) :
      IsSpelling n true (minus n ++ '0'.toUInt8 :: x :: hs)
  | hexSuffixed {h : UInt8} {hs : List UInt8} (hh : isSuffixMarker h = true) (hne : hs ≠ [])
      (hhs : ∀ b ∈ hs, isHexDigit b = true) (hvalue : hexWritten hs = n.natAbs) :
      IsSpelling n true (minus n ++ '0'.toUInt8 :: (hs ++ [h]))

/-- The digits that a number is printed with to some base. -/
def digitBytes (base n : Nat) : List UInt8 := (Nat.toDigits base n).map Char.toUInt8

/-- The three lines that print an integer: in decimal, in hexadecimal
behind `0x`, and in hexadecimal between `0` and `h`. -/
def printedLines (n : Int) : List (List UInt8) :=
  [minus n ++ digitBytes 10 n.natAbs,
    minus n ++ '0'.toUInt8 :: 'x'.toUInt8 :: digitBytes 16 n.natAbs,
    minus n ++ '0'.toUInt8 :: (digitBytes 16 n.natAbs ++ ['h'.toUInt8])]

/-- If each single digit of a base has a property and is worth its number,
the bytes that a number is printed with have the property, and their
worths add up to the number. -/
theorem digitBytes_spec {base : Nat} (hbase : 1 < base) (p : UInt8 → Bool) (worth : UInt8 → Nat)
    (hdigit : ∀ d < base, p d.digitChar.toUInt8 = true ∧ worth d.digitChar.toUInt8 = d) (n : Nat) :
    (∀ b ∈ digitBytes base n, p b = true) ∧
      Nat.ofDigits base ((digitBytes base n).map worth).reverse = n := by
  induction n using Nat.strong_induction_on with
  | _ n ih =>
    rw [digitBytes, Nat.toDigits_eq_if hbase]
    split
    · next hlt =>
      obtain ⟨hp, hworth⟩ := hdigit n hlt
      exact ⟨by simpa using hp, by simpa using hworth⟩
    · next hge =>
      have hpos : 0 < n := by omega
      obtain ⟨hall, hvalue⟩ := ih (n / base) (Nat.div_lt_self hpos hbase)
      obtain ⟨hp, hworth⟩ := hdigit (n % base) (Nat.mod_lt n (by omega))
      rw [digitBytes] at hall hvalue
      refine ⟨?_, ?_⟩
      · rw [List.map_append]
        exact List.forall_mem_append.mpr ⟨hall, List.forall_mem_singleton.mpr hp⟩
      · -- The last digit is what is left over the base.
        rw [List.map_append, List.map_append, List.reverse_append, List.map_singleton,
          List.map_singleton, List.reverse_singleton, List.singleton_append, Nat.ofDigits_cons,
          hvalue, hworth]
        exact Nat.mod_add_div n base

/-- A number is printed with at least one digit. -/
theorem digitBytes_ne_nil (base n : Nat) : digitBytes base n ≠ [] := by
  simp [digitBytes, Nat.toDigits_ne_nil]

/-- Each line that prints an integer is a spelling of the integer. -/
theorem isSpelling_printedLines (n : Int) :
    ∀ line ∈ printedLines n, ∃ hex, IsSpelling n hex line := by
  obtain ⟨hds, hdecimal⟩ :=
    digitBytes_spec (by decide : 1 < 10) isDigit digitValue (by decide +kernel) n.natAbs
  obtain ⟨hhs, hhex⟩ :=
    digitBytes_spec (by decide : 1 < 16) isHexDigit hexDigitValue (by decide +kernel) n.natAbs
  have hne := digitBytes_ne_nil 16 n.natAbs
  simp only [printedLines, List.forall_mem_cons]
  exact ⟨⟨false, .decimal (digitBytes_ne_nil 10 _) hds hdecimal⟩,
    ⟨true, .hexPrefixed rfl hne hhs hhex⟩, ⟨true, .hexSuffixed rfl hne hhs hhex⟩,
    List.forall_mem_nil _⟩

/-! ### Runs that take all bytes -/

section Run
variable {mode : Mode} {n : Numeral} {bytes : List UInt8}

/-- If each number that a run passes through takes the next byte, the run
takes all bytes. A predicate `P` on the number and the bytes ahead says
that the next byte will be taken. -/
theorem taken_all {classes : ClassTable} {reals : Bool} {P : Numeral → List UInt8 → Prop}
    (hstep : ∀ n b rest, P n (b :: rest) → ∃ next, n.next? classes reals b rest = some next ∧
      P next rest) (h : P n bytes) : (n.run classes reals bytes).2.1 = bytes := by
  induction bytes generalizing n with
  | nil => rfl
  | cons b rest ih =>
    obtain ⟨next, hnext, hrest⟩ := hstep n b rest h
    rw [run_of_next?_eq_some hnext, ih hrest]

/-- With nothing pinned, in every mode but word mode, a run takes all of a
string of decimal digits. -/
theorem taken_digits (hmode : mode ≠ .word) (n : Numeral)
    (h : ∀ b ∈ bytes, isDigit b = true) :
    (n.run (mode.classes .standard) (mode == .real) bytes).2.1 = bytes := by
  refine taken_all (P := fun _ bytes => ∀ b ∈ bytes, isDigit b = true) ?_ h
  intro n b rest hall
  obtain ⟨hb, hrest⟩ := List.forall_mem_cons.mp hall
  have hsome : (n.next? (mode.classes .standard) (mode == .real) b rest).isSome = true :=
    next?_isSome_of_isDigit hmode rfl hb
  obtain ⟨next, hnext⟩ := Option.isSome_iff_exists.mp hsome
  exact ⟨next, hnext, hrest⟩

/-- A number with a prefix marker still has it after it has taken a
byte. -/
theorem hexPrefix_of_took {reals : Bool} {next : Numeral} {b : UInt8} {rest : List UInt8}
    (h : Took reals n b rest next) (hmarked : n.hexPrefix = true) : next.hexPrefix = true := by
  cases h with
  | prefixMarker hb => rfl
  | _ => exact hmarked

/-- With nothing pinned, in every mode but word mode, a number with a
prefix marker takes all of a string of hexadecimal digits. -/
theorem taken_hexDigits (hmode : mode ≠ .word) (hmarked : n.hexPrefix = true)
    (h : ∀ b ∈ bytes, isHexDigit b = true) :
    (n.run (mode.classes .standard) (mode == .real) bytes).2.1 = bytes := by
  refine taken_all
    (P := fun n bytes => n.hexPrefix = true ∧ ∀ b ∈ bytes, isHexDigit b = true) ?_ ⟨hmarked, h⟩
  rintro n b rest ⟨hmarked, hall⟩
  obtain ⟨hb, hrest⟩ := List.forall_mem_cons.mp hall
  have hsome : (n.next? (mode.classes .standard) (mode == .real) b rest).isSome = true := by
    cases hdigit : isDigit b with
    | true => exact next?_isSome_of_isDigit hmode rfl hdigit
    | false =>
      have hplain := Bool.or_eq_false_iff.mp (isHexMarkerByte_eq_false (Or.inl hb))
      rw [next?, classes_of_isHexDigit hb hdigit]
      simp [nextLetter?, hplain.1, hplain.2, hb, hmarked]
  obtain ⟨next, hnext⟩ := Option.isSome_iff_exists.mp hsome
  exact ⟨next, hnext, hexPrefix_of_took (took_of_next? hnext) hmarked, hrest⟩

/-- With nothing pinned, in every mode but word mode, a run takes all of a
decimal digit, a prefix marker and hexadecimal digits. -/
theorem taken_prefixed (hmode : mode ≠ .word) (n : Numeral) {d x : UInt8}
    (hd : isDigit d = true) (hx : isPrefixMarker x = true)
    (h : ∀ b ∈ bytes, isHexDigit b = true) :
    (n.run (mode.classes .standard) (mode == .real) (d :: x :: bytes)).2.1 = d :: x :: bytes := by
  have hsome : (n.next? (mode.classes .standard) (mode == .real) d (x :: bytes)).isSome = true :=
    next?_isSome_of_isDigit hmode rfl hd
  obtain ⟨next, hnext⟩ := Option.isSome_iff_exists.mp hsome
  have hmarked : next.next? (mode.classes .standard) (mode == .real) x bytes
      = some { next.keep x with hexPrefix := true, hex := true } := by
    rw [next?, classes_of_isPrefixMarker hx]
    exact if_pos hx
  rw [run_of_next?_eq_some hnext, run_of_next?_eq_some hmarked, taken_hexDigits hmode rfl h]

/-- With nothing pinned, in every mode but word mode, a run takes all of a
string of hexadecimal digits and the suffix marker behind them. -/
theorem taken_suffixed (hmode : mode ≠ .word) (n : Numeral) {h : UInt8} {hs : List UInt8}
    (hh : isSuffixMarker h = true) (hhs : ∀ b ∈ hs, isHexDigit b = true) :
    (n.run (mode.classes .standard) (mode == .real) (hs ++ [h])).2.1 = hs ++ [h] := by
  refine taken_all (P := fun _ bytes => bytes = [] ∨
    ∃ hs, bytes = hs ++ [h] ∧ ∀ b ∈ hs, isHexDigit b = true) ?_ (Or.inr ⟨hs, rfl, hhs⟩)
  rintro n b rest (hnil | ⟨hs, heq, hhs⟩)
  · cases hnil
  · -- The marker can be seen from each of the digits, and from itself.
    have hahead : suffixAhead (b :: rest) = true := by
      have hnot : isHexDigit h = false := not_isHexDigit_of_isMarker.1 hh
      rw [heq, suffixAhead, List.dropWhile_append_of_pos hhs]
      simp [hnot, hh]
    have hsome : (n.next? (mode.classes .standard) (mode == .real) b rest).isSome = true :=
      next?_isSome_of_suffixAhead hmode rfl hahead
    obtain ⟨next, hnext⟩ := Option.isSome_iff_exists.mp hsome
    refine ⟨next, hnext, ?_⟩
    cases hs with
    | nil => exact Or.inl (List.cons.inj heq).2
    | cons c hs =>
      exact Or.inr ⟨hs, (List.cons.inj heq).2, (List.forall_mem_cons.mp hhs).2⟩

end Run

end Numeral

/-! ### A line that is one number -/

section Line
variable {mode : Mode} {sign bytes : List UInt8}

open Numeral

/-- A line of which a number takes all bytes has no NUL among them. -/
theorem Numeral.zero_not_mem_of_begins (hbegins : Begins mode sign bytes)
    (hall : ((signed (isMinus sign)).run (mode.classes .standard) (mode == .real) bytes).2.1
      = bytes) : 0 ∉ sign ++ bytes := by
  have hpart := part_of_run (mode.classes .standard) (mode == .real) (signed (isMinus sign)) bytes
  rw [hall] at hpart
  rw [List.mem_append, not_or]
  refine ⟨?_, fun hzero => absurd (hpart 0 hzero) (by decide)⟩
  cases hbegins with
  | unsigned hclass hplain => exact List.not_mem_nil
  | signed hsign hclass hplain =>
    rw [List.mem_singleton]
    rintro rfl
    cases hsign
  | underscored hreal => decide

/-- With nothing pinned, a line of which a number takes all bytes is one
token, and the token says what it should of that number. -/
theorem scanLine_of_begins (hmode : mode ≠ .rest) (hbegins : Begins mode sign bytes) (fold : Bool)
    (hall : ((signed (isMinus sign)).run (mode.classes .standard) (mode == .real) bytes).2.1
      = bytes) :
    ∃ token reported, scanLine (sign ++ bytes) ⟨fold, [], mode⟩ = ([token], reported) ∧
      token.span = ⟨0, (sign ++ bytes).length⟩ ∧
      ((signed (isMinus sign)).run (mode.classes .standard) (mode == .real) bytes).1.ScannedAs
        mode fold token reported := by
  obtain ⟨first, rest, heq, hfirst⟩ := hbegins.exists_cons
  obtain ⟨hlexeme, hmore⟩ := Lexeme.read_of_begins hbegins heq
  rw [hall] at hmore
  generalize hreading : Lexeme.read (mode.classes .standard) mode first rest = reading at *
  let cut : Lexeme.Cut := ⟨[], first, reading.more, reading.after, reading.lexeme⟩
  have hcut : Lexeme.cut? (mode.classes .standard) mode (sign ++ bytes) = some cut := by
    have hskipped : ∀ b ∈ ([] : List UInt8), mode.classes .standard b = .delimiter := nofun
    rw [heq, ← List.nil_append (first :: rest), Lexeme.cut?_of_read hmode hskipped hfirst, hreading]
  have hsource : cut.source = sign ++ bytes := hmore
  -- Nothing is left behind the number.
  have hafter : cut.after = [] := by
    have hparts := Lexeme.Cut.bytes_of_cut? hcut
    rw [hsource] at hparts
    exact List.append_right_eq_self.mp hparts
  have hscanned : scannedFrom (mode.classes .standard) mode fold 0 (sign ++ bytes) = _ :=
    scannedFrom_of_some hcut
  rw [hafter, scannedFrom_nil] at hscanned
  refine ⟨_, _, ?_, ?_, cut.scannedAs hlexeme (mode.classes .standard) mode fold 0⟩
  · rw [scanLine_of_pinned_nil (zero_not_mem_of_begins hbegins hall), hscanned,
      List.map_singleton, List.flatMap_singleton]
    rfl
  · rw [← hsource]
    show Span.mk 0 (0 + cut.source.length) = _
    rw [Nat.zero_add]

end Line

/-! ### The value of a spelling -/

namespace Numeral

section Value
variable {mode : Mode} {fold : Bool} {token : Token} {reported : List Diagnostic}

/-- The sign of an integer's spelling makes a number negative exactly if
the integer is. -/
theorem isMinus_minus (n : Int) : isMinus (minus n) = decide (n < 0) := by
  by_cases hn : n < 0
  · simp [minus, hn, isMinus]
  · simp [minus, hn, isMinus]

/-- The magnitude of an integer, negated if the integer is negative, is
the integer. -/
theorem signed_natAbs (n : Int) :
    (if decide (n < 0) = true then -(n.natAbs : Int) else n.natAbs) = n := by
  by_cases hn : n < 0
  · simp only [hn, decide_true, if_true]
    omega
  · simp only [hn, decide_false, Bool.false_eq_true, if_false]
    omega

/-- The sign of an integer's spelling and a decimal digit behind it begin
a number, in every mode but word mode. -/
theorem begins_of_minus (hmode : mode ≠ .word) (n : Int) {d : UInt8} {rest : List UInt8}
    (hd : isDigit d = true) : Begins mode (minus n) (d :: rest) := by
  have hclass := classes_of_isDigit hmode hd
  have hplain : d ≠ underscore := by
    rintro rfl
    cases hd
  unfold minus
  split
  · exact .signed rfl hclass hplain
  · exact .unsigned hclass hplain

/-- Decimal digits are read as the integer that they write with their
sign, if that is a 64-bit integer. -/
theorem intValue_of_digits (hmode : mode ≠ .word) {negative : Bool} {ds : List UInt8}
    (hne : ds ≠ []) (hds : ∀ b ∈ ds, isDigit b = true)
    (hscanned : ((signed negative).run (mode.classes .standard) (mode == .real) ds).1.ScannedAs
      mode fold token reported)
    (hrange : isInteger64 (if negative then -(written ds : Int) else written ds) = true) :
    token.intValue = (if negative then -(written ds : Int) else written ds) ∧ reported = [] := by
  have htaken := taken_digits hmode (signed negative) hds
  obtain ⟨-, hhex⟩ := text_of_run (mode.classes .standard) (mode == .real) (signed negative) ds
  obtain ⟨-, hnegative, htext⟩ :=
    kept_of_run (mode.classes .standard) (mode == .real) (signed negative) ds
  rw [htaken] at hhex htext
  -- Without a marker the number is divided into parts, of which the first is all of it.
  have hdecimal : ((signed negative).run (mode.classes .standard) (mode == .real) ds).1.hex
      = false := by
    rw [hhex, hex_signed, Bool.false_or, List.any_eq_false]
    intro b hb
    simp [isHexMarkerByte_eq_false (Or.inl (isHexDigit_of_isDigit (hds b hb)))]
  obtain ⟨whole, fraction, exponent, hparts⟩ := parts_of_run hmode negative ds hdecimal
  have htext' := htext hdecimal
  generalize (signed negative).run (mode.classes .standard) (mode == .real) ds = run at *
  have hwhole := hparts.takeWhile_text false
  rw [folded, if_neg Bool.false_ne_true, htext', text_signed, List.nil_append,
    List.takeWhile_eq_self_iff.mpr hds] at hwhole
  have hsigned : run.1.signedWhole = if negative then -(written ds : Int) else written ds := by
    rw [signedWhole, hparts.value, ← hwhole, hnegative]
    rfl
  rw [← hsigned] at hrange ⊢
  have hdigits : (whole ++ fraction).any isDigit = true := by
    obtain ⟨d, more, rfl⟩ := List.exists_cons_of_ne_nil hne
    rw [← hwhole]
    simp [hds d List.mem_cons_self]
  have hreported := reported_of_parts hscanned hparts
  rw [hrange, hdigits, if_pos rfl, if_neg (by simp)] at hreported
  refine ⟨?_, hreported⟩
  rw [hscanned.intValue, value?_of_parts hparts, hrange]
  rfl

/-- A zero in front of hexadecimal digits changes nothing. -/
theorem hexWritten_zero_cons (hs : List UInt8) :
    hexWritten ('0'.toUInt8 :: hs) = hexWritten hs := by
  rw [← List.singleton_append, hexWritten_append,
    show hexWritten ['0'.toUInt8] = 0 from rfl, Nat.zero_mul, Nat.zero_add]

/-- Hexadecimal digits that write the magnitude of an integer are read as
the integer without a fault, unless it is the least one. That one is
reported as out of range and read as zero. -/
theorem intValue_of_hexDigits {n : Int64} {hs : List UInt8}
    (hhs : ∀ b ∈ hs, isHexDigit b = true) (hvalue : hexWritten hs = n.toInt.natAbs)
    (htoken : token.IsHexadecimal mode reported ('0'.toUInt8 :: hs))
    (hnegative : token.flags.negative = decide (n.toInt < 0)) :
    (n ≠ Int64.minValue → token.intValue = n.toInt ∧ reported = []) ∧
      (n = Int64.minValue → token.intValue = 0 ∧
        reported = [Diagnostic.ofFault token.span ⟨.hexOutOfRange, token.text⟩]) := by
  have hall : ∀ b ∈ '0'.toUInt8 :: hs, isHexDigit b = true := List.forall_mem_cons.mpr ⟨rfl, hhs⟩
  have hwritten : hexWritten ('0'.toUInt8 :: hs) = n.toInt.natAbs := by
    rw [hexWritten_zero_cons, hvalue]
  have hlow := n.le_toInt
  have hhigh := n.toInt_lt
  have hleast : n = Int64.minValue ↔ n.toInt = -2 ^ 63 := by
    rw [← Int64.toInt_inj, Int64.toInt_minValue]
  refine ⟨?_, ?_⟩
  · intro hne
    -- Only the magnitude of the least integer is out of range.
    have hrange : n.toInt ≠ -2 ^ 63 := fun heq => hne (hleast.mpr heq)
    obtain ⟨hint, hnone⟩ := htoken.small hall (by rw [hwritten]; omega)
    refine ⟨?_, hnone⟩
    rw [hint, hwritten, hnegative, signed_natAbs]
  · intro heq
    have hrange : n.toInt = -2 ^ 63 := hleast.mp heq
    exact htoken.large hall (by rw [hwritten]; omega)

/-- Hexadecimal digits have no marker among them. -/
theorem unmarked_of_hexDigits {hs : List UInt8} (h : ∀ b ∈ hs, isHexDigit b = true) :
    unmarked hs = hs := by
  refine List.filter_eq_self.mpr fun b hb => ?_
  rw [isHexMarkerByte_eq_false (Or.inl (h b hb))]
  rfl

/-- A line of a sign, a zero, hexadecimal digits and their marker is one
token. It is read as the integer whose magnitude the digits write, or as
zero with a fault if that is the least integer. -/
theorem scanLine_of_hexDigits (hword : mode ≠ .word) (hrest : mode ≠ .rest) (fold : Bool)
    {n : Int64} {tail hs : List UInt8} (hhs : ∀ b ∈ hs, isHexDigit b = true)
    (hvalue : hexWritten hs = n.toInt.natAbs)
    (hall : ∀ n : Numeral, (n.run (mode.classes .standard) (mode == .real)
      ('0'.toUInt8 :: tail)).2.1 = '0'.toUInt8 :: tail)
    (hmarked : tail.any isHexMarkerByte = true) (hunmarked : unmarked tail = hs) :
    ∃ token reported,
      scanLine (minus n.toInt ++ '0'.toUInt8 :: tail) ⟨fold, [], mode⟩ = ([token], reported) ∧
      token.byteClass = .digit ∧
      token.span = ⟨0, (minus n.toInt ++ '0'.toUInt8 :: tail).length⟩ ∧
      (n ≠ Int64.minValue → token.intValue = n.toInt ∧ reported = []) ∧
      (n = Int64.minValue → token.intValue = 0 ∧
        reported = [Diagnostic.ofFault token.span ⟨.hexOutOfRange, token.text⟩]) := by
  have hzero : isDigit '0'.toUInt8 = true := rfl
  obtain ⟨token, reported, hline, hspan, hscanned⟩ :=
    scanLine_of_begins hrest (begins_of_minus hword n.toInt hzero) fold (hall _)
  rw [isMinus_minus] at hscanned
  have hrun := hall (signed (decide (n.toInt < 0)))
  obtain ⟨-, hhex⟩ := text_of_run (mode.classes .standard) (mode == .real)
    (signed (decide (n.toInt < 0))) ('0'.toUInt8 :: tail)
  obtain ⟨-, hnegative, -⟩ := kept_of_run (mode.classes .standard) (mode == .real)
    (signed (decide (n.toInt < 0))) ('0'.toUInt8 :: tail)
  rw [hrun, List.any_cons, hmarked, Bool.or_true, Bool.or_true] at hhex
  have htoken := isHexadecimal_of_run hscanned hhex
  rw [hrun, unmarked, List.filter_cons_of_pos rfl, ← unmarked, hunmarked] at htoken
  have hflag : token.flags.negative = decide (n.toInt < 0) := by
    rw [hscanned.flags]
    exact hnegative
  exact ⟨token, reported, hline, hscanned.byteClass, hspan,
    intValue_of_hexDigits hhs hvalue htoken hflag⟩

/-- A line of a sign and decimal digits is one token. It is read as the
integer whose magnitude the digits write. -/
theorem scanLine_of_digits (hword : mode ≠ .word) (hrest : mode ≠ .rest) (fold : Bool) {n : Int64}
    {ds : List UInt8} (hne : ds ≠ []) (hds : ∀ b ∈ ds, isDigit b = true)
    (hvalue : written ds = n.toInt.natAbs) :
    ∃ token reported,
      scanLine (minus n.toInt ++ ds) ⟨fold, [], mode⟩ = ([token], reported) ∧
      token.byteClass = .digit ∧ token.span = ⟨0, (minus n.toInt ++ ds).length⟩ ∧
      token.intValue = n.toInt ∧ reported = [] := by
  have hbegins : Begins mode (minus n.toInt) ds := by
    obtain ⟨d, more, rfl⟩ := List.exists_cons_of_ne_nil hne
    exact begins_of_minus hword n.toInt (hds d List.mem_cons_self)
  obtain ⟨token, reported, hline, hspan, hscanned⟩ :=
    scanLine_of_begins hrest hbegins fold (taken_digits hword _ hds)
  rw [isMinus_minus] at hscanned
  have hsigned : (if decide (n.toInt < 0) = true then -(written ds : Int) else written ds)
      = n.toInt := by
    rw [hvalue, signed_natAbs]
  have hrange : isInteger64 n.toInt = true :=
    (isInteger64_iff _).mpr ⟨n.le_toInt, n.toInt_lt⟩
  obtain ⟨hint, hnone⟩ :=
    intValue_of_digits hword hne hds hscanned (by rw [hsigned]; exact hrange)
  exact ⟨token, reported, hline, hscanned.byteClass, hspan, hint.trans hsigned, hnone⟩

/-- In a mode where numbers are read, every spelling of a 64-bit integer
is one token that covers the line. It is read as the integer, or as zero
with a fault if it is the least integer in hexadecimal. -/
theorem IsSpelling.exists_token (hword : mode ≠ .word) (hrest : mode ≠ .rest) (fold : Bool)
    {n : Int64} {hex : Bool} {line : List UInt8} (hline : IsSpelling n.toInt hex line) :
    ∃ token reported, scanLine line ⟨fold, [], mode⟩ = ([token], reported) ∧
      token.byteClass = .digit ∧ token.span = ⟨0, line.length⟩ ∧
      (¬ (hex = true ∧ n = Int64.minValue) → token.intValue = n.toInt ∧ reported = []) ∧
      (hex = true ∧ n = Int64.minValue → token.intValue = 0 ∧
        reported = [Diagnostic.ofFault token.span ⟨.hexOutOfRange, token.text⟩]) := by
  cases hline with
  | decimal hne hds hvalue =>
    obtain ⟨token, reported, hline, hclass, hspan, hread⟩ :=
      scanLine_of_digits hword hrest fold hne hds hvalue
    exact ⟨token, reported, hline, hclass, hspan, fun _ => hread, fun h => nomatch h.1⟩
  | @hexPrefixed x hs hx hne hhs hvalue =>
    -- The marker is no digit, so the value is that of the digits behind it.
    have hmarker : isHexMarkerByte x = true := by simp [isHexMarkerByte, hx]
    have hunmarked : unmarked (x :: hs) = hs := by
      rw [unmarked, List.filter_cons_of_neg (by simp [hmarker])]
      exact unmarked_of_hexDigits hhs
    obtain ⟨token, reported, hline, hclass, hspan, hread, hleast⟩ :=
      scanLine_of_hexDigits hword hrest fold hhs hvalue (fun n => taken_prefixed hword n rfl hx hhs)
        (by simp [hmarker]) hunmarked
    exact ⟨token, reported, hline, hclass, hspan, fun h => hread fun hn => h ⟨rfl, hn⟩,
      fun h => hleast h.2⟩
  | @hexSuffixed h hs hh hne hhs hvalue =>
    have hmarker : isHexMarkerByte h = true := by simp [isHexMarkerByte, hh]
    have hunmarked : unmarked (hs ++ [h]) = hs := by
      have hnone : unmarked [h] = [] := by simp [unmarked, hmarker]
      rw [unmarked, List.filter_append]
      show unmarked hs ++ unmarked [h] = hs
      rw [unmarked_of_hexDigits hhs, hnone, List.append_nil]
    have hall : ∀ b ∈ '0'.toUInt8 :: hs, isHexDigit b = true :=
      List.forall_mem_cons.mpr ⟨rfl, hhs⟩
    obtain ⟨token, reported, hline, hclass, hspan, hread, hleast⟩ :=
      scanLine_of_hexDigits hword hrest fold hhs hvalue (fun n => taken_suffixed hword n hh hall)
        (by simp [hmarker]) hunmarked
    exact ⟨token, reported, hline, hclass, hspan, fun h => hread fun hn => h ⟨rfl, hn⟩,
      fun h => hleast h.2⟩

end Value

end Numeral

open Numeral

/-- With nothing pinned, and whether real numbers are read or not, every
spelling of a 64-bit integer is one token that covers the line. Its value
is the integer and nothing is reported, unless the least integer is
spelled in hexadecimal. That spelling is reported as out of range and read
as zero. -/
theorem scanLine_spelling {mode : Mode} (hmode : mode = .plain ∨ mode = .real) (fold : Bool)
    {n : Int64} {hex : Bool} {line : List UInt8} (hline : IsSpelling n.toInt hex line) :
    ∃ token reported, scanLine line ⟨fold, [], mode⟩ = ([token], reported) ∧
      token.byteClass = .digit ∧ token.span = ⟨0, line.length⟩ ∧
      (¬ (hex = true ∧ n = Int64.minValue) → token.intValue = n.toInt ∧ reported = []) ∧
      (hex = true ∧ n = Int64.minValue → token.intValue = 0 ∧
        reported = [Diagnostic.ofFault token.span ⟨.hexOutOfRange, token.text⟩]) := by
  rcases hmode with rfl | rfl
  · exact hline.exists_token (by decide) (by decide) fold
  · exact hline.exists_token (by decide) (by decide) fold

/-- The line `-00fFh` is read as −255, here in real mode. -/
theorem scanLine_spelling_suffixed : ∃ token,
    scanLine [0x2d, 0x30, 0x30, 0x66, 0x46, 0x68] ⟨true, [], .real⟩ = ([token], []) ∧
      token.byteClass = .digit ∧ token.span = ⟨0, 6⟩ ∧ token.intValue = -255 := by
  have hvalue : hexWritten [0x30, 0x66, 0x46] = (-255 : Int).natAbs := by decide +kernel
  have hline : IsSpelling (-255 : Int64).toInt true [0x2d, 0x30, 0x30, 0x66, 0x46, 0x68] :=
    .hexSuffixed (h := 0x68) rfl (List.cons_ne_nil _ _) (by decide +kernel) hvalue
  obtain ⟨token, reported, hscan, hclass, hspan, hread, -⟩ :=
    scanLine_spelling (Or.inr rfl) true hline
  obtain ⟨hint, rfl⟩ := hread (by decide +kernel)
  exact ⟨token, hscan, hclass, hspan, hint⟩

/-- The least integer in hexadecimal, `-0x8000000000000000`, is read as
zero with a diagnostic. In decimal it is read as itself. -/
theorem scanLine_spelling_least :
    let hexLine := [0x2d, 0x30, 0x78, 0x38, 0x30, 0x30, 0x30, 0x30, 0x30, 0x30, 0x30, 0x30, 0x30,
      0x30, 0x30, 0x30, 0x30, 0x30, 0x30]
    let decimalLine := [0x2d, 0x39, 0x32, 0x32, 0x33, 0x33, 0x37, 0x32, 0x30, 0x33, 0x36, 0x38,
      0x35, 0x34, 0x37, 0x37, 0x35, 0x38, 0x30, 0x38]
    IsSpelling Int64.minValue.toInt true hexLine ∧
      (scanLine hexLine ⟨true, [], .plain⟩).1.map Token.intValue = [0] ∧
      (scanLine hexLine ⟨true, [], .plain⟩).2.length = 1 ∧
      IsSpelling Int64.minValue.toInt false decimalLine ∧
      (scanLine decimalLine ⟨true, [], .plain⟩).1.map Token.intValue = [Int64.minValue.toInt] ∧
      (scanLine decimalLine ⟨true, [], .plain⟩).2 = [] := by
  have hhex : hexWritten [0x38, 0x30, 0x30, 0x30, 0x30, 0x30, 0x30, 0x30, 0x30, 0x30, 0x30, 0x30,
      0x30, 0x30, 0x30, 0x30] = Int64.minValue.toInt.natAbs := by decide +kernel
  have hdecimal : written [0x39, 0x32, 0x32, 0x33, 0x33, 0x37, 0x32, 0x30, 0x33, 0x36, 0x38, 0x35,
      0x34, 0x37, 0x37, 0x35, 0x38, 0x30, 0x38] = Int64.minValue.toInt.natAbs := by decide +kernel
  refine ⟨.hexPrefixed (x := 0x78) rfl (List.cons_ne_nil _ _) (by decide +kernel) hhex, ?_, ?_,
    .decimal (List.cons_ne_nil _ _) (by decide +kernel) hdecimal, ?_, ?_⟩
  all_goals decide +kernel

/-- An integer other than the least one is read from each of the three
lines that print it, as one token and without a diagnostic. -/
theorem scanLine_printed {mode : Mode} (hmode : mode = .plain ∨ mode = .real) (fold : Bool)
    {n : Int64} (hn : n ≠ Int64.minValue) :
    ∀ line ∈ printedLines n.toInt, ∃ token, scanLine line ⟨fold, [], mode⟩ = ([token], []) ∧
      token.byteClass = .digit ∧ token.span = ⟨0, line.length⟩ ∧ token.intValue = n.toInt := by
  have hword : mode ≠ .word := by rcases hmode with rfl | rfl <;> decide
  have hrest : mode ≠ .rest := by rcases hmode with rfl | rfl <;> decide
  intro line hline
  obtain ⟨hex, hspelling⟩ := isSpelling_printedLines n.toInt line hline
  obtain ⟨token, reported, hscan, hclass, hspan, hread, -⟩ :=
    hspelling.exists_token hword hrest fold
  obtain ⟨hint, rfl⟩ := hread fun h => hn h.2
  exact ⟨token, hscan, hclass, hspan, hint⟩

end LineLexer
