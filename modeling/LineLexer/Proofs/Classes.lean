import Mathlib.Data.Fintype.Basic
import LineLexer.Lexeme

/-!
# `LineLexer.Proofs.Classes`: the classes in force while a lexeme is cut

A mode lends some bytes another class, and a settings' pinned bytes
are delimiters in every mode. What the scanner needs to know about the
table that results is little:

* `classes_eq_delimiter_iff`: no mode makes or unmakes a delimiter.
* `classes_pinAll`: in a table with pinned bytes, those are delimiters
  and every other byte has the class that it has without them.
* `classes_real`, `classes_word`: what the two modes that lend a class
  make of the first one.
* `classes_of_isDigit`, `classes_of_isHexDigit`,
  `classes_of_isSuffixMarker`, `classes_of_isPrefixMarker`,
  `classes_of_isSign`, `classes_underscore`: the classes of the bytes
  that numbers are made of, with nothing pinned.
* `classes_of_isQuote`, `ofByte?_isSome_of_classes`,
  `classes_word_ne`: what else a class tells about a byte.
* `ClassTable.SpellsOperators`: no pinning and no widening gives class
  operator to a byte that spells none.
* `silent_of_delimiter`: to that look ahead a standard delimiter says
  nothing.
-/

set_option autoImplicit false

namespace LineLexer

/-- What holds of the byte of every number below 256 holds of every byte.
A fact about all bytes can then be decided. -/
theorem forall_byte {p : UInt8 → Prop} (h : ∀ n : Fin 256, p (UInt8.ofNat n)) (b : UInt8) :
    p b := by
  have hb := h ⟨b.toNat, b.toNat_lt⟩
  rwa [UInt8.ofNat_toNat] at hb

/-! ### Delimiters -/

namespace Mode

/-- A byte is a delimiter in a mode exactly if it is one in the table. No
mode makes or unmakes a delimiter. -/
@[simp] theorem classes_eq_delimiter_iff (mode : Mode) (table : ClassTable) (b : UInt8) :
    mode.classes table b = .delimiter ↔ table b = .delimiter := by
  cases mode with
  | plain => exact Iff.rfl
  | real => exact ClassTable.widen_eq_delimiter_iff ..
  | word => exact ClassTable.widen_eq_delimiter_iff ..
  | rest => exact Iff.rfl

/-- A mode decides the class of a byte from its class in the table alone.
Two tables that agree on a byte agree on it in every mode. -/
theorem classes_congr (mode : Mode) {table other : ClassTable} {b : UInt8}
    (h : table b = other b) : mode.classes table b = mode.classes other b := by
  cases mode with
  | plain => exact h
  | real =>
    show table.widen .real b = other.widen .real b
    rw [ClassTable.widen_apply, ClassTable.widen_apply, ClassTable.isStandard,
      ClassTable.isStandard, h]
  | word =>
    show table.widen .word b = other.widen .word b
    rw [ClassTable.widen_apply, ClassTable.widen_apply, ClassTable.isStandard,
      ClassTable.isStandard, h]
  | rest => exact h

/-- Pinned bytes are delimiters in every mode, and the class of any
other byte does not depend on them. -/
theorem classes_pinAll (mode : Mode) (table : ClassTable) (pinned : List UInt8) (b : UInt8) :
    mode.classes (table.pinAll pinned) b
      = if b ∈ pinned then .delimiter else mode.classes table b := by
  split
  · next h => simp [ClassTable.pinAll_apply, h]
  · next h => exact classes_congr mode (by simp [ClassTable.pinAll_apply, h])

/-- Pinning leaves a byte its class unless it makes it a delimiter. -/
theorem classes_pinAll_cases (mode : Mode) (table : ClassTable) (pinned : List UInt8)
    (b : UInt8) :
    mode.classes (table.pinAll pinned) b = .delimiter ∨
      mode.classes (table.pinAll pinned) b = mode.classes table b := by
  rw [classes_pinAll]
  split
  · exact Or.inl rfl
  · exact Or.inr rfl

end Mode

/-! ### Nothing pinned -/

section Standard
variable {mode : Mode} {b : UInt8}

/-- Where real numbers are read, the point and the underscore are
digits. -/
theorem Mode.classes_real (b : UInt8) : Mode.real.classes .standard b
    = if b = '.'.toUInt8 ∨ b = '_'.toUInt8 then .digit else ByteClass.ofByte b := by
  show ClassTable.standard.widen .real b = _
  rw [ClassTable.widen_apply, ClassTable.isStandard, ClassTable.standard_apply,
    if_pos (beq_self_eq_true _), Widening.lends]
  split
  · rfl
  · rfl

/-- With nothing pinned, word mode knows two classes only: bytes that are
no delimiters have class other. -/
theorem Mode.classes_word (b : UInt8) : Mode.word.classes .standard b
    = if ByteClass.ofByte b = .delimiter then .delimiter else .other := by
  show ClassTable.standard.widen .word b = _
  rw [ClassTable.widen_apply, ClassTable.isStandard, ClassTable.standard_apply,
    if_pos (beq_self_eq_true _), Widening.lends]
  cases ByteClass.ofByte b <;> rfl

/-- A byte of class other that no mode lends another class has class other
in every mode. -/
theorem classes_of_other (hother : ByteClass.ofByte b = .other)
    (hlent : ¬ (b = '.'.toUInt8 ∨ b = '_'.toUInt8)) : mode.classes .standard b = .other := by
  cases mode with
  | plain => exact hother
  | real => rw [Mode.classes_real, if_neg hlent, hother]
  | word => rw [Mode.classes_word, hother, if_neg (by decide)]
  | rest => exact hother

/-- A byte has class operator in a mode only if it has that class by
itself. -/
theorem ofByte_of_classes (h : mode.classes .standard b = .operator) :
    ByteClass.ofByte b = .operator := by
  cases mode with
  | plain => exact h
  | real =>
    rw [Mode.classes_real] at h
    split at h
    · cases h
    · exact h
  | word =>
    rw [Mode.classes_word] at h
    split at h <;> cases h
  | rest => exact h

/-- In word mode, and with nothing pinned, no byte has class digit or
operator. -/
theorem classes_word_ne : ¬ (Mode.word.classes .standard b = .digit ∨
    Mode.word.classes .standard b = .operator) := by
  rw [Mode.classes_word]
  split <;> simp

/-! ### The bytes that numbers are made of -/

/-- A decimal digit has class digit in every mode but word mode, where it
is part of a word. -/
theorem classes_of_isDigit (hmode : mode ≠ .word) (h : Ascii.isDigit b = true) :
    mode.classes .standard b = .digit := by
  have hdigit : ByteClass.ofByte b = .digit :=
    (ByteClass.ofByte_eq_digit_iff b).mpr (by simpa [Ascii.isDigit] using h)
  cases mode with
  | plain => exact hdigit
  | real =>
    rw [Mode.classes_real]
    split
    · rfl
    · exact hdigit
  | word => exact absurd rfl hmode
  | rest => exact hdigit

/-- A hexadecimal letter has class other in every mode. A number takes it
by looking ahead, and not for its class. -/
theorem classes_of_isHexDigit (h : Ascii.isHexDigit b = true)
    (hletter : Ascii.isDigit b = false) : mode.classes .standard b = .other := by
  have hall : ∀ b : UInt8, Ascii.isHexDigit b = true → Ascii.isDigit b = false →
      ByteClass.ofByte b = .other ∧ ¬ (b = '.'.toUInt8 ∨ b = '_'.toUInt8) :=
    forall_byte (by decide +kernel)
  exact classes_of_other (hall b h hletter).1 (hall b h hletter).2

/-- The marker behind hexadecimal digits has class other in every
mode. -/
theorem classes_of_isSuffixMarker (h : Numeral.isSuffixMarker b = true) :
    mode.classes .standard b = .other := by
  have hall : ∀ b : UInt8, Numeral.isSuffixMarker b = true →
      ByteClass.ofByte b = .other ∧ ¬ (b = '.'.toUInt8 ∨ b = '_'.toUInt8) :=
    forall_byte (by decide +kernel)
  exact classes_of_other (hall b h).1 (hall b h).2

/-- The marker in front of hexadecimal digits has class other in every
mode. -/
theorem classes_of_isPrefixMarker (h : Numeral.isPrefixMarker b = true) :
    mode.classes .standard b = .other := by
  have hall : ∀ b : UInt8, Numeral.isPrefixMarker b = true →
      ByteClass.ofByte b = .other ∧ ¬ (b = '.'.toUInt8 ∨ b = '_'.toUInt8) :=
    forall_byte (by decide +kernel)
  exact classes_of_other (hall b h).1 (hall b h).2

/-- The markers of hexadecimal numbers are no digits of theirs, and
the one in front is not the one behind. -/
theorem not_isHexDigit_of_isMarker :
    (Numeral.isSuffixMarker b = true → Ascii.isHexDigit b = false) ∧
      (Numeral.isPrefixMarker b = true →
        Ascii.isHexDigit b = false ∧ Numeral.isSuffixMarker b = false) := by
  revert b
  apply forall_byte
  decide +kernel

/-- A sign has class operator in every mode but word mode, where it is
part of a word. -/
theorem classes_of_isSign (hmode : mode ≠ .word) (h : Ascii.isSign b = true) :
    mode.classes .standard b = .operator := by
  have hall : ∀ b : UInt8, Ascii.isSign b = true →
      ByteClass.ofByte b = .operator ∧ ¬ (b = '.'.toUInt8 ∨ b = '_'.toUInt8) :=
    forall_byte (by decide +kernel)
  obtain ⟨hoperator, hlent⟩ := hall b h
  cases mode with
  | plain => exact hoperator
  | real => rw [Mode.classes_real, if_neg hlent, hoperator]
  | word => exact absurd rfl hmode
  | rest => exact hoperator

/-- The underscore has class digit in real mode, so a number can begin
with it. -/
theorem classes_underscore : Mode.real.classes .standard Numeral.underscore = .digit := by
  decide

/-- A quote has class other in every mode. The scanner asks for quotes
before it reads a word. -/
theorem classes_of_isQuote (h : Ascii.isQuote b = true) :
    mode.classes .standard b = .other := by
  have hall : ∀ b : UInt8, Ascii.isQuote b = true →
      ByteClass.ofByte b = .other ∧ ¬ (b = '.'.toUInt8 ∨ b = '_'.toUInt8) :=
    forall_byte (by decide +kernel)
  exact classes_of_other (hall b h).1 (hall b h).2

/-- With nothing pinned, a byte of class operator spells an operator
alone. The scan of an operator therefore always finds one. -/
theorem ofByte?_isSome_of_classes (h : mode.classes .standard b = .operator) :
    (Operator.ofByte? b).isSome = true := by
  have hall : ∀ b ∈ ByteClass.operatorBytes, (Operator.ofByte? b).isSome = true := by
    decide +kernel
  have hoperator := ofByte_of_classes h
  unfold ByteClass.ofByte at hoperator
  split at hoperator
  · cases hoperator
  split at hoperator
  · cases hoperator
  split at hoperator
  · next hmem => exact hall b (List.contains_iff_mem.mp hmem)
  · cases hoperator

end Standard

/-! ### Operators in a changed table -/

/-- Every byte of class operator spells an operator alone. Pinning and
widening keep this, as neither gives a byte that class. -/
def ClassTable.SpellsOperators (table : ClassTable) : Prop :=
  ∀ b, table b = .operator → (Operator.ofByte? b).isSome = true

namespace ClassTable
variable {table : ClassTable}

/-- In the standard table every byte of class operator spells an
operator. -/
theorem spellsOperators_standard : standard.SpellsOperators := by
  intro b hb
  have hplain : Mode.plain.classes .standard b = .operator := hb
  exact ofByte?_isSome_of_classes hplain

/-- Pinning a byte gives class operator to no byte, so in the new table
too such bytes spell operators. -/
theorem SpellsOperators.pin (h : table.SpellsOperators) (byte : UInt8) :
    (table.pin byte).SpellsOperators := by
  intro b hb
  rw [pin_apply] at hb
  split at hb
  · cases hb
  · exact h b hb

/-- Pinning several bytes gives class operator to no byte, so in the new
table too such bytes spell operators. -/
theorem SpellsOperators.pinAll (h : table.SpellsOperators) (bytes : List UInt8) :
    (table.pinAll bytes).SpellsOperators := by
  intro b hb
  rw [pinAll_apply] at hb
  split at hb
  · cases hb
  · exact h b hb

/-- No widening lends class operator to a byte. -/
theorem lends_ne_operator (widening : Widening) (b : UInt8) :
    widening.lends b ≠ some .operator := by
  cases widening with
  | real =>
    rw [Widening.lends]
    split <;> simp
  | word =>
    rw [Widening.lends]
    split <;> simp

/-- Widening gives class operator to no byte, so in the new table too such
bytes spell operators. -/
theorem SpellsOperators.widen (h : table.SpellsOperators) (widening : Widening) :
    (table.widen widening).SpellsOperators := by
  intro b hb
  rw [widen_apply] at hb
  split at hb
  · cases hlends : widening.lends b with
    | none => exact h b (by simpa [hlends] using hb)
    | some c =>
      have hc : c = .operator := by simpa [hlends] using hb
      exact absurd (hc ▸ hlends) (lends_ne_operator widening b)
  · exact h b hb

/-- An operator is read from any bytes that begin with one of class
operator. A scan in such a table never finds an operator byte without an
operator. -/
theorem SpellsOperators.exists_read? (h : table.SpellsOperators) {first : UInt8}
    (hfirst : table first = .operator) (tail : List UInt8) :
    ∃ op length, Operator.read? (first :: tail) = some (op, length) := by
  obtain ⟨simple, hsimple⟩ := Option.isSome_iff_exists.mp (h first hfirst)
  rw [Operator.read?, hsimple]
  exact ⟨_, _, rfl⟩

/-- In every mode a byte of class operator spells an operator, if it does
so in the table that the mode starts from. -/
theorem SpellsOperators.classes (h : table.SpellsOperators) (mode : Mode) :
    (mode.classes table).SpellsOperators := by
  cases mode with
  | plain => exact h
  | real => exact h.widen .real
  | word => exact h.widen .word
  | rest => exact h

end ClassTable

/-! ### What says nothing to the look ahead -/

/-- A byte that neither continues nor ends a run of hexadecimal digits
nor has a place in an exponent. -/
structure Silent (b : UInt8) : Prop where
  hexDigit : Ascii.isHexDigit b = false
  suffixMarker : Numeral.isSuffixMarker b = false
  digit : Ascii.isDigit b = false
  sign : Ascii.isSign b = false
  underscore : (b == Numeral.underscore) = false

/-- A standard delimiter neither continues nor ends a run of hexadecimal
digits, and has no place in an exponent. -/
theorem silent_of_delimiter {b : UInt8} (h : ByteClass.ofByte b = .delimiter) : Silent b := by
  have hall : ∀ b : UInt8, b ≤ ' '.toUInt8 ∨ b = ';'.toUInt8 →
      Ascii.isHexDigit b = false ∧ Numeral.isSuffixMarker b = false ∧
        Ascii.isDigit b = false ∧ Ascii.isSign b = false ∧
          (b == Numeral.underscore) = false :=
    forall_byte (by decide +kernel)
  obtain ⟨hhex, hsuffix, hdigit, hsign, hunderscore⟩ :=
    hall b ((ByteClass.ofByte_eq_delimiter_iff b).mp h)
  exact ⟨hhex, hsuffix, hdigit, hsign, hunderscore⟩

end LineLexer
