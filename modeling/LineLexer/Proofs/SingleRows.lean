import LineLexer.Proofs.InputLines
import LineLexer.Proofs.JsonNumber
import LineLexer.Proofs.SourceText
import LineLexer.Proofs.Folding

/-!
# `LineLexer.Proofs.SingleRows`: no newline gets into a row of text

In text format the texts of tokens are shown as they are, control
characters and all. Still every row is one row. A line has no newline
among its bytes, decoding makes none of other bytes, and the text of a
token is decoded from bytes of its line. The text of a diagnostic is
quoted, and a newline would be escaped there.

* `IsRow`: a text without newlines.
* `isRow_decode`: what is decoded from bytes without newlines is a row.
* `isRow_quoted`: a text in quotes, with its newlines escaped, is a row.
* `isRow_of_scanLine`: the texts of a line's tokens and diagnostics are
  rows.
* `Token.isRow_row`, `Diagnostic.isRow_row`: what a report shows of a
  token and of a diagnostic is a row.
-/

set_option autoImplicit false

namespace LineLexer

open Ascii

/-! ### Texts without newlines -/

/-- A text without newlines, which is one row when a newline is written
behind it. -/
def IsRow (text : String) : Prop := '\n' ∉ text.toList

instance (text : String) : Decidable (IsRow text) :=
  inferInstanceAs (Decidable ('\n' ∉ text.toList))

/-- A character that is in neither of two texts is not in both of
them. -/
theorem not_mem_append {c : Char} {text other : String} (h : c ∉ text.toList)
    (hother : c ∉ other.toList) : c ∉ (text ++ other).toList := by
  rw [String.toList_append, List.mem_append]
  exact not_or.mpr ⟨h, hother⟩

/-- Two texts without newlines make one text without newlines. -/
theorem IsRow.append {text other : String} (h : IsRow text) (hother : IsRow other) :
    IsRow (text ++ other) := not_mem_append h hother

/-- Texts without newlines make a text without newlines, with another one
between any two. -/
theorem IsRow.intercalate {sep : String} (hsep : IsRow sep) {texts : List String}
    (h : ∀ text ∈ texts, IsRow text) : IsRow (sep.intercalate texts) := by
  induction texts with
  | nil => exact List.not_mem_nil
  | cons text rest ih =>
    obtain ⟨htext, hrest⟩ := List.forall_mem_cons.mp h
    cases rest with
    | nil => rwa [String.intercalate_singleton]
    | cons next later =>
      rw [String.intercalate_cons_cons]
      exact (htext.append hsep).append (ih hrest)

/-- A text without newlines has none with spaces behind it either. -/
theorem IsRow.padded {text : String} (h : IsRow text) (width : Nat) :
    IsRow (padded width text) := by
  refine h.append ?_
  rw [IsRow, String.toList_ofList]
  exact fun hmem => absurd (List.eq_of_mem_replicate hmem) (by decide)

/-- A character that is no part of a word is not in the text of a
number. -/
theorem not_mem_toString {c : Char} (h : Json.isWordChar c = false) (n : Int) :
    c ∉ (toString n).toList := by
  intro hmem
  have hword := (Json.isWordChar_of_isNumber (Json.isNumber_int n)).2 c hmem
  rw [h] at hword
  cases hword

/-- There is no newline in the text of an integer. -/
theorem isRow_int (n : Int) : IsRow (toString n) := not_mem_toString (by decide) n

/-- There is no newline in the text of a natural number. -/
theorem isRow_nat (n : Nat) : IsRow (toString n) := isRow_int n

/-! ### Decoded bytes -/

/-- No number above the ASCII characters stands for a newline. -/
theorem ofNat_ne_newline {point : Nat} (h : 0x80 ≤ point) : Char.ofNat point ≠ '\n' := by
  by_cases hvalid : point.isValidChar
  · rw [Char.ofNat, dif_pos hvalid]
    intro heq
    have hnewline : point = 10 := congrArg Char.toNat heq
    omega
  · rw [Char.ofNat, dif_neg hvalid]
    show '\x00' ≠ '\n'
    decide

/-- A character that is read from a byte which is not ASCII is no
newline. -/
theorem Utf8.readChar_ne_newline {lead : UInt8} (h : ¬ lead < 0x80) (rest : List UInt8) :
    (readChar lead rest).1 ≠ '\n' := by
  have hreplacement : replacement ≠ '\n' := by decide
  unfold readChar
  cases hcount : tailCount? lead with
  | none => exact hreplacement
  | some count =>
    dsimp only
    split
    · next hlength => exact ofNat_ne_newline (codePoint_ge h hcount hlength)
    · exact hreplacement

/-- Bytes without newlines are read as a text without newlines. A byte
that is replaced becomes U+FFFD, which is none. -/
theorem isRow_decode {bytes : List UInt8} (h : 0x0A ∉ bytes) : IsRow (Utf8.decode bytes) := by
  rw [IsRow, Utf8.decode, String.toList_ofList]
  fun_induction Utf8.decodeChars bytes with
  | case1 => exact List.not_mem_nil
  | case2 lead rest ih =>
    -- The character takes some of the bytes, and the others have no newline either.
    refine List.not_mem_cons_of_ne_of_not_mem ?_
      (ih fun hmem => h (List.mem_cons_of_mem _ (List.mem_of_mem_drop hmem)))
    by_cases hlead : lead < 0x80
    · have hchar : ∀ b : UInt8, b < 0x80 → 0x0A ≠ b → '\n' ≠ Char.ofNat b.toNat :=
        forall_byte (by decide +kernel)
      rw [Utf8.readChar_ascii hlead]
      exact hchar lead hlead (List.ne_of_not_mem_cons h)
    · exact (Utf8.readChar_ne_newline hlead rest).symm

/-- Folding bytes without newlines makes no newline. -/
theorem newline_not_mem_folded {bytes : List UInt8} (h : 0x0A ∉ bytes) (fold : Bool) :
    0x0A ∉ folded fold bytes := by
  have hupper : ∀ b : UInt8, toUpper b = 0x0A → b = 0x0A := forall_byte (by decide +kernel)
  cases fold with
  | false => exact h
  | true =>
    intro hmem
    obtain ⟨b, hb, heq⟩ := List.mem_map.mp hmem
    exact h (hupper b heq ▸ hb)

/-- The bytes of a number without its sign and markers are among the bytes
of the number. -/
theorem Numeral.unsuffixed_unsigned_subset (bytes : List UInt8) :
    unsuffixed (unsigned bytes) ⊆ bytes := by
  intro b hb
  have hmem := List.mem_of_mem_filter hb
  cases bytes with
  | nil => exact hmem
  | cons first rest =>
    rw [unsigned] at hmem
    split at hmem
    · exact List.mem_cons_of_mem _ hmem
    · exact hmem

/-- The text of a lexeme that is made of bytes without newlines has no
newline. -/
theorem Lexeme.MadeOf.isRow_text {lexeme : Lexeme} {mode : Mode} {source : List UInt8}
    (h : lexeme.MadeOf mode source) (hsource : 0x0A ∉ source) (fold : Bool) :
    IsRow (lexeme.text fold) := by
  have hpart : ∀ bytes, bytes ⊆ source → IsRow (Utf8.decode (folded fold bytes)) := by
    intro bytes hbytes
    exact isRow_decode (newline_not_mem_folded (fun hmem => hsource (hbytes hmem)) fold)
  cases h with
  | operator op => exact hpart _ (List.Subset.refl _)
  | word hplain => exact hpart _ (List.Subset.refl _)
  | @numeral n _ htext =>
    rw [Lexeme.text, htext]
    exact hpart _ (Numeral.unsuffixed_unsigned_subset source)
  | unclosed hmode hquote hinside =>
    exact (hpart _ (List.subset_cons_self _ _)).append (hpart _ (List.nil_subset _))
  | closed hmode hquote hinside htail =>
    refine (hpart _ fun b hb => ?_).append (hpart _ fun b hb => ?_) <;> simp [hb]

/-! ### Diagnostics -/

/-- There is no newline among the hexadecimal digits of a number. -/
theorem newline_not_mem_toDigits (n : Nat) : '\n' ∉ Nat.toDigits 16 n := by
  have hdigit : ∀ n < 16, '\n' ∉ [n.digitChar] := by decide
  induction n using Nat.strongRecOn with
  | ind n ih =>
    rw [Nat.toDigits_eq_if (by decide)]
    split
    · next hn => exact hdigit n hn
    · rw [List.mem_append]
      exact not_or.mpr ⟨ih (n / 16) (by omega), hdigit (n % 16) (by omega)⟩

/-- There is no newline in what a character is escaped to. -/
theorem newline_not_mem_escapeChar (c : Char) : '\n' ∉ Quoted.escapeChar c := by
  rw [Quoted.escapeChar]
  split_ifs with hnul htab hnewline hreturn hquote hslash hplain
  · decide
  · decide
  · decide
  · decide
  · decide
  · decide
  · -- A newline does not come as far as this.
    exact fun hmem => hnewline (List.mem_singleton.mp hmem).symm
  · have hdigits := newline_not_mem_toDigits c.toNat
    simp [Quoted.codePointEscape, hdigits]

/-- There is no newline in a quoted text, as newlines are escaped like all
controls. -/
theorem isRow_quoted (text : String) : IsRow (Quoted.quoted text) := by
  rw [IsRow, Quoted.quoted, String.toList_ofList]
  simp only [List.cons_append, List.mem_cons, List.mem_append, List.mem_flatMap,
    List.not_mem_nil, or_false]
  rintro (h | ⟨c, -, h⟩ | h)
  · cases h
  · exact newline_not_mem_escapeChar c h
  · cases h

/-- There is no newline in the message of a fault, as the text that it
names is quoted. -/
theorem NumeralFault.isRow_message (fault : NumeralFault) : IsRow fault.message := by
  have hshown := isRow_quoted fault.text
  rw [message]
  split
  · exact hshown.append (by decide)
  · exact (IsRow.append (by decide) hshown).append (by decide)
  · exact (IsRow.append (by decide) hshown).append (by decide)

/-! ### The tokens and diagnostics of a line -/

/-- Neither the texts of a line's tokens nor those of its diagnostics
have a newline, if the line has none. -/
theorem isRow_of_scanLine {bytes : List UInt8} (h : 0x0A ∉ bytes) (settings : Settings) :
    (∀ token ∈ (scanLine bytes settings).1, IsRow token.text) ∧
      ∀ d ∈ (scanLine bytes settings).2, IsRow d.text := by
  have hspells : settings.classes.SpellsOperators :=
    (ClassTable.spellsOperators_standard.pinAll _).classes _
  have hnumbers : settings.classes.SpellsNumbers :=
    ClassTable.lasting_spellsNumbers.classes
      (ClassTable.lasting_spellsNumbers.pinAll ClassTable.lasting_spellsNumbers.standard _) _
  rw [scanLine_eq]
  -- Tokens and diagnostics are those of cuts, and a cut covers bytes of the line.
  refine ⟨fun token htoken => ?_, fun d hd => ?_⟩
  · obtain ⟨s, hs, rfl⟩ := List.mem_map.mp htoken
    obtain ⟨place, cut, hcut, rfl⟩ := exists_cut_of_mem_scannedFrom (List.drop_zero) s hs
    have hsource : 0x0A ∉ cut.source := by
      intro hmem
      have hline : 0x0A ∈ (bytes.takeWhile (· != 0)).drop place := by
        rw [← Lexeme.Cut.bytes_of_cut? hcut]
        exact List.mem_append_left _ (List.mem_append_right _ hmem)
      exact h ((List.takeWhile_sublist _).mem (List.mem_of_mem_drop hline))
    exact (Lexeme.madeOf_cut? hspells hnumbers hcut).isRow_text hsource _
  · obtain ⟨s, hs, hd⟩ := List.mem_flatMap.mp hd
    obtain ⟨place, cut, hcut, rfl⟩ := exists_cut_of_mem_scannedFrom (List.drop_zero) s hs
    obtain ⟨fault, -, rfl⟩ := List.mem_map.mp hd
    exact fault.isRow_message

/-! ### Rows -/

/-- The row of a token has no newline, if the token's text has none. The
other parts are numbers and fixed words. -/
theorem Token.isRow_row {token : Token} (h : IsRow token.text) (number : Nat) :
    IsRow (token.row number) := by
  have hclass : IsRow token.byteClass.name := by
    cases token.byteClass <;> decide
  have hdisplay : IsRow token.display := by
    rw [display]
    split
    · split
      · exact IsRow.append (by decide) h
      · exact h
    · split
      · exact (IsRow.append (by decide) h).append (by decide)
      · exact h
    · exact h
    · exact h
  have hnumber : IsRow s!"{number}:" := (isRow_nat number).append (by decide)
  have hfirst : IsRow s!"{number}:{token.span.start + 1}-" :=
    (hnumber.append (isRow_nat _)).append (by decide)
  have hcolumns : IsRow s!"{number}:{token.span.start + 1}-{token.span.stop}: " :=
    (hfirst.append (isRow_nat _)).append (by decide)
  have hspace : IsRow " " := by decide
  exact ((((hcolumns.append (hclass.padded 9)).append hspace).append
    (hdisplay.padded 12)).append hspace).append (isRow_int _)

/-- The row of a diagnostic has no newline, if its text has none. The
other parts are numbers and fixed words. -/
theorem Diagnostic.isRow_row {d : Diagnostic} (h : IsRow d.text) (number : Nat) :
    IsRow (d.row number) := by
  have hdisplay : IsRow d.display := by
    have hcolon : IsRow ": " := by decide
    have hseverity : IsRow d.severity.name := by
      cases d.severity
      decide
    rw [display]
    refine (((IsRow.append ?_ hcolon).append hseverity).append hcolon).append h
    split
    · exact isRow_nat _
    · exact ((isRow_nat _).append (by decide)).append (isRow_nat _)
  exact ((isRow_nat number).append (by decide)).append hdisplay

end LineLexer
