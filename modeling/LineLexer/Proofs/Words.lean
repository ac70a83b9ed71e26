import Mathlib.Algebra.GroupWithZero.Nat
import LineLexer.Proofs.Covered
import LineLexer.Proofs.Whole

/-!
# `LineLexer.Proofs.Words`: in word mode a line is split

Word mode reads a line with the scanner of all modes, on a table where
digits and operator bytes are ordinary. What comes out is what a plain
splitter finds, which knows of separators and quotes only.

* `Words.spans`: the splitter. A word that begins with a quote goes on
  to just past the next such quote; any word goes on from there over
  the bytes that are no separators.
* `Words.length_more_read`: the scanner's word is as long.
* `Words.IsWord`: what the token of a word says, the sum of its bytes
  included.
* `scanLine_words`: the tokens of a line in word mode are the
  splitter's, and nothing is reported about them.
-/

set_option autoImplicit false

namespace LineLexer

open Ascii

/-! ### The splitter -/

namespace Words

/-- Whether a byte separates words: the pinned ones do besides the
standard delimiters. -/
def separates (pinned : List UInt8) (b : UInt8) : Bool :=
  pinned.contains b || ByteClass.ofByte b == .delimiter

section Splitter
variable (sep : UInt8 → Bool)

/-- The number of bytes up to and with the next quote, or of all if
there is none. -/
def quotedLength (quote : UInt8) (rest : List UInt8) : Nat :=
  min ((rest.takeWhile (· != quote)).length + 1) rest.length

/-- The number of bytes with which the word that begins with `first`
goes on: those that belong to a quote, and then the longest run of
bytes that are no separators. -/
def moreLength (first : UInt8) (rest : List UInt8) : Nat :=
  let quoted := if isQuote first then quotedLength first rest else 0
  quoted + ((rest.drop quoted).takeWhile fun b => !sep b).length

/-- The words of some bytes, the first of which stands at the position
`start` of its line. -/
def spans (start : Nat) (bytes : List UInt8) : List Span :=
  match _h : bytes.dropWhile sep with
  | [] => []
  | first :: rest =>
    let place := start + (bytes.takeWhile sep).length
    let stop := place + 1 + moreLength sep first rest
    ⟨place, stop⟩ :: spans stop (rest.drop (moreLength sep first rest))
termination_by bytes.length
decreasing_by
  have hle := bytes.length_dropWhile_le sep
  rw [_h, List.length_cons] at hle
  rw [List.length_drop]
  omega

variable {sep} {start : Nat} {bytes : List UInt8}

/-- Bytes that are all separators have no words. -/
theorem spans_of_nil (h : bytes.dropWhile sep = []) : spans sep start bytes = [] := by
  rw [spans]
  split
  · rfl
  · next heq =>
    rw [h] at heq
    cases heq

/-- The first word comes before those of the bytes behind it. -/
theorem spans_of_cons {first : UInt8} {rest : List UInt8}
    (h : bytes.dropWhile sep = first :: rest) :
    spans sep start bytes
      = let place := start + (bytes.takeWhile sep).length
        let stop := place + 1 + moreLength sep first rest
        ⟨place, stop⟩ :: spans sep stop (rest.drop (moreLength sep first rest)) := by
  rw [spans]
  split
  · next heq =>
    rw [h] at heq
    cases heq
  · next heq =>
    rw [h] at heq
    cases heq
    rfl

end Splitter

-- The quoted word `'c d'e` goes on over the space inside it.
example : spans (separates [','.toUInt8]) 0 ("ab,'c d'e;f".toList.map Char.toUInt8)
    = [⟨0, 2⟩, ⟨3, 9⟩, ⟨10, 11⟩] := by cbv

/-! ### The scanner's words -/

/-- A class table of word mode: the separators are delimiters in it, and
all other bytes have class other. -/
def IsTable (sep : UInt8 → Bool) (classes : ClassTable) : Prop :=
  ∀ b, classes b = if sep b then .delimiter else .other

/-- The table of word mode under any settings knows of separators and
other bytes only, the pinned bytes being separators. -/
theorem isTable_classes (fold : Bool) (pinned : List UInt8) :
    IsTable (separates pinned) (Settings.mk fold pinned .word).classes := by
  intro b
  rw [Settings.classes, Mode.classes_pinAll, Mode.classes_word]
  by_cases hpinned : b ∈ pinned
  · simp [separates, hpinned]
  · simp [separates, hpinned]

section Read
variable {sep : UInt8 → Bool} {classes : ClassTable} {first : UInt8} {rest : List UInt8}

/-- In a table of word mode the delimiters are the separators. -/
theorem IsTable.beq_delimiter (h : IsTable sep classes) (b : UInt8) :
    (classes b == .delimiter) = sep b := by
  rw [h b]
  cases sep b <;> rfl

/-- In a table of word mode the bytes of class other are those that are no
separators. -/
theorem IsTable.beq_other (h : IsTable sep classes) (b : UInt8) :
    (classes b == .other) = !sep b := by
  rw [h b]
  cases sep b <;> rfl

/-- The word that the scanner reads at a quote is as long as the
splitter's. -/
theorem length_more_readQuoted (h : IsTable sep classes) (hquote : isQuote first = true) :
    (Lexeme.readQuoted classes .word first rest).more.length = moreLength sep first rest := by
  rw [moreLength, if_pos hquote]
  -- Only behind a closing quote is anything left to go on with.
  by_cases hclosed : first ∈ rest
  · obtain ⟨inside, behind, rfl, hinside⟩ := List.eq_append_cons_of_mem hclosed
    have hlength : quotedLength first (inside ++ first :: behind) = inside.length + 1 := by
      rw [quotedLength, Lexeme.takeWhile_bne hinside, List.length_append, List.length_cons]
      omega
    have hdrop : (inside ++ first :: behind).drop (inside.length + 1) = behind := by
      rw [← List.drop_drop, List.drop_left, List.drop_one, List.tail_cons]
    rw [Lexeme.readQuoted_of_closed hinside, if_pos rfl, hlength, hdrop]
    simp only [h.beq_other, List.length_append, List.length_cons]
    omega
  · have hlength : quotedLength first rest = rest.length := by
      rw [quotedLength, List.takeWhile_eq_self_iff.mpr (Lexeme.forall_bne hclosed)]
      omega
    rw [Lexeme.readQuoted_of_unclosed hclosed, hlength, List.drop_length]
    rfl

/-- The word that the scanner reads at any byte but a separator is as long
as the splitter's, and it is quoted exactly if that byte is a quote. -/
theorem length_more_read (h : IsTable sep classes) (hfirst : sep first = false)
    (rest : List UInt8) :
    (Lexeme.read classes .word first rest).more.length = moreLength sep first rest ∧
      (Lexeme.read classes .word first rest).lexeme.byteClass = .other ∧
      (Lexeme.read classes .word first rest).lexeme.flags
        = { Flags.none with quoted := isQuote first } := by
  have hclass : classes first = .other := by
    rw [h first, hfirst]
    rfl
  cases hquote : isQuote first with
  | true =>
    have hquoted : (Lexeme.readQuoted classes .word first rest).lexeme.flags.quoted = true :=
      Lexeme.quoted_of_readQuoted first
    obtain ⟨inside, tail, hlexeme⟩ := Lexeme.exists_quoted_of_flags hquoted
    rw [Lexeme.read_of_quote hclass hquote, hlexeme]
    exact ⟨length_more_readQuoted h hquote, rfl, rfl⟩
  | false =>
    rw [Lexeme.read_of_word hclass hquote, moreLength, if_neg (by simp [hquote])]
    refine ⟨?_, rfl, rfl⟩
    simp only [Lexeme.readWord, h.beq_other, Nat.zero_add, List.drop_zero]

end Read

/-! ### Whole lines -/

section Lines
variable {sep : UInt8 → Bool} {classes : ClassTable} {bytes : List UInt8} {cut : Lexeme.Cut}

/-- The scanner passes over separators only before its next word, and the
word is as long as the splitter's. -/
theorem length_more_of_cut? (h : IsTable sep classes)
    (hcut : Lexeme.cut? classes .word bytes = some cut) :
    (∀ b ∈ cut.skipped, sep b = true) ∧ sep cut.first = false ∧
      cut.more.length = moreLength sep cut.first (cut.more ++ cut.after) ∧
      cut.lexeme.byteClass = .other ∧
      cut.lexeme.flags = { Flags.none with quoted := isQuote cut.first } := by
  obtain ⟨hskipped, hfirst, hread⟩ := Lexeme.read_of_cut? (by decide) hcut
  have hstop : sep cut.first = false := by
    rw [← h.beq_delimiter, beq_eq_false_iff_ne]
    exact hfirst
  have hword := length_more_read h hstop (cut.more ++ cut.after)
  rw [hread] at hword
  refine ⟨fun b hb => ?_, hstop, hword⟩
  rw [← h.beq_delimiter, hskipped b hb]
  rfl

/-- The first word of the splitter covers what the scanner's next cut
does, and the others are those of the bytes behind the cut. -/
theorem spans_of_cut? (h : IsTable sep classes)
    (hcut : Lexeme.cut? classes .word bytes = some cut) (start : Nat) :
    spans sep start bytes
      = let place := start + cut.skipped.length
        ⟨place, place + cut.source.length⟩
          :: spans sep (place + cut.source.length) cut.after := by
  obtain ⟨hsep, hstop, hlength, -, -⟩ := length_more_of_cut? h hcut
  have hbytes := Lexeme.Cut.bytes_of_cut? hcut
  rw [Lexeme.Cut.source, List.append_assoc, List.cons_append] at hbytes
  have hhead : ∀ b ∈ (cut.first :: (cut.more ++ cut.after)).head?, sep b = false := by
    rintro b ⟨⟩
    exact hstop
  rw [← hbytes, spans_of_cons (Lexeme.dropWhile_append_stop hsep hhead),
    Lexeme.takeWhile_append_stop hsep hhead, ← hlength, List.drop_left]
  simp only [Lexeme.Cut.source, List.length_cons, Nat.add_assoc, Nat.add_comm 1]

/-- The tokens of the scanner cover the words of the splitter. -/
theorem spans_scannedFrom (h : IsTable sep classes) (fold : Bool) (start : Nat)
    (bytes : List UInt8) :
    (scannedFrom classes .word fold start bytes).map (fun s => s.token.span)
      = spans sep start bytes := by
  fun_induction scannedFrom classes .word fold start bytes with
  | case1 start bytes hcut =>
    rw [Lexeme.cut?_eq_none_iff, if_neg (by decide)] at hcut
    have hall : ∀ b ∈ bytes, sep b = true := by
      intro b hb
      rw [← h.beq_delimiter, hcut b hb]
      rfl
    rw [spans_of_nil (List.dropWhile_eq_nil_iff.mpr hall)]
    rfl
  | case2 start bytes cut hcut first ih =>
    rw [spans_of_cut? h hcut, List.map_cons, ih]
    rfl

/-- Adding up the bytes one by one gives their sum. -/
theorem byteSum_eq_sum (text : String) :
    Utf8.byteSum text = ((Utf8.encode text).map UInt8.toNat).sum := by
  have hfold : ∀ (bytes : List UInt8) (sum : Int),
      bytes.foldl (fun sum b => sum + (b.toNat : Int)) sum = sum + (bytes.map UInt8.toNat).sum := by
    intro bytes
    induction bytes with
    | nil => simp
    | cons b rest ih =>
      intro sum
      rw [List.foldl_cons, ih, List.map_cons, List.sum_cons]
      omega
  rw [Utf8.byteSum, hfold, Int.zero_add]

/-- What the token of a word says: it is no number and no operator, and
it is quoted exactly if the bytes that it covers begin with a quote. -/
structure IsWord (line : List UInt8) (token : Token) : Prop where
  byteClass : token.byteClass = .other
  flags : token.flags
    = { Flags.none with quoted := (token.span.slice line).head?.any isQuote }
  realValue : token.realValue = none
  /-- The integer value is the sum of the text's bytes. -/
  intValue : token.intValue = ((Utf8.encode token.text).map UInt8.toNat).sum

/-- The token of any cut in word mode says what `IsWord` lists, and
nothing is reported about it. -/
theorem isWord_of_cut? (h : IsTable sep classes)
    (hcut : Lexeme.cut? classes .word bytes = some cut) {line : List UInt8} {start : Nat}
    (hline : line.drop start = bytes) (fold : Bool) :
    let scanned := cut.scanned classes .word fold (start + cut.skipped.length)
    IsWord line scanned.token ∧ scanned.diagnostics = [] := by
  obtain ⟨-, -, -, hclass, hflags⟩ := length_more_of_cut? h hcut
  have hslice := Lexeme.Cut.slice_line hcut hline fold
  have hint := Lexeme.intValue?_of_other hclass (cut.lexeme.text (Mode.word.folds fold))
  refine ⟨⟨hclass, ?_, rfl, ?_⟩, ?_⟩
  · rw [hslice]
    exact hflags
  · show recovered 0 (cut.lexeme.intValue? _) = _
    rw [hint]
    exact byteSum_eq_sum _
  · show (faultOf (cut.lexeme.intValue? _) ++ _).map _ = _
    rw [hint]
    rfl

end Lines

end Words

/-- In word mode a line is split at the separators: its tokens cover the
words that the splitter finds, each says that it is a word, and nothing is
reported. Digits and bytes of operators stand in words like all others. -/
theorem scanLine_words (fold : Bool) (pinned bytes : List UInt8) :
    let line := bytes.takeWhile (· != 0)
    let scanned := scanLine bytes ⟨fold, pinned, .word⟩
    scanned.1.map Token.span = Words.spans (Words.separates pinned) 0 line ∧
      (∀ token ∈ scanned.1, Words.IsWord line token) ∧ scanned.2 = [] := by
  have htable := Words.isTable_classes fold pinned
  have hall : ∀ s ∈ scannedFrom (Settings.mk fold pinned .word).classes .word fold 0
      (bytes.takeWhile (· != 0)),
      Words.IsWord (bytes.takeWhile (· != 0)) s.token ∧ s.diagnostics = [] := by
    intro s hs
    obtain ⟨place, cut, hcut, rfl⟩ := exists_cut_of_mem_scannedFrom List.drop_zero s hs
    exact Words.isWord_of_cut? htable hcut rfl fold
  dsimp only
  rw [scanLine_eq]
  refine ⟨?_, ?_, ?_⟩
  · rw [List.map_map]
    exact Words.spans_scannedFrom htable fold 0 _
  · intro token htoken
    obtain ⟨s, hs, rfl⟩ := List.mem_map.mp htoken
    exact (hall s hs).1
  · exact List.flatMap_eq_nil_iff.mpr fun s hs => (hall s hs).2

end LineLexer
