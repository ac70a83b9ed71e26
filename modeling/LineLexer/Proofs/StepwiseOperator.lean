import LineLexer.Proofs.Characters
import LineLexer.Proofs.StepwiseToken

/-!
# `LineLexer.Proofs.StepwiseOperator`: operators, byte by byte

An operator is the one lexeme for which the byte by byte scanner takes
back what it has read: the sign of a number behind it, at once, and
later the second byte of a pair that spells no operator. The first
takes two steps back, the second a jump to where the operator ends and
a text cut short.

* `extend_operator`: an operator ends at `operatorTaken`, which leaves
  a sign to the number behind it.
* `read?_operatorTaken`: with the sign left or not, the bytes spell the
  same operator.
* `Spelling`: what is known of the bytes in the end; above all they are
  ASCII, so that a text of them can be cut anywhere.
* `scanLexeme_of_operator`: the scan of an operator does not break off.
-/

set_option autoImplicit false

namespace LineLexer

open Ascii

/-! ### The bytes that spell operators -/

/-- A byte that spells an operator is ASCII and no small letter. -/
theorem Operator.ascii_of_ofByte? {b : UInt8} :
    (Operator.ofByte? b).isSome = true → b < 0x80 ∧ toUpper b = b := by
  revert b
  apply forall_byte
  decide +kernel

/-- Bytes that each spell an operator have no small letters among them, so
folding leaves them as they are. -/
theorem folded_of_ofByte? (fold : Bool) {bytes : List UInt8}
    (h : ∀ b ∈ bytes, (Operator.ofByte? b).isSome = true) : folded fold bytes = bytes := by
  cases fold with
  | false => rfl
  | true =>
    refine (List.map_congr_left fun b hb => ?_).trans (List.map_id' bytes)
    exact (Operator.ascii_of_ofByte? (h b hb)).2

/-- If the first bytes of a text are ASCII, cutting the text behind them
does not break off. -/
theorem truncated_of_ascii {text : String} {length : Nat}
    (hlength : length ≤ (Utf8.encode text).length)
    (hfront : ∀ b ∈ (Utf8.encode text).take length, b < 0x80) :
    truncated text length = .ok (Utf8.decode ((Utf8.encode text).take length)) := by
  have htext : Utf8.IsText ((Utf8.encode text).take length ++ (Utf8.encode text).drop length) :=
    (List.take_append_drop length (Utf8.encode text)).symm ▸ Utf8.IsText.of_encode text
  have hboundary : isBoundary (Utf8.encode text) length = true := by
    rw [isBoundary, ← List.head?_drop]
    cases hrest : (Utf8.encode text).drop length with
    | nil =>
      have hend : length = (Utf8.encode text).length :=
        Nat.le_antisymm hlength (List.drop_eq_nil_iff.mp hrest)
      simp [← hend]
    | cons b rest =>
      -- A character begins with the byte behind the cut.
      rw [hrest] at htext
      simp [(htext.of_ascii_append hfront).isTail_head]
  rw [truncated, if_pos hboundary]

namespace Cursor

/-! ### The bytes that an operator takes -/

/-- No operator of two bytes ends in a sign. -/
theorem read?_sign {first second : UInt8} (h : isSign second = true) :
    Operator.read? [first, second] = Operator.read? [first] := by
  have hnone : ∀ simple : Operator, simple.followedBy? second = none := by
    intro simple
    simp only [isSign, Bool.or_eq_true, beq_iff_eq] at h
    rcases h with rfl | rfl <;> cases simple <;> decide
  simp [Operator.read?, hnone]

/-- The bytes at which the byte by byte scanner ends an operator: a second
byte of class operator is taken, but a sign is left to a digit behind
it. -/
def operatorTaken (classes : ClassTable) (first : UInt8) : List UInt8 → List UInt8
  | [] => [first]
  | second :: behind =>
    if classes second = .operator then
      if isSign second && behind.head?.any fun b => classes b == .digit then [first]
      else [first, second]
    else [first]

/-- The bytes at which the scanner ends an operator spell the same
operator whether the sign of a number is left out or not, because no
operator of two bytes ends in a sign. -/
theorem read?_operatorTaken (classes : ClassTable) (first : UInt8) (rest : List UInt8) :
    Operator.read? (operatorTaken classes first rest)
      = Operator.read? (Lexeme.operatorBytes classes first rest) := by
  cases rest with
  | nil => rfl
  | cons second behind =>
    by_cases hsecond : classes second = .operator
    · have hbytes : Lexeme.operatorBytes classes first (second :: behind)
          = [first, second] := by
        simp [Lexeme.operatorBytes, hsecond]
      rw [operatorTaken, if_pos hsecond, hbytes]
      split
      · next h => exact (read?_sign (Bool.and_eq_true_iff.mp h).1).symm
      · rfl
    · rw [operatorTaken, if_neg hsecond]
      simp [Lexeme.operatorBytes, hsecond]

/-- An operator ends behind its first byte or behind a second one, which
then is the next of the line and of class operator. -/
theorem operatorTaken_cases (classes : ClassTable) (first : UInt8) (rest : List UInt8) :
    operatorTaken classes first rest = [first] ∨
      ∃ second behind, rest = second :: behind ∧ classes second = .operator ∧
        operatorTaken classes first rest = [first, second] := by
  cases rest with
  | nil => exact Or.inl rfl
  | cons second behind =>
    rw [operatorTaken]
    split
    · next hsecond =>
      split
      · exact Or.inl rfl
      · exact Or.inr ⟨second, behind, rfl, hsecond, rfl⟩
    · exact Or.inl rfl

/-- Before a byte of another class, an operator of one byte ends and the
byte is given back, unless the two begin a number. -/
theorem take_operator_alone {reals : Bool} {first b : UInt8} {rest : List UInt8}
    {cursor : Cursor} (hb : cursor.classes b ≠ .operator)
    (hsigned : Lexeme.beginsSigned cursor.classes first (b :: rest) = false) :
    (Draft.operator [first]).take reals (cursor.advance 1) b (cursor.classes b)
      = (Draft.operator [first]).endBefore (cursor.advance 1) := by
  cases hclass : cursor.classes b with
  | operator => exact absurd hclass hb
  | delimiter => rfl
  | other => rfl
  | digit =>
    have hnot : (isSign first && b != Numeral.underscore) = false := by
      simpa [Lexeme.beginsSigned, hclass] using hsigned
    rw [Draft.take.eq_def]
    simp [hnot]

/-- An operator of two bytes ends before any further byte, which is given
back, unless the second is a sign and the third a digit. -/
theorem take_operator_pair (reals : Bool) (first : UInt8) {second b : UInt8} (cursor : Cursor)
    (h : (isSign second && cursor.classes b == .digit) = false) :
    (Draft.operator [first, second]).take reals (cursor.advance 1) b (cursor.classes b)
      = (Draft.operator [first, second]).endBefore (cursor.advance 1) := by
  cases hclass : cursor.classes b with
  | delimiter => rfl
  | operator => rfl
  | other => rfl
  | digit =>
    have hsign : isSign second = false := by simpa [hclass] using h
    rw [Draft.take.eq_def]
    simp [hsign]

/-- An operator of two bytes ends where `operatorTaken` does: it keeps the
second byte, unless that is the sign of a number. -/
theorem extend_operator_pair (reals : Bool) (first : UInt8) {second : UInt8}
    {behind : List UInt8} {cursor : Cursor} (hleft : cursor.remaining = second :: behind)
    (hsecond : cursor.classes second = .operator) :
    extend reals (.operator [first, second]) (cursor.advance 1)
      = .ok (.operator (operatorTaken cursor.classes first (second :: behind)),
          cursor.position
            + ((operatorTaken cursor.classes first (second :: behind)).length - 1),
          cursor.advance
            ((operatorTaken cursor.classes first (second :: behind)).length - 1)) := by
  have hbehind : (cursor.advance 1).remaining = behind := by simp [hleft]
  rw [operatorTaken, if_pos hsecond]
  cases behind with
  | nil =>
    rw [extend_of_nil hbehind]
    simp
  | cons third behind =>
    rw [List.head?_cons, Option.any_some]
    cases hleave : isSign second && cursor.classes third == .digit with
    | false =>
      have htake := take_operator_pair reals first (cursor.advance 1) hleave
      rw [extend_of_ended hbehind (htake.trans (endBefore_eq ..))]
      rfl
    | true =>
      -- The sign is given back with the digit.
      obtain ⟨hsign, hthird⟩ := Bool.and_eq_true_iff.mp hleave
      refine extend_of_ended hbehind ?_
      rw [classes_advance, beq_iff_eq.mp hthird, Draft.take.eq_def]
      simp only [List.getLast?_cons_cons, List.getLast?_singleton, Option.any_some, hsign,
        if_true, List.dropLast_cons_cons, List.dropLast_singleton]
      rw [advance_advance, unread_advance]
      exact endBefore_eq ..

/-- An operator that has its first byte, and begins no number, ends where
`operatorTaken` does. -/
theorem extend_operator (reals : Bool) {first : UInt8} {cursor : Cursor}
    (hsigned : Lexeme.beginsSigned cursor.classes first cursor.remaining = false) :
    extend reals (.operator [first]) cursor
      = .ok (.operator (operatorTaken cursor.classes first cursor.remaining),
          cursor.position
            + ((operatorTaken cursor.classes first cursor.remaining).length - 1),
          cursor.advance
            ((operatorTaken cursor.classes first cursor.remaining).length - 1)) := by
  cases hleft : cursor.remaining with
  | nil =>
    rw [extend_of_nil hleft]
    rfl
  | cons second behind =>
    rw [hleft] at hsigned
    by_cases hsecond : cursor.classes second = .operator
    · have hmore : extend reals (.operator [first]) cursor
          = extend reals (.operator [first, second]) (cursor.advance 1) :=
        extend_of_more hleft (by rw [hsecond]; rfl)
      exact hmore.trans (extend_operator_pair reals first hleft hsecond)
    · rw [extend_of_ended hleft
          ((take_operator_alone hsecond hsigned).trans (endBefore_eq ..)),
        operatorTaken, if_neg hsecond]
      simp

/-! ### Its value -/

section Operators
variable {cursor : Cursor} {mode : Mode} {cut : Lexeme.Cut} {reals : Bool}

/-- What is known of the bytes at which the scan of an operator ends:
those of the cut, and perhaps a second byte that spells no operator with
the first. -/
structure Spelling (cursor : Cursor) (cut : Lexeme.Cut) (op : Operator)
    (bytes : List UInt8) : Prop where
  taken : operatorTaken cursor.classes cut.first (cut.more ++ cut.after) = bytes
  /-- Each of the bytes spells an operator. -/
  spells : ∀ b ∈ bytes, (Operator.ofByte? b).isSome = true
  read : Operator.read? bytes = some (op, cut.source.length)
  source : bytes.take cut.source.length = cut.source
  lexeme : cut.lexeme = .operator op cut.source
  /-- The bytes are all in the line. -/
  room : cursor.position + cut.skipped.length + bytes.length ≤ cursor.line.length

/-- The bytes at which an operator ends are the first ones of the line. -/
theorem operatorTaken_front (classes : ClassTable) (first : UInt8) (rest : List UInt8) :
    operatorTaken classes first rest <+: first :: rest := by
  rcases operatorTaken_cases classes first rest with h | ⟨second, behind, hrest, -, h⟩
  · rw [h]
    exact ⟨rest, rfl⟩
  · rw [h, hrest]
    exact ⟨behind, rfl⟩

/-- Where a cut begins with a byte of class operator that begins no
number, its lexeme is an operator, and the scan ends at bytes with the
facts of `Spelling`. -/
theorem spelling_of_cut (hmode : mode ≠ .rest)
    (h : Lexeme.cut? cursor.classes mode cursor.remaining = some cut)
    (hclass : cursor.classes cut.first = .operator)
    (hspells : cursor.classes.SpellsOperators)
    (hsigned : Lexeme.beginsSigned cursor.classes cut.first (cut.more ++ cut.after) = false) :
    ∃ op bytes, Spelling cursor cut op bytes := by
  obtain ⟨-, -, hreading⟩ := Lexeme.read_of_cut? hmode h
  rw [Lexeme.read_of_operator hclass] at hreading
  have hfront := operatorTaken_front cursor.classes cut.first (cut.more ++ cut.after)
  have hread := read?_operatorTaken cursor.classes cut.first (cut.more ++ cut.after)
  have hcases := operatorTaken_cases cursor.classes cut.first (cut.more ++ cut.after)
  generalize hbytes : operatorTaken cursor.classes cut.first (cut.more ++ cut.after) = bytes
    at hfront hread hcases
  -- The class table tells which bytes are operators, the spelling which
  -- of them are one operator.
  have hops : ∀ b ∈ bytes, (Operator.ofByte? b).isSome = true := by
    rcases hcases with rfl | ⟨second, -, -, hsecond, rfl⟩
    · simpa using hspells _ hclass
    · simpa using ⟨hspells _ hclass, hspells _ hsecond⟩
  obtain ⟨op, length, hfound⟩ : ∃ op length, Operator.read? bytes = some (op, length) := by
    rcases hcases with rfl | ⟨second, -, -, -, rfl⟩ <;> exact hspells.exists_read? hclass _
  obtain ⟨hpos, -, hle⟩ := Operator.read?_length hfound
  rw [Lexeme.readOperator_of_not_signed hsigned (hread.symm.trans hfound)] at hreading
  obtain ⟨hlexeme, hmore, -⟩ := (Lexeme.Reading.mk.injEq ..).mp hreading
  have hsource : bytes.take length = cut.source := by
    obtain ⟨behind, hbehind⟩ := hfront
    have hcut : (cut.first :: (cut.more ++ cut.after)).take length = cut.source := by
      rw [← Nat.sub_add_cancel hpos, List.take_succ_cons, hmore]
      rfl
    rw [← hcut, ← hbehind, List.take_append_of_le_length hle]
  obtain rfl : cut.source.length = length := by
    rw [← hsource, List.length_take, Nat.min_eq_left hle]
  refine ⟨op, bytes, hbytes, hops, hfound, hsource, ?_, ?_⟩
  · rw [← hlexeme, hmore]
    rfl
  · have hparts := congrArg List.length (Lexeme.Cut.bytes_of_cut? h)
    have hshort := hfront.length_le
    simp only [List.length_append, length_remaining, Lexeme.Cut.source, List.length_cons]
      at hparts hshort
    omega

/-- The bytes at which an operator ends are ASCII. -/
theorem Spelling.ascii {op : Operator} {bytes : List UInt8} (h : Spelling cursor cut op bytes) :
    ∀ b ∈ bytes, b < 0x80 :=
  fun b hb => (Operator.ascii_of_ofByte? (h.spells b hb)).1

/-- The text of a token with the bytes at which an operator ends has
exactly these bytes, because they are ASCII. -/
theorem Spelling.encode_text {op : Operator} {bytes : List UInt8}
    (h : Spelling cursor cut op bytes) (fold : Bool) :
    Utf8.encode (Utf8.decode (folded fold bytes)) = bytes := by
  rw [folded_of_ofByte? fold h.spells, Utf8.encode_decode h.ascii]

/-- A token whose text is an operator with no bytes behind it is given the
operator as its value and changes in nothing else. -/
theorem setOperator_of_whole {token : Token} {bytes : List UInt8} {op : Operator}
    (htext : Utf8.encode token.text = bytes)
    (hread : Operator.read? bytes = some (op, bytes.length)) :
    cursor.setOperator token = .ok ({ token with intValue := op.code }, cursor) := by
  rw [setOperator, htext, hread]
  exact if_neg (Nat.lt_irrefl _)

/-- A token whose text has more bytes than its operator is cut down to the
operator, and the cursor goes to where the operator ends. Neither breaks
off. -/
theorem setOperator_of_longer (cursor : Cursor) (token : Token) {bytes : List UInt8}
    {op : Operator} {length : Nat}
    (htext : token.text = Utf8.decode bytes) (hascii : ∀ b ∈ bytes, b < 0x80)
    (hread : Operator.read? bytes = some (op, length)) (hlength : length < bytes.length)
    (hstop : token.span.start + length ≤ cursor.line.length) :
    cursor.setOperator token
      = .ok ({ cursor.endToken { token with text := Utf8.decode (bytes.take length) }
              (token.span.start + length) with intValue := op.code },
          { cursor with position := token.span.start + length }) := by
  have hencode : Utf8.encode token.text = bytes := by rw [htext, Utf8.encode_decode hascii]
  have hseek : cursor.seekTo (token.span.start + length)
      = .ok { cursor with position := token.span.start + length } := by
    rw [seekTo, seek, if_pos hstop]
  have htruncated : truncated token.text length = .ok (Utf8.decode (bytes.take length)) := by
    rw [← hencode]
    refine truncated_of_ascii (by rw [hencode]; exact Nat.le_of_lt hlength) ?_
    rw [hencode]
    exact fun b hb => hascii b (List.mem_of_mem_take hb)
  have hfinish := finish_of_le { cursor with position := token.span.start + length }
    { token with text := Utf8.decode (bytes.take length) } _ (Nat.le_add_right _ length) hstop
  rw [setOperator, hencode, hread]
  simp only [hlength, if_true, hseek, htruncated, hfinish, bind, Except.bind]
  rfl

/-- `Cursor.scan` at an operator returns a token that covers the
operator's bytes, with its code as the integer value, and comes to rest
behind them. -/
theorem behind_of_operator (h : Lexeme.cut? cursor.classes mode cursor.remaining = some cut)
    {op : Operator} (hlexeme : cut.lexeme = .operator op cut.source) (fold : Bool) :
    cursor.behind cut fold
      = (some { cursor.endToken
            ((Draft.operator cut.source).token fold (cursor.position + cut.skipped.length))
            (cursor.position + cut.skipped.length + cut.source.length) with intValue := op.code },
        { cursor with
          position := cursor.position + cut.skipped.length + cut.source.length
          lastStart := some cursor.position }) := by
  have hfolds : Mode.plain.folds fold = fold := rfl
  rw [endToken_of_cut cursor _ h rfl rfl]
  simp [behind, Lexeme.Cut.scanned, hlexeme, Lexeme.text, Lexeme.byteClass, Lexeme.flags,
    Lexeme.intValue?, Lexeme.realValue?, recovered, faultOf, hfolds, Draft.token, Draft.bytes,
    Draft.byteClass, Draft.flags, Lexeme.Cut.width, Lexeme.passesDelimiter, Nat.add_assoc]

/-- From the first byte of an operator, bytes are taken up to those at
which it ends, and the cursor comes to rest there. -/
theorem Spelling.extend_eq {op : Operator} {bytes : List UInt8}
    (h : Spelling cursor cut op bytes) (reals : Bool)
    (hleft : (cursor.advance (cut.skipped.length + 1)).remaining = cut.more ++ cut.after)
    (hsigned : Lexeme.beginsSigned cursor.classes cut.first (cut.more ++ cut.after) = false) :
    extend reals (.operator [cut.first]) (cursor.advance (cut.skipped.length + 1))
      = .ok (.operator bytes, cursor.position + cut.skipped.length + bytes.length,
          cursor.advance (cut.skipped.length + bytes.length)) := by
  obtain ⟨hpos, -, hle⟩ := Operator.read?_length h.read
  have hback : cut.skipped.length + 1 + (bytes.length - 1)
      = cut.skipped.length + bytes.length := by omega
  rw [extend_operator reals (by rw [hleft]; exact hsigned), hleft, classes_advance, h.taken,
    advance_advance, position_advance, Nat.add_assoc cursor.position, hback, Nat.add_assoc]

section Scan
variable {op : Operator} {bytes : List UInt8}

/-- If an operator ends at just the bytes of the cut, its scan does not
break off and comes to what `Cursor.behind` says. -/
theorem scanLexeme_of_whole (hmode : mode ≠ .rest)
    (h : Lexeme.cut? cursor.classes mode cursor.remaining = some cut)
    (hop : Spelling cursor cut op cut.source) {fold : Bool}
    (hbegin : Draft.begin (cursor.classes cut.first) cut.first = .ok (.operator [cut.first]))
    (hextend : extend reals (.operator [cut.first]) (cursor.advance (cut.skipped.length + 1))
      = .ok (.operator cut.source, cursor.position + cut.skipped.length + cut.source.length,
          cursor.advance (cut.skipped.length + cut.source.length))) :
    cursor.scanLexeme reals fold = .ok (cursor.behind cut fold) := by
  have hwidth : cut.width cursor.classes = cut.skipped.length + cut.source.length := by
    simp [Lexeme.Cut.width, hop.lexeme, Lexeme.passesDelimiter]
  refine scanLexeme_of_extend hmode h (.operator cut.source) hbegin (by rw [hextend, hwidth])
    (by rw [hop.lexeme]; rfl) (by rw [hop.lexeme]; rfl) (by rw [hop.lexeme]; rfl) ?_
  intro token htext
  rw [setIntValue, setOperator_of_whole (by rw [htext, hop.lexeme]; exact hop.encode_text fold)
    hop.read, hop.lexeme]
  simp [Lexeme.intValue?, recovered, faultOf, report, advance]

/-- If an operator ends at one byte more than the cut has, the scan gives
that byte back, does not break off and comes to what `Cursor.behind`
says. -/
theorem scanLexeme_of_longer (hmode : mode ≠ .rest)
    (h : Lexeme.cut? cursor.classes mode cursor.remaining = some cut)
    (hop : Spelling cursor cut op bytes) (hlong : cut.source.length < bytes.length) {fold : Bool}
    (hbegin : Draft.begin (cursor.classes cut.first) cut.first = .ok (.operator [cut.first]))
    (hextend : extend reals (.operator [cut.first]) (cursor.advance (cut.skipped.length + 1))
      = .ok (.operator bytes, cursor.position + cut.skipped.length + bytes.length,
          cursor.advance (cut.skipped.length + bytes.length))) :
    cursor.scanLexeme reals fold = .ok (cursor.behind cut fold) := by
  obtain ⟨hfirst, -⟩ := readFirst_of_cut hmode h
  let rested := cursor.advance (cut.skipped.length + bytes.length)
  let token := (Draft.operator bytes).token fold (cursor.position + cut.skipped.length)
  have hfinish := finish_of_le rested token _ (Nat.le_add_right _ bytes.length) hop.room
  have hvalue := setOperator_of_longer rested
    (rested.endToken token (cursor.position + cut.skipped.length + bytes.length))
    (congrArg Utf8.decode (folded_of_ofByte? fold hop.spells)) hop.ascii hop.read hlong
    (stop_le_of_cut h)
  have hfolded : folded fold cut.source = cut.source :=
    folded_of_ofByte? fold fun b hb => hop.spells b (List.mem_of_mem_take (hop.source ▸ hb))
  refine (scanLexeme_of_draft hfirst (unread_advance ..) hbegin hextend hfinish hvalue).trans ?_
  rw [behind_of_operator h hop.lexeme]
  simp [rested, token, endToken, Draft.token, Draft.bytes, Draft.byteClass, Draft.flags, advance,
    hop.source, hfolded]

end Scan

/-- The scan byte by byte of an operator does not break off, and comes to
what `Cursor.behind` says of the cut. -/
theorem scanLexeme_of_operator (hmode : mode ≠ .rest)
    (h : Lexeme.cut? cursor.classes mode cursor.remaining = some cut)
    (hclass : cursor.classes cut.first = .operator)
    (hspells : cursor.classes.SpellsOperators)
    (hsigned : Lexeme.beginsSigned cursor.classes cut.first (cut.more ++ cut.after) = false)
    (fold : Bool) :
    cursor.scanLexeme reals fold = .ok (cursor.behind cut fold) := by
  obtain ⟨-, hleft⟩ := readFirst_of_cut hmode h
  obtain ⟨op, bytes, hop⟩ := spelling_of_cut hmode h hclass hspells hsigned
  have hbegin : Draft.begin (cursor.classes cut.first) cut.first
      = .ok (.operator [cut.first]) := by
    rw [hclass]
    rfl
  have hextend := hop.extend_eq reals hleft hsigned
  by_cases hlong : cut.source.length < bytes.length
  · exact scanLexeme_of_longer hmode h hop hlong hbegin hextend
  · obtain rfl : bytes = cut.source := by
      rw [← hop.source, List.take_of_length_le (Nat.le_of_not_lt hlong)]
    exact scanLexeme_of_whole hmode h hop hbegin hextend

end Operators

end Cursor

end LineLexer
