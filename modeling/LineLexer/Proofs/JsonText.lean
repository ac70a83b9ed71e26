import LineLexer.Proofs.JsonNumber

/-!
# `LineLexer.Proofs.JsonText`: the symbols of a JSON text

Read from front to back, a JSON text is a row of symbols: marks, strings
and words, with white space between them that means nothing. The compact
and the indented text of a value are the same row of symbols.

A symbol is read by itself as long as no word goes on behind it, so what
is read from a text can be put together from what is read from its
parts.

* `Symbol`: marks, strings and words.
* `symbols?`: the symbols of a text.
* `Reads`: a text that is read as some symbols, whatever follows.
* `symbols`: the symbols of a value.
* `reads_compact`, `reads_prettyAt`: both of its texts are read as
  these.
* `noControl_compact`: there is no control character in a compact text.
-/

set_option autoImplicit false

namespace LineLexer

open Lexeme (takeWhile_append_stop dropWhile_append_stop)

namespace Json

/-! ### Reading symbols -/

/-- What a JSON text is made of, besides white space: marks, strings, and
words for everything else. -/
inductive Symbol where
  /-- A bracket, a brace, a comma or a colon. -/
  | mark (c : Char)
  | text (value : String)
  /-- Null or a number, as it is written. -/
  | word (written : String)
  deriving DecidableEq, Repr

/-- Whether a character is a mark, which is a symbol by itself. -/
def isMark (c : Char) : Bool :=
  c == '[' || c == ']' || c == '\x7b' || c == '\x7d' || c == ',' || c == ':'

/-- Whether a character is white space, which may stand between
symbols. -/
def isSpace (c : Char) : Bool := c == ' ' || c == '\n' || c == '\r' || c == '\t'

/-- The character that a letter behind a backslash stands for, if it
stands for one. -/
def unescape? (c : Char) : Option Char :=
  if c = '\x22' ∨ c = '\\' ∨ c = '/' then some c
  else if c = 'b' then some '\x08'
  else if c = 'f' then some '\x0c'
  else if c = 'n' then some '\n'
  else if c = 'r' then some '\r'
  else if c = 't' then some '\t'
  else none

/-- The character with a code of four hexadecimal digits. One half of a
surrogate pair is no character. -/
def ofCode? (digits : List Char) : Option Char := do
  let values ← digits.mapM fun c => Numeral.hexDigit? c
  let code := values.foldl (fun code value => 16 * code + value) 0
  if h : code.isValidChar then some (Char.ofNatAux code h) else none

/-- The characters up to a closing quote, and what follows it. -/
def readText? : List Char → Option (List Char × List Char)
  | [] => none
  | '\x22' :: rest => some ([], rest)
  | '\\' :: 'u' :: c₁ :: c₂ :: c₃ :: c₄ :: rest => do
    let c ← ofCode? [c₁, c₂, c₃, c₄]
    (readText? rest).map fun (chars, behind) => (c :: chars, behind)
  | '\\' :: letter :: rest => do
    let c ← unescape? letter
    (readText? rest).map fun (chars, behind) => (c :: chars, behind)
  | c :: rest =>
    if c = '\\' ∨ c.toNat < 0x20 then none
    else (readText? rest).map fun (chars, behind) => (c :: chars, behind)

/-- If a string is read with one character more in front, the rest of it
has been read. -/
theorem exists_readText?_of_map {c : Char} {rest chars behind : List Char}
    (h : ((readText? rest).map fun (chars, behind) => (c :: chars, behind))
      = some (chars, behind)) : ∃ inner, readText? rest = some (inner, behind) := by
  obtain ⟨⟨inner, last⟩, hinner, heq⟩ := Option.map_eq_some_iff.mp h
  cases heq
  exact ⟨inner, hinner⟩

/-- What follows a string is shorter than the string and what follows
it. -/
theorem length_lt_of_readText? {text chars behind : List Char}
    (h : readText? text = some (chars, behind)) : behind.length < text.length := by
  fun_induction readText? text generalizing chars with
  | case1 => cases h
  | case2 rest =>
    cases h
    exact Nat.lt_succ_self _
  | case3 c₁ c₂ c₃ c₄ rest ih =>
    obtain ⟨c, -, h⟩ := Option.bind_eq_some_iff.mp h
    obtain ⟨inner, hinner⟩ := exists_readText?_of_map h
    exact Nat.lt_add_right 6 (ih hinner)
  | case4 letter rest hu ih =>
    obtain ⟨c, -, h⟩ := Option.bind_eq_some_iff.mp h
    obtain ⟨inner, hinner⟩ := exists_readText?_of_map h
    exact Nat.lt_add_right 2 (ih hinner)
  | case5 => cases h
  | case6 c rest hquote hescape hcontrol hletter ih =>
    obtain ⟨inner, hinner⟩ := exists_readText?_of_map h
    exact Nat.lt_succ_of_lt (ih hinner)

/-- The symbols of a text, if it is made of symbols. Strings are given
without their quotes and escapes. -/
def symbols? : List Char → Option (List Symbol)
  | [] => some []
  | c :: rest =>
    if isSpace c then symbols? rest
    else if isMark c then (symbols? rest).map (.mark c :: ·)
    else if c = '\x22' then
      match _h : readText? rest with
      | some (chars, behind) => (symbols? behind).map (.text (String.ofList chars) :: ·)
      | none => none
    else if isWordChar c then
      (symbols? (rest.dropWhile isWordChar)).map
        (.word (String.ofList (c :: rest.takeWhile isWordChar)) :: ·)
    else none
termination_by chars => chars.length
decreasing_by
  · exact Nat.lt_succ_self _
  · exact Nat.lt_succ_self _
  · exact Nat.lt_succ_of_lt (length_lt_of_readText? _h)
  · exact Nat.lt_succ_of_le (List.length_dropWhile_le _ _)

/-! ### Strings -/

/-- The code that is written for a control character is read as that
character. -/
theorem ofCode?_of_control {c : Char} (h : c.toNat < 0x20) :
    ofCode? ['0', '0', Nat.digitChar (c.toNat / 16), Nat.digitChar (c.toNat % 16)] = some c := by
  have hall : ∀ n < 0x20, ofCode? ['0', '0', Nat.digitChar (n / 16), Nat.digitChar (n % 16)]
      = some (Char.ofNat n) := by decide +kernel
  rw [hall c.toNat h, Char.ofNat_toNat]

/-- An escaped character is read as itself. -/
theorem readText?_escapeChar (c : Char) (rest : List Char) :
    readText? (escapeChar c ++ rest)
      = (readText? rest).map fun (chars, behind) => (c :: chars, behind) := by
  rw [escapeChar]
  split_ifs with hquote hslash hb hf hn hr ht hcontrol
  · rw [hquote]
    rfl
  · rw [hslash]
    rfl
  · rw [hb]
    rfl
  · rw [hf]
    rfl
  · rw [hn]
    rfl
  · rw [hr]
    rfl
  · rw [ht]
    rfl
  · simp only [List.cons_append, List.nil_append, readText?, ofCode?_of_control hcontrol]
    rfl
  · -- Without a backslash none of the patterns for escapes fits.
    rw [List.singleton_append, readText?, if_neg (not_or.mpr ⟨hslash, hcontrol⟩)]
    · exact hquote
    · exact fun _ _ _ _ _ heq _ => hslash heq
    · exact fun _ _ heq _ => hslash heq

/-- A quoted text is read as the text, and what stands behind its closing
quote is left. -/
theorem readText?_quote (text : String) (rest : List Char) :
    readText? (text.toList.flatMap escapeChar ++ '\x22' :: rest) = some (text.toList, rest) := by
  induction text.toList with
  | nil => rfl
  | cons c chars ih =>
    rw [List.flatMap_cons, List.append_assoc, readText?_escapeChar, ih]
    rfl

/-! ### Texts that are read as some symbols -/

section Characters
variable {c : Char} (rest : List Char)

/-- A mark is neither part of a word nor white space. -/
theorem isWordChar_of_isMark (h : isMark c = true) : isWordChar c = false ∧ isSpace c = false := by
  simp only [isMark, Bool.or_eq_true, beq_iff_eq] at h
  rcases h with ((((rfl | rfl) | rfl) | rfl) | rfl) | rfl <;> decide

/-- White space is not part of a word. -/
theorem isWordChar_of_isSpace (h : isSpace c = true) : isWordChar c = false := by
  simp only [isSpace, Bool.or_eq_true, beq_iff_eq] at h
  rcases h with ((rfl | rfl) | rfl) | rfl <;> decide

/-- White space in front of a text adds no symbol. -/
theorem symbols?_of_isSpace (h : isSpace c = true) : symbols? (c :: rest) = symbols? rest := by
  rw [symbols?, if_pos h]

/-- A mark in front of a text is the first of its symbols. -/
theorem symbols?_of_isMark (h : isMark c = true) :
    symbols? (c :: rest) = (symbols? rest).map (.mark c :: ·) := by
  rw [symbols?, if_neg (Bool.eq_false_iff.mp (isWordChar_of_isMark h).2), if_pos h]

/-- A quoted text in front of a text is the first of its symbols. -/
theorem symbols?_quote (text : String) :
    symbols? ((quote text).toList ++ rest) = (symbols? rest).map (.text text :: ·) := by
  have hread := readText?_quote text rest
  rw [quote, String.toList_ofList, List.cons_append, List.cons_append, List.append_assoc,
    List.singleton_append, symbols?, if_neg (by decide), if_neg (by decide), if_pos rfl]
  split
  · next heq =>
    rw [hread] at heq
    cases heq
    rw [String.ofList_toList]
  · next heq =>
    rw [hread] at heq
    cases heq

/-- A word in front of a text is the first of its symbols, if no word goes
on behind it. -/
theorem symbols?_word {word : List Char} (hne : word ≠ []) (h : ∀ c ∈ word, isWordChar c = true)
    (hrest : ∀ c ∈ rest.head?, isWordChar c = false) :
    symbols? (word ++ rest) = (symbols? rest).map (.word (String.ofList word) :: ·) := by
  obtain ⟨c, more, rfl⟩ := List.exists_cons_of_ne_nil hne
  obtain ⟨hc, hmore⟩ := List.forall_mem_cons.mp h
  have hspace : ¬ isSpace c = true := fun h => by simp [isWordChar_of_isSpace h] at hc
  have hmark : ¬ isMark c = true := fun h => by simp [isWordChar_of_isMark h] at hc
  have hquote : c ≠ '\x22' := by
    rintro rfl
    cases hc
  rw [List.cons_append, symbols?, if_neg hspace, if_neg hmark, if_neg hquote, if_pos hc,
    takeWhile_append_stop hmore hrest, dropWhile_append_stop hmore hrest]

end Characters

/-- A text is read as some symbols, whatever follows, if no word goes on
there. -/
def Reads (text : List Char) (symbols : List Symbol) : Prop :=
  ∀ rest : List Char, (∀ c ∈ rest.head?, isWordChar c = false) →
    symbols? (text ++ rest) = (symbols? rest).map (symbols ++ ·)

namespace Reads

variable {text more : List Char} {symbols others : List Symbol}

/-- The empty text is read as no symbols. -/
theorem nil : Reads [] [] := fun _ _ => Option.map_id_apply.symm

/-- Texts are read one after the other, if no word goes on from one to
the next. -/
theorem append (h : Reads text symbols) (hmore : Reads more others) (hne : more ≠ [])
    (hstop : ∀ c ∈ more.head?, isWordChar c = false) :
    Reads (text ++ more) (symbols ++ others) := by
  intro rest hrest
  have hhead : ∀ c ∈ (more ++ rest).head?, isWordChar c = false := by
    rwa [List.head?_append_of_ne_nil _ hne]
  rw [List.append_assoc, h _ hhead, hmore rest hrest, Option.map_map]
  simp only [Function.comp_def, List.append_assoc]

/-- A mark can stand in front of a text, and is then the first symbol. -/
theorem cons_mark {c : Char} (hc : isMark c = true) (h : Reads text symbols) :
    Reads (c :: text) (.mark c :: symbols) := by
  intro rest hrest
  rw [List.cons_append, symbols?_of_isMark _ hc, h rest hrest, Option.map_map]
  rfl

/-- A quoted text can stand in front of a text, and is then the first
symbol. -/
theorem quote_append (value : String) (h : Reads text symbols) :
    Reads ((quote value).toList ++ text) (.text value :: symbols) := by
  intro rest hrest
  rw [List.append_assoc, symbols?_quote, h rest hrest, Option.map_map]
  rfl

/-- White space can stand in front of a text, and adds no symbol. -/
theorem spaces_append {spaces : List Char} (hspaces : ∀ c ∈ spaces, isSpace c = true)
    (h : Reads text symbols) : Reads (spaces ++ text) symbols := by
  intro rest hrest
  induction spaces with
  | nil => exact h rest hrest
  | cons c more ih =>
    obtain ⟨hc, hmore⟩ := List.forall_mem_cons.mp hspaces
    rw [List.cons_append, List.cons_append, symbols?_of_isSpace _ hc, ih hmore]

/-- A mark can stand behind a text, with white space in front of it, and
is then the last symbol. -/
theorem append_mark {c : Char} (hc : isMark c = true) {spaces : List Char}
    (hspaces : ∀ c ∈ spaces, isSpace c = true) (h : Reads text symbols) :
    Reads (text ++ spaces ++ [c]) (symbols ++ [.mark c]) := by
  rw [List.append_assoc]
  refine h.append (spaces_append hspaces (cons_mark hc nil)) (by simp) ?_
  cases spaces with
  | nil => simpa using (isWordChar_of_isMark hc).1
  | cons space more => simpa using isWordChar_of_isSpace (hspaces space List.mem_cons_self)

/-- A word is read as one symbol. -/
theorem word {written : String} (hne : written.toList ≠ [])
    (h : ∀ c ∈ written.toList, isWordChar c = true) : Reads written.toList [.word written] := by
  intro rest hrest
  rw [symbols?_word _ hne h hrest, String.ofList_toList]
  rfl

/-- Texts with commas between them are read as their symbols with marks
between them. -/
theorem intercalate {rows : List (List Char)} {parts : List (List Symbol)}
    (h : List.Forall₂ Reads rows parts) :
    Reads ([','].intercalate rows) ([Symbol.mark ','].intercalate parts) := by
  induction h with
  | nil => exact nil
  | @cons row part rows parts hrow hrows ih =>
    cases hrows with
    | nil => simpa using hrow
    | cons hnext hlater =>
      -- If the row ends in a word, the comma ends it.
      rw [List.intercalate_cons_cons, List.intercalate_cons_cons, List.append_assoc,
        List.append_assoc]
      exact hrow.append (cons_mark rfl ih) (List.cons_ne_nil _ _) (by simp [isWordChar])

/-- A text with nothing but white space behind it has the symbols that it
is read as. -/
theorem symbols?_append {spaces : List Char} (hspaces : ∀ c ∈ spaces, isSpace c = true)
    (h : Reads text symbols) : symbols? (text ++ spaces) = some symbols := by
  have hhead : ∀ c ∈ spaces.head?, isWordChar c = false := fun c hc =>
    isWordChar_of_isSpace (hspaces c (List.mem_of_head? hc))
  have hnothing := spaces_append hspaces nil [] (by simp)
  rw [List.append_nil, List.append_nil] at hnothing
  rw [h spaces hhead, hnothing]
  simp [symbols?]

end Reads

/-! ### Words -/

/-- Null is read as one symbol, a word. -/
theorem reads_null : Reads "null".toList [.word "null"] :=
  .word (by decide) (List.all_eq_true.mp (by decide))

/-- An integer is read as one symbol, a word. -/
theorem reads_int (value : Int) : Reads (toString value).toList [.word (toString value)] :=
  have h := isWordChar_of_isNumber (isNumber_int value)
  .word h.1 h.2

/-- A real number is read as one symbol, a word. -/
theorem reads_real (value : Binary64) : Reads (writeReal value).toList [.word (writeReal value)] :=
  have h := isWordChar_writeReal value
  .word h.1 h.2

/-- A quoted text is read as one symbol, a string. -/
theorem reads_quote (value : String) : Reads (quote value).toList [.text value] := by
  have h := Reads.quote_append value .nil
  rwa [List.append_nil] at h

/-! ### The symbols of a value -/

mutual

/-- The symbols of a value. They are the same for both of its texts, which
differ in their white space only. -/
def symbols : Json → List Symbol
  | null => [.word "null"]
  | int value => [.word (toString value)]
  | real value => [.word (writeReal value)]
  | text value => [.text value]
  | list items => .mark '[' :: [Symbol.mark ','].intercalate (itemSymbols items) ++ [.mark ']']
  | record fields =>
    .mark '\x7b' :: [Symbol.mark ','].intercalate (fieldSymbols fields) ++ [.mark '\x7d']

/-- The symbols of the items of a list. -/
def itemSymbols : List Json → List (List Symbol)
  | [] => []
  | item :: rest => symbols item :: itemSymbols rest

/-- The symbols of the fields of a record. -/
def fieldSymbols : List (String × Json) → List (List Symbol)
  | [] => []
  | (key, value) :: rest =>
    (.text key :: .mark ':' :: symbols value) :: fieldSymbols rest

end

/-- The symbols of the items of a list are those of each item by
itself. -/
theorem itemSymbols_eq_map (items : List Json) : itemSymbols items = items.map symbols := by
  induction items with
  | nil => rfl
  | cons item rest ih => rw [itemSymbols, ih, List.map_cons]

/-- The symbols of the fields of a record are those of each field by
itself: its key, a colon, and the symbols of its value. -/
theorem fieldSymbols_eq_map (fields : List (String × Json)) :
    fieldSymbols fields
      = fields.map fun field => .text field.1 :: .mark ':' :: symbols field.2 := by
  induction fields with
  | nil => rfl
  | cons field rest ih => rw [fieldSymbols, ih, List.map_cons]

/-- If the row of each item is read as the part that belongs to the item,
the rows are read as the parts. -/
theorem reads_map {α : Type} {items : List α} {row : α → String} {part : α → List Symbol}
    (h : ∀ item ∈ items, Reads (row item).toList (part item)) :
    List.Forall₂ Reads ((items.map row).map String.toList) (items.map part) := by
  rwa [List.map_map, List.forall₂_map_left_iff, List.forall₂_map_right_iff, List.forall₂_same]

/-- Rows between two marks are read as their symbols between these marks,
with white space in front of the second mark or not. -/
theorem reads_bracketed (first last : Char) (opening spaces closing : String)
    (hopening : opening.toList = [first]) (hfirst : isMark first = true)
    (hspaces : ∀ c ∈ spaces.toList, isSpace c = true) (hclosing : closing.toList = [last])
    (hlast : isMark last = true) {rows : List String} {parts : List (List Symbol)}
    (h : List.Forall₂ Reads (rows.map String.toList) parts) :
    Reads (opening ++ ",".intercalate rows ++ spaces ++ closing).toList
      (.mark first :: [Symbol.mark ','].intercalate parts ++ [.mark last]) := by
  have hclosed := (Reads.cons_mark hfirst (.intercalate h)).append_mark hlast hspaces
  simpa [hopening, hclosing] using hclosed

/-- A key, a colon with a space behind it or not, and a value are read as
the symbols of a field. -/
theorem reads_field (key colon : String) {value : String} {symbols : List Symbol}
    (hcolon : colon = ":" ∨ colon = ": ") (h : Reads value.toList symbols) :
    Reads (quote key ++ colon ++ value).toList (.text key :: .mark ':' :: symbols) := by
  rcases hcolon with rfl | rfl
  · simpa using Reads.quote_append key (.cons_mark (c := ':') rfl h)
  · have hspace : ∀ c ∈ [' '], isSpace c = true := List.forall_mem_singleton.mpr rfl
    simpa using Reads.quote_append key (.cons_mark (c := ':') rfl (h.spaces_append hspace))

/-- The compact text of a value is read as its symbols, whatever follows
it. -/
theorem reads_compact (value : Json) : Reads value.compact.toList value.symbols := by
  induction value using Json.induction with
  | null => exact reads_null
  | int value => exact reads_int value
  | real value => exact reads_real value
  | text value => exact reads_quote value
  | list items ih =>
    have h := reads_bracketed '[' ']' "[" "" "]" (by decide) rfl (by simp) (by decide) rfl
      (reads_map ih)
    rw [compact, symbols, compactItems_eq_map, itemSymbols_eq_map]
    rwa [String.append_empty] at h
  | record fields ih =>
    have hfields : ∀ field ∈ fields, Reads (quote field.1 ++ ":" ++ compact field.2).toList
        (.text field.1 :: .mark ':' :: symbols field.2) :=
      fun field hfield => reads_field field.1 ":" (Or.inl rfl) (ih field hfield)
    have h := reads_bracketed '\x7b' '\x7d' "\x7b" "" "\x7d" (by decide) rfl (by simp)
      (by decide) rfl (reads_map hfields)
    rw [compact, symbols, compactFields_eq_map, fieldSymbols_eq_map]
    rwa [String.append_empty] at h

/-- The indentation of a row is white space. -/
theorem isSpace_of_indent (depth : Nat) : ∀ c ∈ (indent depth).toList, isSpace c = true := by
  rw [indent, String.toList_ofList, List.forall_mem_cons]
  refine ⟨rfl, fun c hc => ?_⟩
  rw [List.eq_of_mem_replicate hc]
  rfl

/-- Rows between two brackets, one level deeper than the brackets, are
read as their symbols between the brackets. -/
theorem reads_block (depth : Nat) {opening closing : String} {first last : Char}
    (hopening : opening.toList = [first]) (hfirst : isMark first = true)
    (hclosing : closing.toList = [last]) (hlast : isMark last = true)
    {rows : List String} {parts : List (List Symbol)}
    (h : List.Forall₂ Reads (rows.map String.toList) parts) :
    Reads (block depth opening closing rows).toList
      (.mark first :: [Symbol.mark ','].intercalate parts ++ [.mark last]) := by
  rw [block]
  split
  · next hrows =>
    -- Without rows there is nothing between the marks.
    rw [List.isEmpty_iff.mp hrows] at h
    cases h
    simpa [hopening, hclosing] using Reads.cons_mark hfirst (.cons_mark hlast .nil)
  · refine reads_bracketed _ _ _ _ _ hopening hfirst (isSpace_of_indent depth) hclosing hlast ?_
    rw [List.map_map, List.forall₂_map_left_iff]
    rw [List.forall₂_map_left_iff] at h
    refine h.imp fun row part hrow => ?_
    rw [Function.comp_apply, String.toList_append]
    exact hrow.spaces_append (isSpace_of_indent _)

/-- The indented text of a value is read as the same symbols, from any
column on and whatever follows it. -/
theorem reads_prettyAt (depth : Nat) (value : Json) :
    Reads (prettyAt depth value).toList value.symbols := by
  induction value using Json.induction generalizing depth with
  | null => exact reads_null
  | int value => exact reads_int value
  | real value => exact reads_real value
  | text value => exact reads_quote value
  | list items ih =>
    rw [prettyAt, symbols, prettyItems_eq_map, itemSymbols_eq_map]
    exact reads_block depth (by decide) rfl (by decide) rfl
      (reads_map fun item hitem => ih item hitem (depth + 1))
  | record fields ih =>
    rw [prettyAt, symbols, prettyFields_eq_map, fieldSymbols_eq_map]
    exact reads_block depth (by decide) rfl (by decide) rfl
      (reads_map fun field hfield =>
        reads_field field.1 ": " (Or.inr rfl) (ih field hfield (depth + 1)))

/-! ### Compact texts are rows -/

/-- There is no control character in a text. -/
def NoControl (text : List Char) : Prop := ∀ c ∈ text, 0x20 ≤ c.toNat

instance (text : List Char) : Decidable (NoControl text) :=
  List.decidableBAll _ text

/-- There is no control character in what is written for a character of a
string. -/
theorem noControl_escapeChar (c : Char) : NoControl (escapeChar c) := by
  have hdigit : ∀ n < 16, 0x20 ≤ n.digitChar.toNat := by decide
  rw [escapeChar]
  split_ifs with hquote hslash hb hf hn hr ht hcontrol
  · decide
  · decide
  · decide
  · decide
  · decide
  · decide
  · decide
  · -- The code has two digits of its own.
    have hhigh := hdigit (c.toNat / 16) (by omega)
    have hlow := hdigit (c.toNat % 16) (by omega)
    simp only [NoControl, List.forall_mem_cons]
    exact ⟨by decide, by decide, by decide, by decide, hhigh, hlow, List.forall_mem_nil _⟩
  · simpa [NoControl] using hcontrol

/-- There is no control character in a quoted text. -/
theorem noControl_quote (text : String) : NoControl (quote text).toList := by
  intro c hc
  rw [quote, String.toList_ofList] at hc
  simp only [List.cons_append, List.mem_cons, List.mem_append, List.mem_flatMap,
    List.not_mem_nil, or_false] at hc
  rcases hc with rfl | ⟨d, -, hd⟩ | rfl
  · decide
  · exact noControl_escapeChar d c hd
  · decide

/-- There is no control character in a word. -/
theorem noControl_of_word {chars : List Char} (h : ∀ c ∈ chars, isWordChar c = true) :
    NoControl chars := by
  have hcontrol : ∀ n < 0x20, isWordChar (Char.ofNat n) = false := by decide
  intro c hc
  by_contra hlow
  have hword := h c hc
  rw [← Char.ofNat_toNat c, hcontrol c.toNat (Nat.lt_of_not_le hlow)] at hword
  cases hword

/-- There is no control character in rows with commas between them, if
there is none in the rows. -/
theorem NoControl.intercalate {rows : List (List Char)} (h : ∀ row ∈ rows, NoControl row) :
    NoControl ([','].intercalate rows) := by
  induction rows with
  | nil => exact List.forall_mem_nil _
  | cons row rows ih =>
    obtain ⟨hrow, hrows⟩ := List.forall_mem_cons.mp h
    cases rows with
    | nil => simpa using hrow
    | cons next later =>
      rw [List.intercalate_cons_cons, NoControl, List.forall_mem_append, List.forall_mem_append]
      exact ⟨⟨hrow, by simp⟩, ih hrows⟩

/-- There is no control character in rows between two brackets, if there
is none in the rows and the brackets. -/
theorem noControl_bracketed {opening closing : String} {rows : List String}
    (hopening : NoControl opening.toList) (hclosing : NoControl closing.toList)
    (h : ∀ row ∈ rows, NoControl row.toList) :
    NoControl (opening ++ ",".intercalate rows ++ closing).toList := by
  have hrows : NoControl ([','].intercalate (rows.map String.toList)) :=
    .intercalate (List.forall_mem_map.mpr h)
  rw [String.toList_append, String.toList_append, String.toList_intercalate, NoControl,
    List.forall_mem_append, List.forall_mem_append]
  exact ⟨⟨hopening, hrows⟩, hclosing⟩

/-- There is no control character in the compact text of a value. Those in
its strings are escaped. -/
theorem noControl_compact (value : Json) : NoControl value.compact.toList := by
  induction value using Json.induction with
  | null => decide
  | int value => exact noControl_of_word (isWordChar_of_isNumber (isNumber_int value)).2
  | real value => exact noControl_of_word (isWordChar_writeReal value).2
  | text value => exact noControl_quote value
  | list items ih =>
    rw [compact, compactItems_eq_map]
    exact noControl_bracketed (by decide) (by decide) (List.forall_mem_map.mpr ih)
  | record fields ih =>
    rw [compact, compactFields_eq_map]
    refine noControl_bracketed (by decide) (by decide) (List.forall_mem_map.mpr ?_)
    intro field hfield
    have hcolon : NoControl ":".toList := by decide
    rw [String.toList_append, String.toList_append, NoControl, List.forall_mem_append,
      List.forall_mem_append]
    exact ⟨⟨noControl_quote field.1, hcolon⟩, ih field hfield⟩

end Json

end LineLexer
