import LineLexer.Proofs.RecordContent
import LineLexer.Proofs.SingleRows

/-!
# `LineLexer.Proofs.TextRows`: what a report in text format shows

In text format there is a row for each token and for each diagnostic, and
at the end a row that counts the tokens. What they show is said here
without regard to how they are made, and in terms of the JSON of the same
lines: a row shows a token if it has the line number, the columns, the
class, the lexeme and the value of the token that an item of JSON says.

The row of a token can be told from others by its second word, which is
the word for a class, so the counts can be checked against the rows above
them.

* `Fills`: a text in a column.
* `rowClass?`: the class that a row names.
* `Token.DisplayedAs`, `Span.ColumnsAs`: how a lexeme and the place of a
  diagnostic are shown.
* `Token.ShownBy`, `Diagnostic.ShownBy`: the rows that show them.
* `TokenRow`, `DiagnosticRow`, `Json.Doc.ShownBy`: the rows that show what
  a text of JSON says.
* `tally`: the row that counts the rows above it by their class.
* `TextOf`: the rows that show what some rows of JSON say.
* `textOf_textRows`: a report in text format is made of these.
-/

set_option autoImplicit false

namespace LineLexer

/-! ### Columns and classes -/

/-- A text in a column: there are spaces behind it up to the width of the
column. -/
structure Fills (width : Nat) (text cell : String) : Prop where
  spaces : ∃ count, cell = text ++ String.ofList (List.replicate count ' ')
  length : cell.length = max width text.length

/-- Padding a text to a width makes it fill a column of that width. -/
theorem fills_padded (width : Nat) (text : String) : Fills width text (padded width text) where
  spaces := ⟨_, rfl⟩
  length := by
    rw [padded, String.length_append, String.length_ofList, List.length_replicate]
    omega

/-- The class that a row names: its second word is the word for that
class. Other rows name no class. -/
def rowClass? (row : String) : Option ByteClass := do
  let word ← (row.toList.splitOn ' ')[1]?
  classWords.lookup (String.ofList word)

/-- The second word of a row stands between its first two spaces. -/
theorem rowClass?_of_words {row word : String} {front behind : List Char} (hfront : ' ' ∉ front)
    (hword : ' ' ∉ word.toList) (h : row.toList = front ++ ' ' :: (word.toList ++ ' ' :: behind)) :
    rowClass? row = classWords.lookup word := by
  rw [rowClass?, h, List.splitOn_append_cons_self_of_not_mem hfront,
    List.splitOn_append_cons_self_of_not_mem hword]
  exact congrArg (List.lookup · classWords) String.ofList_toList

/-! ### Tokens and diagnostics -/

/-- How the lexeme of a token is shown: a negative number has a minus sign
in front, a text from quotes has double quotes around it, and anything
else is shown by its text. -/
inductive Token.DisplayedAs (token : Token) : String → Prop
  | negative (hclass : token.byteClass = .digit) (hnegative : token.flags.negative = true) :
    DisplayedAs token ("-" ++ token.text)
  | quoted (hclass : token.byteClass = .other) (hquoted : token.flags.quoted = true) :
    DisplayedAs token ("\"" ++ token.text ++ "\"")
  | plain (hnegative : token.byteClass = .digit → token.flags.negative = false)
    (hquoted : token.byteClass = .other → token.flags.quoted = false) :
    DisplayedAs token token.text

/-- How the place of a diagnostic is shown, in columns that are counted
from one: by its first and last column, or by the first alone if it has
no other. -/
inductive Span.ColumnsAs (span : Span) : String → Prop
  | single (h : span.stop ≤ span.start + 1) : ColumnsAs span (toString (span.start + 1))
  | range (h : span.start + 1 < span.stop) :
    ColumnsAs span s!"{span.start + 1}-{span.stop}"

/-- A row that shows a token of a line: the number of the line, the
columns of the token, counted from one, the word for its class, its lexeme
and its value. -/
structure Token.ShownBy (number : Nat) (token : Token) (row : String) : Prop where
  isRow : IsRow row
  byteClass : rowClass? row = some token.byteClass
  cells : ∃ word kind lexeme shown, (word, token.byteClass) ∈ classWords ∧ Fills 9 word kind ∧
    token.DisplayedAs lexeme ∧ Fills 12 lexeme shown ∧
      row = s!"{number}:{token.span.start + 1}-{token.span.stop}: {kind} {shown} {token.intValue}"

/-- A row that shows a diagnostic of a line: the number of the line, the
place of the diagnostic, and its text behind the word for a warning. It
names no class. -/
structure Diagnostic.ShownBy (number : Nat) (d : Diagnostic) (row : String) : Prop where
  isRow : IsRow row
  byteClass : rowClass? row = none
  cells : ∃ columns, d.span.ColumnsAs columns ∧ row = s!"{number}:{columns}: warning: {d.text}"

/-- The program displays the lexeme of a token in one of these ways. -/
theorem Token.displayedAs_display (token : Token) : token.DisplayedAs token.display := by
  rw [display]
  split
  · next hclass =>
    split
    · next hnegative => exact .negative hclass hnegative
    · next hnegative =>
      exact .plain (fun _ => Bool.eq_false_of_not_eq_true hnegative) (by simp [hclass])
  · next hclass =>
    split
    · next hquoted => exact .quoted hclass hquoted
    · next hquoted =>
      exact .plain (by simp [hclass]) fun _ => Bool.eq_false_of_not_eq_true hquoted
  · next hclass => exact .plain (by simp [hclass]) (by simp [hclass])
  · next hclass => exact .plain (by simp [hclass]) (by simp [hclass])

/-- The program displays a diagnostic by its place, the word for a
warning, and its text. -/
theorem Diagnostic.exists_columns (d : Diagnostic) :
    ∃ columns, d.span.ColumnsAs columns ∧
      d.display = columns ++ ": " ++ "warning" ++ ": " ++ d.text := by
  have hseverity : d.severity.name = "warning" := by
    cases d.severity
    rfl
  rw [display, hseverity]
  refine ⟨_, ?_, rfl⟩
  split
  · next h => exact .single (by omega)
  · next h =>
    have hlast : max d.span.stop (d.span.start + 1) = d.span.stop := by omega
    rw [hlast] at h ⊢
    exact .range (by omega)

/-- The decimal text of a natural number has no space in it. -/
theorem space_not_mem_nat (n : Nat) : ' ' ∉ (toString n).toList := not_mem_toString (by decide) n

/-- A number of spaces in front of another space can be written with one
space first. -/
theorem exists_replicate_append (count : Nat) (rest : List Char) :
    ∃ behind, List.replicate count ' ' ++ ' ' :: rest = ' ' :: behind := by
  cases count <;> exact ⟨_, rfl⟩

/-- The word for a class names that class. -/
theorem ByteClass.lookup_name (c : ByteClass) : classWords.lookup c.name = some c := by
  cases c <;> rfl

/-- The word for a class follows the first space in the row of a token. -/
theorem Token.rowClass?_row (token : Token) (number : Nat) :
    rowClass? (token.row number) = some token.byteClass := by
  have hcolon : ' ' ∉ ":".toList := by decide
  have hdash : ' ' ∉ "-".toList := by decide
  have hname : ' ' ∉ token.byteClass.name.toList := by
    cases token.byteClass <;> decide
  have hfront : ' ' ∉ (toString number ++ ":" ++ toString (token.span.start + 1) ++ "-"
      ++ toString token.span.stop ++ ":").toList :=
    not_mem_append (not_mem_append (not_mem_append (not_mem_append
      (not_mem_append (space_not_mem_nat _) hcolon) (space_not_mem_nat _)) hdash)
        (space_not_mem_nat _)) hcolon
  -- Behind the name there may be more spaces than the one that ends it.
  obtain ⟨behind, hbehind⟩ := exists_replicate_append (9 - token.byteClass.name.length)
    ((padded 12 token.display).toList ++ ' ' :: (toString token.intValue).toList)
  have hrow : token.row number = toString number ++ ":" ++ toString (token.span.start + 1) ++ "-"
      ++ toString token.span.stop ++ ": " ++ padded 9 token.byteClass.name ++ " "
      ++ padded 12 token.display ++ " " ++ toString token.intValue := rfl
  have hwords : (token.row number).toList = (toString number ++ ":"
      ++ toString (token.span.start + 1) ++ "-" ++ toString token.span.stop ++ ":").toList
        ++ ' ' :: (token.byteClass.name.toList ++ ' ' :: behind) := by
    simp [hrow, padded, ← hbehind]
  rw [rowClass?_of_words hfront hname hwords]
  exact token.byteClass.lookup_name

/-- The columns that a diagnostic shows are one word. -/
theorem Span.ColumnsAs.not_mem {span : Span} {columns : String} (h : span.ColumnsAs columns) :
    ' ' ∉ columns.toList := by
  have hdash : ' ' ∉ "-".toList := by decide
  cases h with
  | single _ => exact space_not_mem_nat _
  | range _ =>
    exact not_mem_append (not_mem_append (space_not_mem_nat _) hdash) (space_not_mem_nat _)

/-- The word after the first space in the row of a diagnostic is that for
a warning, which names no class. -/
theorem Diagnostic.rowClass?_row (d : Diagnostic) (number : Nat) :
    rowClass? (d.row number) = none := by
  have hcolon : ' ' ∉ ":".toList := by decide
  have hword : ' ' ∉ "warning:".toList := by decide
  obtain ⟨columns, hcolumns, hdisplay⟩ := d.exists_columns
  have hfront : ' ' ∉ (toString number ++ ":" ++ columns ++ ":").toList :=
    not_mem_append (not_mem_append (not_mem_append (space_not_mem_nat _) hcolon) hcolumns.not_mem)
      hcolon
  have hrow : d.row number = toString number ++ ":" ++ d.display := rfl
  have hwords : (d.row number).toList = (toString number ++ ":" ++ columns ++ ":").toList
      ++ ' ' :: ("warning:".toList ++ ' ' :: d.text.toList) := by
    simp [hrow, hdisplay]
  rw [rowClass?_of_words hfront hword hwords]
  rfl

/-- The row that the program writes for a token shows the token, if the
token's text has no line break. -/
theorem Token.shownBy_row {token : Token} (h : IsRow token.text) (number : Nat) :
    token.ShownBy number (token.row number) where
  isRow := isRow_row h number
  byteClass := token.rowClass?_row number
  cells := ⟨_, _, _, _, token.byteClass.mem_classWords, fills_padded _ _,
    token.displayedAs_display, fills_padded _ _, rfl⟩

/-- The row that the program writes for a diagnostic shows the diagnostic,
if its text has no line break. -/
theorem Diagnostic.shownBy_row {d : Diagnostic} (h : IsRow d.text) (number : Nat) :
    d.ShownBy number (d.row number) where
  isRow := isRow_row h number
  byteClass := d.rowClass?_row number
  cells := by
    obtain ⟨columns, hcolumns, hdisplay⟩ := d.exists_columns
    have hwarning : ": warning: " = ": " ++ "warning" ++ ": " := rfl
    refine ⟨columns, hcolumns, ?_⟩
    rw [row, hdisplay, hwarning]
    simp only [toString, String.append_assoc]

/-! ### Records -/

/-- The row shows what an item under `tokens` says: the item says a token,
and the row shows that token. -/
def TokenRow (number : Nat) (item : Json.Doc) (row : String) : Prop :=
  ∃ token : Token, token.SaidBy item ∧ token.ShownBy number row

/-- The row shows what an item under `diagnostics` says: the item says a
diagnostic, and the row shows that diagnostic. -/
def DiagnosticRow (number : Nat) (item : Json.Doc) (row : String) : Prop :=
  ∃ d : Diagnostic, d.SaidBy item ∧ d.ShownBy number row

/-- Rows that show what a row of JSON says: one for each item under
`tokens`, then one for each item under `diagnostics`, all of them with the
number under `line`. -/
inductive Json.Doc.ShownBy (said : Json.Doc) : List String → Prop
  | rows {number : Nat} {tokens diagnostics : List Json.Doc}
      {tokenRows diagnosticRows : List String}
      (hline : said.at? "line" = some (.number (toString number)))
      (htokens : said.at? "tokens" = some (.list tokens))
      (hdiagnostics : said.at? "diagnostics" = some (.list diagnostics))
      (htokenRows : List.Forall₂ (TokenRow number) tokens tokenRows)
      (hdiagnosticRows : List.Forall₂ (DiagnosticRow number) diagnostics diagnosticRows) :
      ShownBy said (tokenRows ++ diagnosticRows)

/-- If the elements of one list stand in a relation to those of two others,
then these two stand in the relation that is made of both. -/
theorem forall₂_of_left {α β γ : Type} {r : α → β → Prop} {s : α → γ → Prop} {items : List α}
    {others : List β} {more : List γ} (h : List.Forall₂ r items others)
    (hmore : List.Forall₂ s items more) :
    List.Forall₂ (fun b c => ∃ a, r a b ∧ s a c) others more := by
  induction h generalizing more with
  | nil =>
    cases hmore
    exact .nil
  | cons hhead _ ih =>
    cases hmore with
    | cons hfirst hrest => exact .cons ⟨_, hhead, hfirst⟩ (ih hrest)

/-- The rows of the record of a line show what the JSON of the record
says. -/
theorem Record.shownBy_rows {bytes : List UInt8} (h : 0x0A ∉ bytes) (settings : Settings)
    (number : Nat) :
    (Record.ofLine settings number bytes).toJson.doc.ShownBy
      (Record.ofLine settings number bytes).rows := by
  obtain ⟨htokens, hdiagnostics⟩ := isRow_of_scanLine h settings
  obtain ⟨-, hline, ⟨items, hitems, hsaid⟩, ⟨remarks, hremarks, hsaidToo⟩⟩ :=
    (Record.ofLine settings number bytes).saidBy_doc
  have htokenRows : List.Forall₂ (Token.ShownBy number)
      (Record.ofLine settings number bytes).tokens
      ((Record.ofLine settings number bytes).tokens.map (Token.row number)) := by
    rw [List.forall₂_map_right_iff, List.forall₂_same]
    exact fun token htoken => token.shownBy_row (htokens token htoken) number
  have hdiagnosticRows : List.Forall₂ (Diagnostic.ShownBy number)
      (Record.ofLine settings number bytes).diagnostics
      ((Record.ofLine settings number bytes).diagnostics.map (Diagnostic.row number)) := by
    rw [List.forall₂_map_right_iff, List.forall₂_same]
    exact fun d hd => d.shownBy_row (hdiagnostics d hd) number
  exact .rows hline hitems hremarks (forall₂_of_left hsaid htokenRows)
    (forall₂_of_left hsaidToo hdiagnosticRows)

/-! ### The whole report -/

/-- How many rows name a class. -/
def rowCount (rows : List String) (c : ByteClass) : Nat :=
  rows.countP fun row => rowClass? row = some c

/-- The row that counts other rows by the class that they name. Classes
that no row names are left out, and those that are named stand in the
order of their words. -/
def tally (rows : List String) : String :=
  let named := classWords.filter fun (_, c) => 0 < rowCount rows c
  "tokens: " ++ ", ".intercalate (named.map fun (word, c) => s!"{rowCount rows c} {word}")

/-- The rows that show what some rows of JSON say: those for each row of
JSON, and at the end a row that counts the tokens, if any of them has an
item under `tokens`. -/
inductive TextOf (said : List Json.Doc) : List String → Prop where
  | counted {groups : List (List String)} (hgroups : List.Forall₂ Json.Doc.ShownBy said groups)
      (htokens : ∃ doc ∈ said, ∃ item rest, doc.at? "tokens" = some (.list (item :: rest)))
      (hrow : IsRow (tally groups.flatten)) :
      TextOf said (groups.flatten ++ [tally groups.flatten])
  | empty {groups : List (List String)} (hgroups : List.Forall₂ Json.Doc.ShownBy said groups)
      (htokens : ∀ doc ∈ said, doc.at? "tokens" = some (.list [])) : TextOf said groups.flatten

/-- If a relation implies a property of what is on its right, everything
on the right of related lists has the property. -/
theorem forall_of_forall₂ {α β : Type} {r : α → β → Prop} {p : β → Prop} {items : List α}
    {others : List β} (h : List.Forall₂ r items others) (himp : ∀ a b, r a b → p b) :
    ∀ b ∈ others, p b := by
  induction h with
  | nil => exact List.forall_mem_nil _
  | cons hhead _ ih => exact List.forall_mem_cons.mpr ⟨himp _ _ hhead, ih⟩

/-- All rows that show what a row of JSON says are rows. -/
theorem Json.Doc.ShownBy.isRow {said : Json.Doc} {rows : List String} (h : said.ShownBy rows) :
    ∀ row ∈ rows, IsRow row := by
  cases h with
  | rows _ _ _ htokenRows hdiagnosticRows =>
    exact List.forall_mem_append.mpr
      ⟨forall_of_forall₂ htokenRows fun _ _ ⟨_, _, hrow⟩ => hrow.isRow,
        forall_of_forall₂ hdiagnosticRows fun _ _ ⟨_, _, hrow⟩ => hrow.isRow⟩

/-- All rows of a report in text format are rows. -/
theorem TextOf.isRow {said : List Json.Doc} {rows : List String} (h : TextOf said rows) :
    ∀ row ∈ rows, IsRow row := by
  have hflatten : ∀ groups, List.Forall₂ Json.Doc.ShownBy said groups →
      ∀ row ∈ groups.flatten, IsRow row := by
    intro groups hgroups row hrow
    obtain ⟨group, hgroup, hrow⟩ := List.mem_flatten.mp hrow
    exact forall_of_forall₂ hgroups (fun _ _ h => h.isRow) group hgroup row hrow
  cases h with
  | counted hgroups htokens hrow =>
    exact List.forall_mem_append.mpr ⟨hflatten _ hgroups, List.forall_mem_singleton.mpr hrow⟩
  | empty hgroups htokens => exact hflatten _ hgroups

/-- The row that counts others is a row itself. -/
theorem isRow_tally (rows : List String) : IsRow (tally rows) := by
  have hwords : ∀ entry ∈ classWords, IsRow entry.1 := by
    intro entry hentry
    simp only [classWords, List.mem_cons, List.not_mem_nil, or_false] at hentry
    rcases hentry with rfl | rfl | rfl | rfl <;> decide
  refine IsRow.append (by decide) (IsRow.intercalate (by decide) ?_)
  exact List.forall_mem_map.mpr fun entry hentry =>
    ((isRow_nat _).append (by decide)).append (hwords entry (List.mem_of_mem_filter hentry))

/-- Among the rows of a record those that name a class are those of its
tokens. -/
theorem Record.rowCount_rows (record : Record) (c : ByteClass) :
    rowCount record.rows c = record.tokens.countP fun token => token.byteClass == c := by
  have htokens : rowCount (record.tokens.map (Token.row record.number)) c
      = record.tokens.countP fun token => token.byteClass == c := by
    rw [rowCount, List.countP_map]
    refine List.countP_congr fun token _ => ?_
    simp [token.rowClass?_row]
  have hdiagnostics : rowCount (record.diagnostics.map (Diagnostic.row record.number)) c = 0 := by
    rw [rowCount, List.countP_map, List.countP_eq_zero]
    intro d _
    simp [d.rowClass?_row]
  rw [rows, rowCount, List.countP_append]
  exact (congrArg₂ (· + ·) htokens hdiagnostics).trans (Nat.add_zero _)

/-- Among the rows of all records those that name a class are those of the
tokens of all records. -/
theorem rowCount_flatMap (found : List Record) (c : ByteClass) :
    rowCount (found.flatMap Record.rows) c
      = (found.flatMap Record.tokens).countP fun token => token.byteClass == c := by
  rw [rowCount, List.countP_flatMap, List.countP_flatMap]
  exact congrArg List.sum (List.map_congr_left fun record _ => record.rowCount_rows c)

/-- The row with which a report counts its tokens is the count of the rows
by class, if the rows name the classes of the tokens. There is no such row
if there are no tokens. -/
theorem summaryRow_eq {tokens : List Token} {rows : List String}
    (h : ∀ c, rowCount rows c = tokens.countP fun token => token.byteClass == c) :
    summaryRow tokens = if tokens = [] then [] else [tally rows] := by
  have hcounts : classCounts tokens
      = (ByteClass.all.filter fun c => 0 < rowCount rows c).map fun c => (c, rowCount rows c) := by
    rw [classCounts, List.filter_map]
    simp only [Function.comp_def, h]
  have hnamed : (classWords.filter fun (_, c) => 0 < rowCount rows c)
      = (ByteClass.all.filter fun c => 0 < rowCount rows c).map fun c => (c.name, c) := by
    have hwords : classWords = ByteClass.all.map fun c => (c.name, c) := rfl
    rw [hwords, List.filter_map]
    rfl
  cases tokens with
  | nil => rfl
  | cons token rest =>
    -- The class of the first token is counted, so there is such a row.
    have hclass : token.byteClass ∈ ByteClass.all := by
      cases token.byteClass <;> decide
    have hcount : 0 < rowCount rows token.byteClass := by
      rw [h, List.countP_pos_iff]
      exact ⟨token, List.mem_cons_self, beq_self_eq_true _⟩
    have hne : classCounts (token :: rest) ≠ [] := by
      rw [hcounts]
      refine List.ne_nil_of_mem (List.mem_map_of_mem (List.mem_filter.mpr ⟨hclass, ?_⟩))
      exact decide_eq_true hcount
    rw [if_neg (List.cons_ne_nil _ _), summaryRow]
    split
    · next hempty => exact absurd hempty hne
    · rw [hcounts, tally, hnamed, List.map_map, List.map_map]
      rfl

/-- The list under `tokens` in the JSON of a record has one item for each
token, in order. -/
theorem Record.at?_tokens (record : Record) :
    record.toJson.doc.at? "tokens"
      = some (.list (record.tokens.map fun token => token.toJson.doc)) := by
  have hitems : Json.itemDocs (record.tokens.map Token.toJson)
      = record.tokens.map fun token => token.toJson.doc := by
    rw [Json.itemDocs_eq_map, List.map_map]
    rfl
  rw [← hitems]
  rfl

/-- The rows of a report in text format show what the rows of the JSON
report on the same input say. -/
theorem textOf_textRows (settings : Settings) (input : List UInt8) :
    TextOf (rowDocs settings input) (textRows (records settings input)) := by
  have hgroups : List.Forall₂ Json.Doc.ShownBy (rowDocs settings input)
      ((records settings input).map Record.rows) := by
    rw [rowDocs, List.forall₂_map_left_iff, List.forall₂_map_right_iff, List.forall₂_same]
    intro record hrecord
    -- A record is that of a line, where no newline is left.
    obtain ⟨k, hk⟩ := List.getElem?_of_mem hrecord
    rw [getElem?_records] at hk
    obtain ⟨part, hpart, rfl⟩ := Option.map_eq_some_iff.mp hk
    have hnewline := newline_not_mem_segments (List.mem_of_getElem? hpart)
    exact Record.shownBy_rows (fun hmem => hnewline (dropReturn_subset part hmem)) settings _
  have hsummary := summaryRow_eq (rowCount_flatMap (records settings input))
  rw [textRows, hsummary, List.flatMap_def]
  split
  · next hempty =>
    rw [List.append_nil]
    refine .empty hgroups (List.forall_mem_map.mpr fun record hrecord => ?_)
    rw [record.at?_tokens, List.flatMap_eq_nil_iff.mp hempty record hrecord]
    rfl
  · next hsome =>
    refine .counted hgroups ?_ (isRow_tally _)
    obtain ⟨token, htoken⟩ := List.exists_mem_of_ne_nil _ hsome
    obtain ⟨record, hrecord, htoken⟩ := List.mem_flatMap.mp htoken
    obtain ⟨first, rest, heq⟩ := List.exists_cons_of_ne_nil (List.ne_nil_of_mem htoken)
    refine ⟨_, List.mem_map_of_mem hrecord, first.toJson.doc,
      rest.map fun token => token.toJson.doc, ?_⟩
    rw [record.at?_tokens, heq, List.map_cons]

end LineLexer
