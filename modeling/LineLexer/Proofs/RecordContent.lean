import LineLexer.Proofs.InputLines
import LineLexer.Proofs.JsonReading
import LineLexer.Proofs.WrittenReals

/-!
# `LineLexer.Proofs.RecordContent`: what the JSON of a record says

A row of JSON is of use to another program only if that program finds the
values of the report in it. This module says under which key of a JSON
text each part of a record has to stand, and in which form. It does so
for what is read from the text (`Json.Doc`), and not for the value that
the text was written from, so it does not depend on how the report is
built.

A record says the number of its line, its tokens and its diagnostics; a
token says nine things, a diagnostic three and a span two. The words for
classes and flags are listed here a second time, as a reader of the
report knows them.

* `Json.Doc.at?`, `Json.Doc.keys`: how a record is read.
* `Json.Doc.compact`: the text without white space that says something.
* `Record.SaidBy`, `Token.SaidBy`, `Diagnostic.SaidBy`, `Span.SaidBy`:
  that a text says a record, a token, a diagnostic or a span.
* `Record.saidBy_doc`: the JSON of a record says that record.
* `Json.compact_doc`: the compact text of a value is that of what it says.
-/

set_option autoImplicit false

namespace LineLexer

/-! ### Looking up -/

namespace Json.Doc

/-- The keys of a record, in the order in which they are written. A text
that is no record has no keys. -/
def keys : Doc → List String
  | .record fields => fields.map Prod.fst
  | _ => []

/-- What a record says under a key. A text that is no record says nothing
under any key. -/
def at? : Doc → String → Option Doc
  | .record fields, key => fields.lookup key
  | _, _ => none

/-! ### Compact text -/

mutual

/-- The JSON text without white space that is read as this. It is defined
on what has been read, so it shows that a row says all that it has been
written from. -/
def compact : Doc → String
  | null => "null"
  | number written => written
  | text value => quote value
  | list items => "[" ++ ",".intercalate (compactItems items) ++ "]"
  | record fields => "\x7b" ++ ",".intercalate (compactFields fields) ++ "\x7d"

/-- The texts of the items of a list, each by itself. -/
def compactItems : List Doc → List String
  | [] => []
  | item :: rest => compact item :: compactItems rest

/-- The texts of the fields of a record, each by itself: the key in
quotes, a colon, and the text of the value. -/
def compactFields : List (String × Doc) → List String
  | [] => []
  | (key, value) :: rest => (quote key ++ ":" ++ compact value) :: compactFields rest

end

/-- The texts of the items of a list are the compact texts of the items. -/
theorem compactItems_eq_map (items : List Doc) : compactItems items = items.map compact := by
  induction items with
  | nil => rfl
  | cons item rest ih => rw [compactItems, ih, List.map_cons]

/-- The texts of the fields of a record are made of their keys and of the
compact texts of their values. -/
theorem compactFields_eq_map (fields : List (String × Doc)) :
    compactFields fields = fields.map fun field => quote field.1 ++ ":" ++ compact field.2 := by
  induction fields with
  | nil => rfl
  | cons field rest ih => rw [compactFields, ih, List.map_cons]

end Json.Doc

/-- The compact text of a value is the compact text of what the value
says. Nothing but that can be read from a row. -/
theorem Json.compact_doc (value : Json) : value.doc.compact = value.compact := by
  induction value using Json.induction with
  | null => rfl
  | int value => rfl
  | real value =>
    rw [doc, compact, writeReal]
    split <;> rfl
  | text value => rfl
  | list items ih =>
    have hitems : (items.map doc).map Doc.compact = items.map compact := by
      rw [List.map_map]
      exact List.map_congr_left ih
    rw [doc, compact, Doc.compact, itemDocs_eq_map, compactItems_eq_map,
      Doc.compactItems_eq_map, hitems]
  | record fields ih =>
    have hfields : (fields.map fun field => (field.1, doc field.2)).map
        (fun field => quote field.1 ++ ":" ++ Doc.compact field.2)
          = fields.map fun field => quote field.1 ++ ":" ++ compact field.2 := by
      rw [List.map_map]
      refine List.map_congr_left fun field hfield => ?_
      rw [Function.comp_apply, ih field hfield]
    rw [doc, compact, Doc.compact, fieldDocs_eq_map, compactFields_eq_map,
      Doc.compactFields_eq_map, hfields]

/-! ### Words -/

/-- The words for the classes, in the order in which a report names
them. -/
def classWords : List (String × ByteClass) :=
  [("delimiter", .delimiter), ("operator", .operator), ("digit", .digit), ("other", .other)]

/-- The name under which a class is reported is the word for it. -/
theorem ByteClass.mem_classWords (c : ByteClass) : (c.name, c) ∈ classWords := by
  cases c <;> decide

/-- Names of flags that tell which flags are set: they are taken from four
words, in a fixed order. -/
structure Flags.NamedBy (flags : Flags) (names : List String) : Prop where
  order : names.Sublist ["REAL", "HEX", "NEGATIVE", "QUOTED"]
  real : "REAL" ∈ names ↔ flags.real = true
  hex : "HEX" ∈ names ↔ flags.hex = true
  negative : "NEGATIVE" ∈ names ↔ flags.negative = true
  quoted : "QUOTED" ∈ names ↔ flags.quoted = true

/-- The names of some flags tell which of them are set. -/
theorem Flags.namedBy_names (flags : Flags) : flags.NamedBy flags.names := by
  obtain ⟨real, hex, negative, quoted⟩ := flags
  cases real <;> cases hex <;> cases negative <;> cases quoted <;>
    exact ⟨by decide, by decide, by decide, by decide, by decide⟩

/-! ### What is said -/

/-- A text that says a span: where it starts, and where it ends, which is
behind its last byte. -/
structure Span.SaidBy (span : Span) (said : Json.Doc) : Prop where
  keys : said.keys = ["start", "end"]
  start : said.at? "start" = some (.number (toString span.start))
  stop : said.at? "end" = some (.number (toString span.stop))

/-- A text that says the real value of a token: a number that is read back
as the value, with all of its bits. There is null in its place if the
token has no real value, and if the value is no finite number, which JSON
cannot write. -/
inductive Binary64.SaidBy : Option Binary64 → Json.Doc → Prop
  | absent : SaidBy none .null
  | notFinite {x : Binary64} (h : x.isFinite = false) : SaidBy (some x) .null
  | finite {x : Binary64} {written : String} (h : x.isFinite = true)
    (hread : Numeral.readReal written = .ok x) : SaidBy (some x) (.number written)

/-- A text that says a token: it has nine keys, and under each of them a
field of the token. -/
structure Token.SaidBy (token : Token) (said : Json.Doc) : Prop where
  keys : said.keys = ["text", "raw_text", "span", "class", "delimiter", "delimiter_class",
    "int_value", "real_value", "flags"]
  text : said.at? "text" = some (.text token.text)
  rawText : said.at? "raw_text" = some (.text token.rawText)
  span : ∃ span, said.at? "span" = some span ∧ token.span.SaidBy span
  byteClass : ∃ word, said.at? "class" = some (.text word) ∧ (word, token.byteClass) ∈ classWords
  /-- The byte behind the token is written as a number. -/
  delimiter : said.at? "delimiter" = some (.number (toString token.delimiter.toNat))
  delimiterClass : ∃ word, said.at? "delimiter_class" = some (.text word) ∧
    (word, token.delimiterClass) ∈ classWords
  intValue : said.at? "int_value" = some (.number (toString token.intValue))
  realValue : ∃ value, said.at? "real_value" = some value ∧
    Binary64.SaidBy token.realValue value
  /-- The names of the flags that are set stand between bars. -/
  flags : ∃ names, said.at? "flags" = some (.text (" | ".intercalate names)) ∧
    token.flags.NamedBy names

/-- A text that says a diagnostic: its place and its text. All diagnostics
of a line are warnings. -/
structure Diagnostic.SaidBy (d : Diagnostic) (said : Json.Doc) : Prop where
  keys : said.keys = ["severity", "span", "text"]
  severity : said.at? "severity" = some (.text "warning")
  span : ∃ span, said.at? "span" = some span ∧ d.span.SaidBy span
  text : said.at? "text" = some (.text d.text)

/-- A text that says a record: the number of its line, and one item for
each of its tokens and diagnostics, in their order. -/
structure Record.SaidBy (record : Record) (said : Json.Doc) : Prop where
  keys : said.keys = ["line", "tokens", "diagnostics"]
  line : said.at? "line" = some (.number (toString record.number))
  tokens : ∃ items, said.at? "tokens" = some (.list items) ∧
    List.Forall₂ Token.SaidBy record.tokens items
  diagnostics : ∃ items, said.at? "diagnostics" = some (.list items) ∧
    List.Forall₂ Diagnostic.SaidBy record.diagnostics items

/-- Two texts of records that differ in the number of the line only: the
second one stands `count` lines further down. -/
structure Json.Doc.NumberedOn (count : Nat) (said later : Json.Doc) : Prop where
  keys : later.keys = said.keys
  line : ∃ number : Nat, said.at? "line" = some (.number (toString number)) ∧
    later.at? "line" = some (.number (toString (number + count)))
  others : ∀ key, key ≠ "line" → later.at? key = said.at? key

/-! ### The JSON of a report -/

/-- The JSON of a span says that span, with each end under its key. -/
theorem Span.saidBy_doc (span : Span) : span.SaidBy span.toJson.doc := ⟨rfl, rfl, rfl⟩

/-- The JSON of a real value says the value. It is null if there is no
value, or none that JSON can write. -/
theorem Binary64.saidBy_doc (value : Option Binary64) :
    SaidBy value ((value.map Json.real).getD .null).doc := by
  cases value with
  | none => exact .absent
  | some x =>
    rw [Option.map_some, Option.getD_some, Json.doc]
    split
    · next h =>
      rw [Json.writeReal, if_pos h]
      exact .finite h (readReal_write Json.realStyle h)
    · next h => exact .notFinite (Bool.eq_false_of_not_eq_true h)

/-- The JSON of a token says that token, with each of its nine parts under
its key. -/
theorem Token.saidBy_doc (token : Token) : token.SaidBy token.toJson.doc where
  keys := rfl
  text := rfl
  rawText := rfl
  span := ⟨_, rfl, token.span.saidBy_doc⟩
  byteClass := ⟨_, rfl, token.byteClass.mem_classWords⟩
  delimiter := rfl
  delimiterClass := ⟨_, rfl, token.delimiterClass.mem_classWords⟩
  intValue := rfl
  realValue := ⟨_, rfl, Binary64.saidBy_doc token.realValue⟩
  flags := ⟨_, rfl, token.flags.namedBy_names⟩

/-- The JSON of a diagnostic says that diagnostic. Its severity is the
only one there is. -/
theorem Diagnostic.saidBy_doc (d : Diagnostic) : d.SaidBy d.toJson.doc := by
  have hseverity : d.severity.name = "warning" := by
    cases d.severity
    rfl
  exact ⟨rfl, congrArg (fun name => some (Json.Doc.text name)) hseverity,
    ⟨_, rfl, d.span.saidBy_doc⟩, rfl⟩

/-- The JSON of a record says that record, with one item for each token
and each diagnostic. -/
theorem Record.saidBy_doc (record : Record) : record.SaidBy record.toJson.doc where
  keys := rfl
  line := rfl
  tokens := by
    refine ⟨(record.tokens.map Token.toJson).map Json.doc, ?_, ?_⟩
    · rw [← Json.itemDocs_eq_map]
      rfl
    · rw [List.map_map, List.forall₂_map_right_iff, List.forall₂_same]
      exact fun token _ => token.saidBy_doc
  diagnostics := by
    refine ⟨(record.diagnostics.map Diagnostic.toJson).map Json.doc, ?_, ?_⟩
    · rw [← Json.itemDocs_eq_map]
      rfl
    · rw [List.map_map, List.forall₂_map_right_iff, List.forall₂_same]
      exact fun d _ => d.saidBy_doc

/-- The JSON of a record with more lines before it differs from that of
the record in the number of the line only. -/
theorem Record.numberedOn_behind (record : Record) (count : Nat) :
    Json.Doc.NumberedOn count record.toJson.doc (record.behind count).toJson.doc where
  keys := rfl
  line := ⟨record.number, rfl, rfl⟩
  others key hkey := by
    have hline : (key == "line") = false := beq_eq_false_iff_ne.mpr hkey
    have hlookup : ∀ (line : Json.Doc) (fields : List (String × Json.Doc)),
        (Json.Doc.record (("line", line) :: fields)).at? key = fields.lookup key := by
      intro line fields
      rw [Json.Doc.at?, List.lookup_cons, hline]
    exact (hlookup _ _).trans (hlookup _ _).symm

/-- What the JSON of the records of some input says, line by line. -/
def rowDocs (settings : Settings) (input : List UInt8) : List Json.Doc :=
  (records settings input).map fun record => record.toJson.doc

end LineLexer
