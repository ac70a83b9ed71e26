import LineLexer.Proofs.RecordRows
import LineLexer.Proofs.TextRows

/-!
# `LineLexer.Proofs.Formats`: three formats of one report

The same input gives rise to the same tokens and diagnostics in every
format. What the rows of the format `ndjson` say is taken as the measure:
a row of text shows what one item of their tokens or diagnostics says, and
the items of the indented list of the format `json` say the same as the
rows, with the fields in another order.

* `Record.distinctKeys_toJson`: no key occurs twice in a record.
* `ListOf`: a list whose items say the same as some rows of JSON.
* `Program.Agree`: three outputs that show the same.
* `Program.FormatsAgree`: for any input the program has three outputs that
  show the same.
* `Program.formatsAgree`: the program has that property for any arguments
  with the same settings.
-/

set_option autoImplicit false

namespace LineLexer

/-! ### Rows of text -/

/-- A row is encoded without a newline. -/
theorem Utf8.newline_not_mem_encode {text : String} (h : IsRow text) : 0x0A ∉ encode text := by
  intro hmem
  rw [encode_eq, encodeChars, List.mem_flatMap] at hmem
  obtain ⟨c, hc, hnewline⟩ := hmem
  rcases encodeChar_cases c with ⟨b, hascii, rfl, heq⟩ | ⟨-, hhigh⟩
  · rw [heq, List.mem_singleton] at hnewline
    rw [← hnewline] at hc
    exact h hc
  · exact hhigh _ hnewline (by decide)

/-! ### Keys -/

/-- The two numbers of a span have different keys in JSON, so sorting them
loses neither. -/
theorem Span.distinctKeys_toJson (span : Span) : span.toJson.DistinctKeys := by
  refine .record (show ["start", "end"].Nodup by decide) ?_
  simp only [List.forall_mem_cons]
  exact ⟨.int _, .int _, nofun⟩

/-- The nine parts of a token have different keys in JSON, also those
within its span. -/
theorem Token.distinctKeys_toJson (token : Token) : token.toJson.DistinctKeys := by
  have hreal : ((token.realValue.map Json.real).getD .null).DistinctKeys := by
    cases token.realValue with
    | none => exact .null
    | some value => exact .real value
  refine .record (show ["text", "raw_text", "span", "class", "delimiter", "delimiter_class",
    "int_value", "real_value", "flags"].Nodup by decide) ?_
  simp only [List.forall_mem_cons]
  exact ⟨.text _, .text _, token.span.distinctKeys_toJson, .text _, .int _, .text _, .int _, hreal,
    .text _, nofun⟩

/-- The three parts of a diagnostic have different keys in JSON, also
those within its span. -/
theorem Diagnostic.distinctKeys_toJson (d : Diagnostic) : d.toJson.DistinctKeys := by
  refine .record (show ["severity", "span", "text"].Nodup by decide) ?_
  simp only [List.forall_mem_cons]
  exact ⟨.text _, d.span.distinctKeys_toJson, .text _, nofun⟩

/-- No key occurs twice in the JSON of a record, at any depth. So the
order of the keys can be disregarded. -/
theorem Record.distinctKeys_toJson (record : Record) : record.toJson.DistinctKeys := by
  have htokens : (Json.list (record.tokens.map Token.toJson)).DistinctKeys :=
    .list (List.forall_mem_map.mpr fun token _ => token.distinctKeys_toJson)
  have hdiagnostics : (Json.list (record.diagnostics.map Diagnostic.toJson)).DistinctKeys :=
    .list (List.forall_mem_map.mpr fun d _ => d.distinctKeys_toJson)
  refine .record (show ["line", "tokens", "diagnostics"].Nodup by decide) ?_
  simp only [List.forall_mem_cons]
  exact ⟨.int _, htokens, hdiagnostics, nofun⟩

/-! ### The indented list -/

/-- A JSON text that is a list. Its items say the same as some rows of
JSON, each item the same as one row, if the order of keys does not
count. -/
def ListOf (said : List Json.Doc) (text : String) : Prop :=
  ∃ items, Json.Doc.read? text = some (.list items) ∧ List.Forall₂ Json.Doc.Same said items

/-- The text of the list of some records says the same as their rows. -/
theorem listOf_pretty (found : List Record) :
    ListOf (found.map fun record => record.toJson.doc)
      (unlines [(Json.list (found.map fun record => record.toJson.sorted)).pretty]) := by
  refine ⟨found.map fun record => record.toJson.sorted.doc, ?_, ?_⟩
  · have hnewline : ∀ c ∈ "\n".toList, Json.isSpace c = true := List.forall_mem_singleton.mpr rfl
    rw [unlines, List.map_singleton, String.join_cons, String.join_nil, String.append_empty,
      Json.read?_pretty _ hnewline, Json.doc, Json.itemDocs_eq_map, List.map_map]
    rfl
  · rw [List.forall₂_map_left_iff, List.forall₂_map_right_iff, List.forall₂_same]
    exact fun record _ => Json.same_sorted record.distinctKeys_toJson

namespace Program

/-! ### Three outputs -/

/-- The program ends well in each format, and all that the rows of the
format `ndjson` say is in the other two outputs as well. What the rows
say is given by `said`. -/
structure Agree (settings : Settings) (input : List UInt8) (ended : Format → Exit)
    (said : List Json.Doc) : Prop where
  code : ∀ format, (ended format).code = 0
  message : ∀ format, (ended format).message = none
  /-- There is one row of JSON for each line, and that is what it says. -/
  ndjson : RecordsOf settings input (ended .ndjson) said
  /-- The rows of text show what the rows of JSON say, and the output
  splits at its newlines into the rows of text. -/
  text : ∃ rows, TextOf said rows ∧ (ended .text).stdout = unlines rows ∧
    lineParts (Utf8.encode (ended .text).stdout) = rows.map Utf8.encode
  /-- The items of the list say what the rows of JSON say. -/
  json : ListOf said (ended .json).stdout

/-- What the program makes of one input with arguments for each format.
The files that they name do not have to be the same. -/
structure FormatsAgree (arguments : Format → List String) (files : Format → Option String)
    (settings : Settings) : Prop where
  /-- The program comes to an end on any input, and in one way. -/
  ends : ∀ format input,
    ∃! ended, EndsIn (arguments format) ⟨files format, settings, format⟩ input ended
  /-- The three outputs show the same: what the rows of JSON say. -/
  agree : ∀ input (ended : Format → Exit),
    (∀ format, EndsIn (arguments format) ⟨files format, settings, format⟩ input (ended format)) →
      ∃ said, Agree settings input ended said

/-- All formats show the same tokens and diagnostics, with the same
settings and for the same input. The measure is what can be read from the
rows of the format `ndjson`; the other two outputs are compared with
that. -/
theorem formatsAgree {arguments : Format → List String} {files : Format → Option String}
    {settings : Settings}
    (hparse : ∀ format, Invocation.parse (arguments format)
      = .ok (.tokenize ⟨files format, settings, format⟩)) :
    FormatsAgree arguments files settings where
  ends format input :=
    ⟨answer ⟨files format, settings, format⟩ input, (endsIn_iff (hparse format)).mpr rfl,
      fun _ => (endsIn_iff (hparse format)).mp⟩
  agree input ended hended := by
    -- What has been read from a file or from the standard input makes no difference.
    have hanswer : ∀ format, ended format = answer ⟨files format, settings, format⟩ input :=
      fun format => (endsIn_iff (hparse format)).mp (hended format)
    let request : TokenizeRequest := ⟨files .ndjson, settings, .ndjson⟩
    have hformat : request.format = .ndjson := rfl
    have htext := textOf_textRows settings input
    have hstdout : (ended .text).stdout = unlines (textRows (records settings input)) := by
      rw [hanswer]
      rfl
    refine ⟨rowDocs settings input,
      { code := fun format => by rw [hanswer]; rfl
        message := fun format => by rw [hanswer]; rfl
        ndjson := by
          rw [hanswer]
          exact recordsOf_answer hformat input
        text := ⟨_, htext, hstdout, ?_⟩
        json := by
          rw [hanswer]
          exact listOf_pretty _ }⟩
    rw [hstdout]
    exact lineParts_unlines fun row hrow => Utf8.newline_not_mem_encode (htext.isRow row hrow)

/-- The arguments ask for the standard input, read in real mode with the
case of letters kept, in each format. The three outputs agree. -/
theorem formatsAgree_of_stdin :
    let arguments : Format → List String :=
      fun format => ["tokenize", "-mreal", "--preserve-case", "-f", format.name]
    let settings : Settings := { fold := false, pinned := [], mode := .real }
    (∀ format, Invocation.parse (arguments format)
      = .ok (.tokenize ⟨none, settings, format⟩)) ∧
      FormatsAgree arguments (fun _ => none) settings := by
  have hparse : ∀ format : Format,
      Invocation.parse ["tokenize", "-mreal", "--preserve-case", "-f", format.name]
        = .ok (.tokenize ⟨none, { fold := false, pinned := [], mode := .real }, format⟩) := by
    intro format
    cases format <;> decide +kernel
  exact ⟨hparse, formatsAgree hparse⟩

end Program

end LineLexer
