import LineLexer.Program
import LineLexer.Proofs.Characters
import LineLexer.Proofs.RecordContent

/-!
# `LineLexer.Proofs.RecordRows`: one row of JSON for each line

A report in the format `ndjson` is meant to be read row by row by
another program. Whatever bytes a line has, its record is one row: all
control characters are escaped in JSON. So the output splits at its
newlines into as many rows as the input has lines. What is read back from
a row is the number of its line with the tokens and the diagnostics found
there, each value under its own key (`Record.SaidBy`).

* `TokenizeRequest.input?`: the input that a request is about.
* `Utf8.le_of_noControl`: the bytes of a text without controls.
* `lineParts_unlines`: rows are found again in the output.
* `Program.EndsIn`, `Program.endsIn_iff`: how the program ends for an
  input that it can read.
* `Program.RecordsOf`: an output with one record for each line, given
  what its rows say.
* `Program.ReportsRecords`: the program has such an output for every
  input, and it goes on from one input to the next.
* `Program.reportsRecords`: arguments that ask for this format make the
  program report records.
-/

set_option autoImplicit false

namespace LineLexer

/-! ### The bytes of rows -/

namespace Utf8

/-- The bytes of two texts together are those of the first and then those
of the second. -/
theorem encode_append (text other : String) :
    encode (text ++ other) = encode text ++ encode other := by
  rw [encode_eq, encode_eq, encode_eq, String.toList_append, encodeChars, List.flatMap_append]
  rfl

/-- A text without control characters has no bytes below 0x20 when it is
encoded. -/
theorem le_of_noControl {text : String} (h : Json.NoControl text.toList) :
    ∀ b ∈ encode text, 0x20 ≤ b := by
  intro b hb
  rw [encode_eq, encodeChars, List.mem_flatMap] at hb
  obtain ⟨c, hc, hb⟩ := hb
  rcases encodeChar_cases c with ⟨ascii, hascii, rfl, heq⟩ | ⟨-, hhigh⟩
  · have hsame : ∀ b : UInt8, b < 0x80 → 0x20 ≤ (Char.ofNat b.toNat).toNat → 0x20 ≤ b :=
      forall_byte (by decide +kernel)
    rw [heq, List.mem_singleton] at hb
    exact hb ▸ hsame ascii hascii (h _ hc)
  · have hge : ∀ b : UInt8, ¬ b < 0x80 → 0x20 ≤ b := forall_byte (by decide +kernel)
    exact hge b (hhigh b hb)

end Utf8

/-- Rows in front of others are put down in front of them. -/
theorem unlines_append (rows more : List String) :
    unlines (rows ++ more) = unlines rows ++ unlines more := by
  rw [unlines, List.map_append, String.join_append]
  rfl

/-- The bytes of some rows are those of each row with a newline behind
it. -/
theorem encode_unlines (rows : List String) :
    Utf8.encode (unlines rows) = rows.flatMap fun row => Utf8.encode row ++ [0x0A] := by
  induction rows with
  | nil => rfl
  | cons row rest ih =>
    rw [List.flatMap_cons, ← ih, unlines, List.map_cons, String.join_cons, Utf8.encode_append,
      Utf8.encode_append]
    rfl

/-- Rows without newlines are found again when the text of all of them is
split at its newlines. -/
theorem lineParts_unlines {rows : List String} (h : ∀ row ∈ rows, 0x0A ∉ Utf8.encode row) :
    lineParts (Utf8.encode (unlines rows)) = rows.map Utf8.encode := by
  rw [← segments_eq_lineParts, encode_unlines]
  induction rows with
  | nil => exact segments_of_not_mem List.not_mem_nil
  | cons row rest ih =>
    obtain ⟨hrow, hrest⟩ := List.forall_mem_cons.mp h
    rw [List.flatMap_cons, List.append_assoc, List.singleton_append, segments_of_append hrow,
      ih hrest, List.map_cons]

/-! ### The rows of records -/

/-- What the JSON of a record says is read back from the row of the
record. -/
theorem Record.read?_row (record : Record) :
    Json.Doc.read? record.toJson.doc.compact = some record.toJson.doc := by
  rw [Json.compact_doc]
  exact Json.read?_compact record.toJson

/-- There is no control character in the row of a record, whatever there
is in the texts of its tokens. -/
theorem Record.le_of_row (record : Record) :
    ∀ b ∈ Utf8.encode record.toJson.doc.compact, 0x20 ≤ b := by
  rw [Json.compact_doc]
  exact Utf8.le_of_noControl (Json.noControl_compact record.toJson)

/-- The input that a request is about: that of the program, or what is
in the file that it names. -/
def TokenizeRequest.input? (request : TokenizeRequest) (stdin : List UInt8)
    (openPath : String → Opened) : Option (List UInt8) :=
  match request.file with
  | none => some stdin
  | some path =>
    match openPath path with
    | .file bytes => some bytes
    | _ => none

namespace Program

/-- With these arguments the program comes to an end in this way, if its
input holds some bytes. Where the input comes from, and what else it could
have read, does not matter. -/
def EndsIn (arguments : List String) (request : TokenizeRequest) (input : List UInt8)
    (ended : Exit) : Prop :=
  ∃ stdin openPath, request.input? stdin openPath = some input ∧
    run arguments stdin openPath = ended

section Runs
variable {arguments : List String} {request : TokenizeRequest} {input : List UInt8}

/-- If the arguments ask for a report, the program ends with the report on
the input, wherever the input comes from. -/
theorem endsIn_iff (hparse : Invocation.parse arguments = .ok (.tokenize request)) {ended : Exit} :
    EndsIn arguments request input ended ↔ ended = answer request input := by
  have hrun : ∀ stdin openPath, request.input? stdin openPath = some input →
      run arguments stdin openPath = answer request input := by
    intro stdin openPath hinput
    rw [TokenizeRequest.input?] at hinput
    simp only [run, hparse, perform]
    cases hfile : request.file with
    | none =>
      rw [hfile] at hinput
      cases hinput
      rfl
    | some path =>
      rw [hfile] at hinput
      dsimp only at hinput ⊢
      cases hopened : openPath path with
      | file bytes =>
        rw [hopened] at hinput
        cases hinput
        rfl
      | directory =>
        rw [hopened] at hinput
        cases hinput
      | failed message =>
        rw [hopened] at hinput
        cases hinput
  constructor
  · rintro ⟨stdin, openPath, hinput, rfl⟩
    exact hrun stdin openPath hinput
  · rintro rfl
    -- The same bytes will do for the standard input and for every file.
    have hinput : request.input? input (fun _ => .file input) = some input := by
      rw [TokenizeRequest.input?]
      split <;> rfl
    exact ⟨input, fun _ => .file input, hinput, hrun _ _ hinput⟩

end Runs

/-- The program ends well, and its output is one row of JSON for each line
of the input. What the rows say is given by `said`: it is read back from
them, and it is the number, the tokens and the diagnostics of each line. -/
structure RecordsOf (settings : Settings) (input : List UInt8) (ended : Exit)
    (said : List Json.Doc) : Prop where
  code : ended.code = 0
  message : ended.message = none
  /-- The output is one row of compact JSON for each record, with a newline
  behind it. -/
  stdout : ended.stdout = unlines (said.map Json.Doc.compact)
  /-- The output splits into the rows like an input into its lines. -/
  framed : lineParts (Utf8.encode ended.stdout) = said.map fun doc => Utf8.encode doc.compact
  /-- There are as many rows as lines. -/
  length : said.length = (lineParts input).length
  /-- The row of a line says its number, counted from one, and the tokens
  and diagnostics of a reader that has been drained. -/
  record : ∀ (k : Nat) (part line : List UInt8), (lineParts input)[k]? = some part →
    LineOf part line →
      ∃ doc, said[k]? = some doc ∧
        Record.SaidBy
          { number := k + 1
            tokens := (Tokens.ofLine line settings).drain.1
            diagnostics := (Tokens.ofLine line settings).drain.2.diagnostics } doc
  /-- What a row says is read back from it. -/
  readable : ∀ doc ∈ said, Json.Doc.read? doc.compact = some doc
  /-- There is no control character in a row. -/
  noControl : ∀ doc ∈ said, ∀ b ∈ Utf8.encode doc.compact, 0x20 ≤ b

/-- What the program makes of any input with arguments that ask for this
format. -/
structure ReportsRecords (arguments : List String) (request : TokenizeRequest) : Prop where
  /-- The program comes to an end on any input, and in one way. -/
  ends : ∀ input, ∃! ended, EndsIn arguments request input ended
  /-- There is one row for each line, which says the record of the line. -/
  records : ∀ input ended, EndsIn arguments request input ended →
    ∃ said, RecordsOf request.settings input ended said
  /-- Behind an input that ends a line, another one is reported on as if
  it stood alone, with its lines numbered on. The rows behind the first
  input differ from those of the second alone only in these numbers. -/
  append : ∀ input more, EndsLine input → ∀ first second both,
    EndsIn arguments request input first → EndsIn arguments request more second →
      EndsIn arguments request (input ++ more) both →
        ∃ said later, RecordsOf request.settings more second said ∧
          List.Forall₂ (Json.Doc.NumberedOn (lineParts input).length) said later ∧
            both.stdout = first.stdout ++ unlines (later.map Json.Doc.compact)

section Reports
variable {request : TokenizeRequest} (hformat : request.format = .ndjson)
include hformat

/-- The output of a report in this format is the compact text of what its
rows say. -/
theorem stdout_answer (input : List UInt8) :
    (answer request input).stdout
      = unlines ((rowDocs request.settings input).map Json.Doc.compact) := by
  have hcompact : ∀ record : Record, record.toJson.doc.compact = record.toJson.compact :=
    fun record => Json.compact_doc record.toJson
  rw [answer, hformat, rowDocs, List.map_map]
  simp only [Function.comp_def, hcompact]
  rfl

/-- There is one row for each line of an input, which says the record of
the line. -/
theorem recordsOf_answer (input : List UInt8) :
    RecordsOf request.settings input (answer request input) (rowDocs request.settings input) := by
  have hstdout := stdout_answer hformat input
  have hnoControl : ∀ doc ∈ rowDocs request.settings input,
      ∀ b ∈ Utf8.encode doc.compact, 0x20 ≤ b :=
    List.forall_mem_map.mpr fun record _ => record.le_of_row
  refine
    { code := rfl
      message := rfl
      stdout := hstdout
      framed := ?_
      length := by rw [rowDocs, List.length_map, length_records, segments_eq_lineParts]
      record := ?_
      readable := List.forall_mem_map.mpr fun record _ => record.read?_row
      noControl := hnoControl }
  · -- Rows without control characters have no newline in them.
    rw [hstdout, lineParts_unlines, List.map_map]
    · rfl
    · refine List.forall_mem_map.mpr fun doc hdoc hnewline => ?_
      exact absurd (hnoControl doc hdoc _ hnewline) (by decide)
  · intro k part line hpart hline
    have hrecord : (records request.settings input)[k]?
        = some (Record.ofLine request.settings (k + 1) line) := by
      rw [getElem?_records, segments_eq_lineParts, hpart, Option.map_some, hline.dropReturn_eq]
    refine ⟨_, ?_, (Record.ofLine request.settings (k + 1) line).saidBy_doc⟩
    rw [rowDocs, List.getElem?_map, hrecord]
    rfl

/-- The report on two inputs is that on the first and that on the
second, with its lines numbered on. -/
theorem stdout_answer_append {input : List UInt8} (h : EndsLine input) (more : List UInt8) :
    ∃ later, List.Forall₂ (Json.Doc.NumberedOn (lineParts input).length)
        (rowDocs request.settings more) later ∧
      (answer request (input ++ more)).stdout
        = (answer request input).stdout ++ unlines (later.map Json.Doc.compact) := by
  let behind (record : Record) : Record := record.behind (lineParts input).length
  refine ⟨(records request.settings more).map fun record => (behind record).toJson.doc, ?_, ?_⟩
  · rw [rowDocs, List.forall₂_map_left_iff, List.forall₂_map_right_iff, List.forall₂_same]
    exact fun record _ => record.numberedOn_behind _
  · rw [stdout_answer hformat, stdout_answer hformat, ← unlines_append, ← List.map_append, rowDocs,
      records_append _ _ h, segments_eq_lineParts, List.map_append, List.map_map]
    rfl

end Reports

/-- A report in the format `ndjson` is one faithful record for each line
of the input. What another program reads from a row is the number of the
line with its tokens and diagnostics, and nothing in a line can break a
row in two. -/
theorem reportsRecords {arguments : List String} {request : TokenizeRequest}
    (hparse : Invocation.parse arguments = .ok (.tokenize request))
    (hformat : request.format = .ndjson) : ReportsRecords arguments request where
  ends input := ⟨answer request input, (endsIn_iff hparse).mpr rfl, fun _ => (endsIn_iff hparse).mp⟩
  records input ended hended := by
    rw [(endsIn_iff hparse).mp hended]
    exact ⟨_, recordsOf_answer hformat input⟩
  append input more h first second both hfirst hsecond hboth := by
    rw [(endsIn_iff hparse).mp hfirst, (endsIn_iff hparse).mp hsecond,
      (endsIn_iff hparse).mp hboth]
    obtain ⟨later, hlater, hstdout⟩ := stdout_answer_append hformat h more
    exact ⟨_, later, recordsOf_answer hformat more, hlater, hstdout⟩

/-- The arguments ask for the file `in`, read in word mode with commas as
delimiters and the case of letters kept. The program reports one record
for each line of it. -/
theorem reportsRecords_of_file :
    let request : TokenizeRequest :=
      ⟨some "in", { fold := false, pinned := [','.toUInt8], mode := .word }, .ndjson⟩
    let arguments := ["tokenize", "in", "-mword", "--preserve-case", "-d", ",", "--format=ndjson"]
    Invocation.parse arguments = .ok (.tokenize request) ∧ request.format = .ndjson ∧
      ReportsRecords arguments request := by
  have hparse : Invocation.parse
      ["tokenize", "in", "-mword", "--preserve-case", "-d", ",", "--format=ndjson"]
        = .ok (.tokenize ⟨some "in",
          { fold := false, pinned := [','.toUInt8], mode := .word }, .ndjson⟩) := by
    decide +kernel
  exact ⟨hparse, rfl, reportsRecords hparse rfl⟩

end Program

end LineLexer
