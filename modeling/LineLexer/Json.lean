import LineLexer.Binary64.Shortest

/-!
# `LineLexer.Json`: JSON values and their text

Reports are written in JSON. The fields of a record are written in
the order in which they stand; `sorted` brings them into the order of
their keys.

* `Json.compact`: the text without any white space.
* `Json.pretty`: the text over several rows, indented by two spaces.
* `Json.sorted`: the same value with its fields in order.
* `escapeChar_of_plain`: only quotes, backslashes and controls are
  escaped.
* `induction`: what has to be shown of scalars, lists and records to
  hold of every value.
-/

set_option autoImplicit false

namespace LineLexer

/-- A JSON value. A record keeps its fields in the order in which they are
written. -/
inductive Json where
  | null
  | int (value : Int)
  | real (value : Binary64)
  | text (value : String)
  | list (items : List Json)
  | record (fields : List (String × Json))
  deriving Repr

namespace Json

/-! ### Scalars -/

/-- How one character is written in a JSON string: the quote, the
backslash and the common controls with a letter, the other controls
by their code, and everything else as it is. -/
def escapeChar (c : Char) : List Char :=
  if c = '\x22' then ['\\', '\x22']
  else if c = '\\' then ['\\', '\\']
  else if c = '\x08' then ['\\', 'b']
  else if c = '\x0c' then ['\\', 'f']
  else if c = '\n' then ['\\', 'n']
  else if c = '\r' then ['\\', 'r']
  else if c = '\t' then ['\\', 't']
  else if c.toNat < 0x20 then
    ['\\', 'u', '0', '0', Nat.digitChar (c.toNat / 16), Nat.digitChar (c.toNat % 16)]
  else [c]

/-- A text as a JSON string, between two quotes. -/
def quote (text : String) : String :=
  String.ofList ('\x22' :: text.toList.flatMap escapeChar ++ ['\x22'])

/-- Real numbers are written positionally if their first digit stands
at most five places behind the point or sixteen before it. -/
def realStyle : Decimal.Style := { lowest := -5, highest := 15 }

/-- A real number as JSON writes it. An infinity or a NaN has no JSON form
and is null. -/
def writeReal (value : Binary64) : String :=
  if value.isFinite then value.write realStyle else "null"

example : writeReal (Binary64.ofDecimal 1 (-5)) = "0.00001" := by decide +kernel

example : writeReal (Binary64.ofDecimal 1 15) = "1000000000000000.0" := by decide +kernel

example : writeReal (Binary64.ofDecimal 15 15) = "1.5e+16" := by decide +kernel

example : writeReal (Binary64.ofDecimal 5 (-324)) = "5e-324" := by decide +kernel

example : writeReal Binary64.zero.neg = "-0.0" := by decide +kernel

/-! ### Compact text -/

mutual

/-- The text of a value without white space. It is one row, as all
controls in its strings are escaped. -/
def compact : Json → String
  | null => "null"
  | int value => toString value
  | real value => writeReal value
  | text value => quote value
  | list items => "[" ++ ",".intercalate (compactItems items) ++ "]"
  | record fields => "\x7b" ++ ",".intercalate (compactFields fields) ++ "\x7d"

/-- The texts of the items of a list, without white space. -/
def compactItems : List Json → List String
  | [] => []
  | item :: rest => compact item :: compactItems rest

/-- The texts of the fields of a record, without white space: the key in
quotes, a colon and the value. -/
def compactFields : List (String × Json) → List String
  | [] => []
  | (key, value) :: rest => (quote key ++ ":" ++ compact value) :: compactFields rest

end

/-! ### Indented text -/

/-- The white space at the start of a row, two spaces for each level. -/
def indent (depth : Nat) : String :=
  String.ofList ('\n' :: List.replicate (2 * depth) ' ')

/-- Rows between two brackets, one level deeper than the brackets.
Brackets with nothing between them stay together. -/
def block (depth : Nat) (opening closing : String) (rows : List String) : String :=
  if rows.isEmpty then opening ++ closing
  else
    opening ++ ",".intercalate (rows.map fun row => indent (depth + 1) ++ row)
      ++ indent depth ++ closing

mutual

/-- The text of a value at a depth, with a row for each item and
field. -/
def prettyAt (depth : Nat) : Json → String
  | null => "null"
  | int value => toString value
  | real value => writeReal value
  | text value => quote value
  | list items => block depth "[" "]" (prettyItems (depth + 1) items)
  | record fields => block depth "\x7b" "\x7d" (prettyFields (depth + 1) fields)

/-- The texts of the items of a list at a depth. -/
def prettyItems (depth : Nat) : List Json → List String
  | [] => []
  | item :: rest => prettyAt depth item :: prettyItems depth rest

/-- The texts of the fields of a record at a depth. -/
def prettyFields (depth : Nat) : List (String × Json) → List String
  | [] => []
  | (key, value) :: rest =>
    (quote key ++ ": " ++ prettyAt depth value) :: prettyFields depth rest

end

/-- The text of a value over several rows, from the leftmost column on.
Each item of a list and each field of a record has a row of its own. -/
def pretty (value : Json) : String := prettyAt 0 value

/-! ### Field order -/

/-- Whether one field comes before another by its key. Keys are compared
character by character. -/
def keyLE (a b : String × Json) : Bool := decide (a.1 ≤ b.1)

mutual

/-- The value with the fields of every record in the order of their keys.
The items of lists stay where they are. -/
def sorted : Json → Json
  | null => null
  | int value => int value
  | real value => real value
  | text value => text value
  | list items => list (sortedItems items)
  | record fields => record ((sortedFields fields).mergeSort keyLE)

/-- The items of a list, each with the fields of its records in order. -/
def sortedItems : List Json → List Json
  | [] => []
  | item :: rest => sorted item :: sortedItems rest

/-- The fields of a record, each with the fields of its value in order.
The fields themselves are not moved yet. -/
def sortedFields : List (String × Json) → List (String × Json)
  | [] => []
  | (key, value) :: rest => (key, sorted value) :: sortedFields rest

end

/-! ### Laws -/

/-- A character that is no quote, no backslash and no control character
stands for itself in a JSON string. -/
theorem escapeChar_of_plain {c : Char} (hquote : c ≠ '\x22') (hslash : c ≠ '\\')
    (hplain : 0x20 ≤ c.toNat) : escapeChar c = [c] := by
  have hcontrol : ∀ d : Char, d.toNat < 0x20 → c ≠ d := by
    rintro d hd rfl
    omega
  simp [escapeChar, hquote, hslash, hcontrol '\x08' (by decide),
    hcontrol '\x0c' (by decide), hcontrol '\n' (by decide), hcontrol '\r' (by decide),
    hcontrol '\t' (by decide), Nat.not_lt.mpr hplain]

/-- What holds of every scalar, and of a list or a record if it holds of
all that is in it, holds of every value. This is the induction that
follows the nesting of values. -/
@[elab_as_elim]
theorem induction {p : Json → Prop} (null : p null) (int : ∀ value, p (int value))
    (real : ∀ value, p (real value)) (text : ∀ value, p (text value))
    (list : ∀ items, (∀ item ∈ items, p item) → p (list items))
    (record : ∀ fields, (∀ field ∈ fields, p field.2) → p (record fields)) (value : Json) :
    p value :=
  @Json.rec p (fun items => ∀ item ∈ items, p item) (fun fields => ∀ field ∈ fields, p field.2)
    (fun field => p field.2) null int real text list record (List.forall_mem_nil _)
    (fun _ _ hitem hrest => List.forall_mem_cons.mpr ⟨hitem, hrest⟩) (List.forall_mem_nil _)
    (fun _ _ hfield hrest => List.forall_mem_cons.mpr ⟨hfield, hrest⟩) (fun _ _ hvalue => hvalue)
    value

section Maps
variable (depth : Nat) (items : List Json) (fields : List (String × Json))

/-- The compact text of a list is made of the compact texts of its
items. -/
theorem compactItems_eq_map : compactItems items = items.map compact := by
  induction items with
  | nil => rfl
  | cons item rest ih => rw [compactItems, ih, List.map_cons]

/-- The compact text of a record is made of its keys and of the compact
texts of the fields' values. -/
theorem compactFields_eq_map :
    compactFields fields = fields.map fun field => quote field.1 ++ ":" ++ compact field.2 := by
  induction fields with
  | nil => rfl
  | cons field rest ih => rw [compactFields, ih, List.map_cons]

/-- The indented text of a list is made of the indented texts of its
items, all at the same depth. -/
theorem prettyItems_eq_map : prettyItems depth items = items.map (prettyAt depth) := by
  induction items with
  | nil => rfl
  | cons item rest ih => rw [prettyItems, ih, List.map_cons]

/-- The indented text of a record is made of its keys and of the indented
texts of the fields' values, all at the same depth. -/
theorem prettyFields_eq_map :
    prettyFields depth fields
      = fields.map fun field => quote field.1 ++ ": " ++ prettyAt depth field.2 := by
  induction fields with
  | nil => rfl
  | cons field rest ih => rw [prettyFields, ih, List.map_cons]

/-- Sorting a list sorts each of its items by itself. -/
theorem sortedItems_eq_map : sortedItems items = items.map sorted := by
  induction items with
  | nil => rfl
  | cons item rest ih => rw [sortedItems, ih, List.map_cons]

/-- Sorting the fields of a record sorts the value of each field by
itself, and keeps the keys. -/
theorem sortedFields_eq_map :
    sortedFields fields = fields.map fun field => (field.1, sorted field.2) := by
  induction fields with
  | nil => rfl
  | cons field rest ih => rw [sortedFields, ih, List.map_cons]

end Maps

end Json

end LineLexer
