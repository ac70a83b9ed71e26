import LineLexer.Proofs.JsonText

/-!
# `LineLexer.Proofs.JsonReading`: what a JSON text says

A JSON text is read symbol by symbol. Brackets and braces that are open
lie on a stack, each with what has been read behind it, and at any time
it is settled which symbols can come next.

A value is read back from both of its texts. Sorting the fields of a
value does not change what its text says, if no key occurs twice.

* `Doc`: what is read. Numbers are kept as they are written.
* `Doc.read?`: the reader. It takes JSON texts only, without booleans,
  which no report has.
* `Json.doc`: what a value says.
* `read?_compact`, `read?_pretty`: both texts of a value are read as
  what it says.
* `Doc.Same`: the same value, whatever the order of the fields.
* `same_sorted`: sorted fields make the same value.
-/

set_option autoImplicit false

namespace LineLexer

namespace Json

/-! ### The reader -/

/-- What a JSON text says. A number is kept as it is written, so nothing
of it is lost. -/
inductive Doc where
  | null
  | number (written : String)
  | text (value : String)
  | list (items : List Doc)
  | record (fields : List (String × Doc))
  deriving Repr

/-- A list or a record that is open, with what has been read of it so
far. -/
inductive Frame where
  /-- A list, with the items so far. -/
  | list (items : List Doc)
  /-- A record, with the fields so far and the key of the next. -/
  | record (fields : List (String × Doc)) (key : String)

/-- What has been read at some point of a text, and so what can come
next. -/
inductive Reading where
  /-- A value comes next. -/
  | value (frames : List Frame)
  /-- A list has been opened: its first item comes next, or its end. -/
  | item (frames : List Frame)
  /-- A record has been opened: its first key comes next, or its end. -/
  | field (frames : List Frame)
  /-- Another key comes next. -/
  | key (fields : List (String × Doc)) (frames : List Frame)
  /-- A colon comes next. -/
  | colon (fields : List (String × Doc)) (key : String) (frames : List Frame)
  /-- A value has been read: a comma comes next, or the end of what is
  open. -/
  | done (doc : Doc) (frames : List Frame)

/-- What a word says: null, or the number that it is. Any other word says
nothing. -/
def Doc.ofWord? (written : String) : Option Doc :=
  if written = "null" then some .null
  else if isNumber written.toList then some (.number written)
  else none

namespace Reading

/-- The reading behind a symbol that begins a value, inside of what is
open. Other symbols are refused. -/
def begin? (frames : List Frame) : Symbol → Option Reading
  | .text shown => some (.done (.text shown) frames)
  | .word written => (Doc.ofWord? written).map (.done · frames)
  | .mark '[' => some (.item frames)
  | .mark '\x7b' => some (.field frames)
  | .mark _ => none

/-- The reading behind one more symbol, if that symbol can come next. -/
def next? : Reading → Symbol → Option Reading
  | .value frames, symbol => begin? frames symbol
  | .item frames, .mark ']' => some (.done (.list []) frames)
  | .item frames, symbol => begin? (.list [] :: frames) symbol
  | .field frames, .mark '\x7d' => some (.done (.record []) frames)
  | .field frames, .text name => some (.colon [] name frames)
  | .key fields frames, .text name => some (.colon fields name frames)
  | .colon fields name frames, .mark ':' => some (.value (.record fields name :: frames))
  | .done doc (.list items :: frames), .mark ',' =>
    some (.value (.list (items ++ [doc]) :: frames))
  | .done doc (.list items :: frames), .mark ']' => some (.done (.list (items ++ [doc])) frames)
  | .done doc (.record fields name :: frames), .mark ',' =>
    some (.key (fields ++ [(name, doc)]) frames)
  | .done doc (.record fields name :: frames), .mark '\x7d' =>
    some (.done (.record (fields ++ [(name, doc)])) frames)
  | _, _ => none

/-- The value that has been read, if nothing is open. -/
def doc? : Reading → Option Doc
  | .done doc [] => some doc
  | _ => none

end Reading

/-- What a text says, if it is a JSON text: its symbols are read one by
one, and in the end one value has been read and nothing is open. -/
def Doc.read? (text : String) : Option Doc := do
  let symbols ← symbols? text.toList
  let reading ← symbols.foldlM Reading.next? (.value [])
  reading.doc?

/-! ### What a value says -/

mutual

/-- What a value says, once it has been written. A real number that is not
finite says nothing but null. -/
def doc : Json → Doc
  | null => .null
  | int value => .number (toString value)
  | real value => if value.isFinite then .number (writeReal value) else .null
  | text value => .text value
  | list items => .list (itemDocs items)
  | record fields => .record (fieldDocs fields)

/-- What the items of a list say. -/
def itemDocs : List Json → List Doc
  | [] => []
  | item :: rest => doc item :: itemDocs rest

/-- What the fields of a record say. -/
def fieldDocs : List (String × Json) → List (String × Doc)
  | [] => []
  | (key, value) :: rest => (key, doc value) :: fieldDocs rest

end

/-- The items of a list say what each of them says by itself. -/
theorem itemDocs_eq_map (items : List Json) : itemDocs items = items.map doc := by
  induction items with
  | nil => rfl
  | cons item rest ih => rw [itemDocs, ih, List.map_cons]

/-- The fields of a record say what the value of each of them says by
itself, under the same keys. -/
theorem fieldDocs_eq_map (fields : List (String × Json)) :
    fieldDocs fields = fields.map fun field => (field.1, doc field.2) := by
  induction fields with
  | nil => rfl
  | cons field rest ih => rw [fieldDocs, ih, List.map_cons]

/-! ### Reading what has been written -/

/-- A JSON number is read as it is written. -/
theorem ofWord?_of_isNumber {written : String} (h : isNumber written.toList = true) :
    Doc.ofWord? written = some (.number written) := by
  have hnull : written ≠ "null" := by
    rintro rfl
    exact absurd h (by decide)
  rw [Doc.ofWord?, if_neg hnull, if_pos h]

/-- What is written for a real number is read as what the number says,
which is null for an infinity or a NaN. -/
theorem ofWord?_writeReal (value : Binary64) :
    Doc.ofWord? (writeReal value) = some (doc (.real value)) := by
  rw [doc]
  cases hfinite : value.isFinite with
  | true => exact ofWord?_of_isNumber (isNumber_writeReal hfinite)
  | false =>
    rw [writeReal, hfinite]
    rfl

/-- The symbols of a value are read as what it says, whatever is open
around it. -/
def IsReadBack (value : Json) : Prop :=
  ∀ frames : List Frame,
    value.symbols.foldlM Reading.next? (.value frames) = some (.done value.doc frames)

/-- Symbols in front of others are read first, and the others from there
on. -/
theorem foldlM_append_of_some {xs ys : List Symbol} {reading later : Reading}
    (h : xs.foldlM Reading.next? reading = some later) :
    (xs ++ ys).foldlM Reading.next? reading = ys.foldlM Reading.next? later := by
  rw [List.foldlM_append, h]
  rfl

/-- Items with commas between them are read one by one, up to the end of
the list. -/
theorem foldlM_items {item : Json} {rest : List Json}
    (h : ∀ value ∈ item :: rest, value.IsReadBack) (frames : List Frame) (before : List Doc) :
    ([Symbol.mark ','].intercalate ((item :: rest).map symbols) ++ [Symbol.mark ']']).foldlM
        Reading.next? (.value (.list before :: frames))
      = some (.done (.list (before ++ (item :: rest).map doc)) frames) := by
  induction rest generalizing item before with
  | nil =>
    have hitem := h item List.mem_cons_self (.list before :: frames)
    rw [List.map_singleton, List.intercalate_singleton, foldlM_append_of_some hitem]
    rfl
  | cons next later ih =>
    obtain ⟨hitem, hrest⟩ := List.forall_mem_cons.mp h
    rw [List.map_cons, List.map_cons, List.intercalate_cons_cons, List.append_assoc,
      List.append_assoc, foldlM_append_of_some (hitem (.list before :: frames))]
    have hlater := ih hrest (before ++ [item.doc])
    rw [List.append_assoc] at hlater
    exact hlater

/-- Fields with commas between them are read one by one, up to the end of
the record. -/
theorem foldlM_fields {field : String × Json} {rest : List (String × Json)}
    (h : ∀ member ∈ field :: rest, member.2.IsReadBack) (frames : List Frame)
    (before : List (String × Doc)) :
    ([Symbol.mark ','].intercalate
        ((field :: rest).map fun member => .text member.1 :: .mark ':' :: symbols member.2)
      ++ [Symbol.mark '\x7d']).foldlM Reading.next? (.key before frames)
      = some (.done (.record (before ++ (field :: rest).map fun member => (member.1, doc member.2)))
          frames) := by
  induction rest generalizing field before with
  | nil =>
    have hvalue := h field List.mem_cons_self (.record before field.1 :: frames)
    rw [List.map_singleton, List.intercalate_singleton]
    exact (foldlM_append_of_some hvalue).trans rfl
  | cons next later ih =>
    obtain ⟨hvalue, hrest⟩ := List.forall_mem_cons.mp h
    have hlater := ih hrest (before ++ [(field.1, field.2.doc)])
    rw [List.map_cons, List.map_cons, List.intercalate_cons_cons, List.append_assoc,
      List.append_assoc]
    rw [List.append_assoc] at hlater
    exact (foldlM_append_of_some (hvalue (.record before field.1 :: frames))).trans hlater

/-- A value does not begin like the end of a list, so there can be a
first item. -/
theorem foldlM_item (frames : List Frame) (item : Json) (rest : List Json) (last : Symbol) :
    ([Symbol.mark ','].intercalate ((item :: rest).map symbols) ++ [last]).foldlM
        Reading.next? (.item frames)
      = ([Symbol.mark ','].intercalate ((item :: rest).map symbols) ++ [last]).foldlM
        Reading.next? (.value (.list [] :: frames)) := by
  have hfirst : ∀ more, (item.symbols ++ more).foldlM Reading.next? (.item frames)
      = (item.symbols ++ more).foldlM Reading.next? (.value (.list [] :: frames)) := by
    intro more
    cases item <;> rfl
  cases rest with
  | nil =>
    rw [List.map_singleton, List.intercalate_singleton]
    exact hfirst _
  | cons next later =>
    rw [List.map_cons, List.map_cons, List.intercalate_cons_cons, List.append_assoc,
      List.append_assoc]
    exact hfirst _

/-- A word that says something is read as a value by itself, whatever is
open around it. -/
theorem foldlM_word {written : String} {read : Doc} (h : Doc.ofWord? written = some read)
    (frames : List Frame) :
    [Symbol.word written].foldlM Reading.next? (.value frames) = some (.done read frames) := by
  rw [List.foldlM_cons, Reading.next?, Reading.begin?, h]
  rfl

/-- Every value is read back from its symbols, by induction on the
value. -/
theorem isReadBack (value : Json) : value.IsReadBack := by
  induction value using Json.induction with
  | null => exact foldlM_word rfl
  | int value => exact foldlM_word (ofWord?_of_isNumber (isNumber_int value))
  | real value => exact foldlM_word (ofWord?_writeReal value)
  | text value => exact fun _ => rfl
  | list items ih =>
    intro frames
    rw [symbols, doc, itemSymbols_eq_map, itemDocs_eq_map]
    cases items with
    | nil => rfl
    | cons item rest =>
      exact (foldlM_item frames item rest _).trans (foldlM_items ih frames [])
  | record fields ih =>
    intro frames
    rw [symbols, doc, fieldSymbols_eq_map, fieldDocs_eq_map]
    cases fields with
    | nil => rfl
    | cons field rest =>
      -- The first key can stand where the record could have ended.
      have h := foldlM_fields ih frames []
      cases rest with
      | nil => exact h
      | cons next later => exact h

/-- A text with the symbols of a value is read as what it says. -/
theorem read?_of_symbols? {text : String} {value : Json}
    (h : symbols? text.toList = some value.symbols) : Doc.read? text = some value.doc := by
  rw [Doc.read?, h, Option.bind_eq_bind, Option.bind_some, isReadBack value []]
  rfl

/-- The compact text of a value is read as what the value says. No text of
a token can break out of its quotes. -/
theorem read?_compact (value : Json) : Doc.read? value.compact = some value.doc := by
  have hsymbols := (reads_compact value).symbols?_append (fun _ h => absurd h List.not_mem_nil)
  rw [List.append_nil] at hsymbols
  exact read?_of_symbols? hsymbols

/-- The indented text of a value is read as what the value says, with
space behind it or not. -/
theorem read?_pretty (value : Json) {spaces : String}
    (h : ∀ c ∈ spaces.toList, isSpace c = true) :
    Doc.read? (value.pretty ++ spaces) = some value.doc := by
  refine read?_of_symbols? ?_
  rw [String.toList_append]
  exact (reads_prettyAt 0 value).symbols?_append h

/-! ### Field order -/

/-- Two texts say the same, if the order of the fields of a record does
not count: records have the same keys, none of them twice, and the same
under each key. -/
inductive Doc.Same : Doc → Doc → Prop where
  | null : Same .null .null
  | number (written : String) : Same (.number written) (.number written)
  | text (value : String) : Same (.text value) (.text value)
  | list {items others : List Doc} (hitems : List.Forall₂ Same items others) :
    Same (.list items) (.list others)
  | record {fields others : List (String × Doc)} (hnodup : (fields.map Prod.fst).Nodup)
      (hkeys : (fields.map Prod.fst).Perm (others.map Prod.fst))
      (hvalues : ∀ key value other, (key, value) ∈ fields → (key, other) ∈ others →
        Same value other) :
    Same (.record fields) (.record others)

/-- No key occurs twice in a record within a value, at any depth. The
order of the fields of such a value can be disregarded. -/
inductive DistinctKeys : Json → Prop where
  | null : DistinctKeys .null
  | int (value : Int) : DistinctKeys (.int value)
  | real (value : Binary64) : DistinctKeys (.real value)
  | text (value : String) : DistinctKeys (.text value)
  | list {items : List Json} (hitems : ∀ item ∈ items, DistinctKeys item) :
    DistinctKeys (.list items)
  | record {fields : List (String × Json)} (hkeys : (fields.map Prod.fst).Nodup)
      (hfields : ∀ field ∈ fields, DistinctKeys field.2) : DistinctKeys (.record fields)

/-- Sorting the fields of a value does not change what it says, if no key
occurs twice in a record. -/
theorem same_sorted {value : Json} (h : value.DistinctKeys) :
    Doc.Same value.doc value.sorted.doc := by
  induction h with
  | null => exact .null
  | int value => exact .number _
  | real value =>
    rw [sorted, doc]
    split
    · exact .number _
    · exact .null
  | text value => exact .text value
  | @list items hitems ih =>
    rw [sorted, doc, doc, itemDocs_eq_map, itemDocs_eq_map, sortedItems_eq_map]
    refine .list ?_
    rw [List.map_map, List.forall₂_map_left_iff, List.forall₂_map_right_iff, List.forall₂_same]
    exact ih
  | @record fields hkeys hfields ih =>
    have hperm := List.mergeSort_perm (sortedFields fields) keyLE
    rw [sortedFields_eq_map] at hperm
    rw [sorted, doc, doc, fieldDocs_eq_map, fieldDocs_eq_map, sortedFields_eq_map]
    refine .record ?_ ?_ ?_
    · rwa [List.map_map]
    · have hsame := (hperm.map Prod.fst).symm
      rw [List.map_map] at hsame
      rwa [List.map_map, List.map_map]
    · intro key value other hvalue hother
      obtain ⟨field, hfield, heq⟩ := List.mem_map.mp hvalue
      obtain ⟨moved, hmoved, heq'⟩ := List.mem_map.mp hother
      obtain ⟨origin, horigin, rfl⟩ := List.mem_map.mp (hperm.mem_iff.mp hmoved)
      obtain ⟨rfl, rfl⟩ := Prod.mk.inj heq
      obtain ⟨hkey, rfl⟩ := Prod.mk.inj heq'
      -- There is one field only under the key.
      obtain rfl := List.inj_on_of_nodup_map hkeys horigin hfield hkey
      exact ih origin horigin

end Json

end LineLexer
