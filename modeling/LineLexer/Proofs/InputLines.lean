import LineLexer.Report

/-!
# `LineLexer.Proofs.InputLines`: the lines of an input and their records

The input is split at its newlines from front to back. What comes of it
is what splitting all of it at once gives, less an empty part behind the
last newline. So two inputs of which the first ends in a newline can be
read one after the other, and only the numbers of the later lines tell
that there was something before them.

* `lineParts`: all parts of an input between newlines that count.
* `segments_eq_lineParts`: the program splits its input into these.
* `segments_append`: the parts of two inputs, one behind the other.
* `LineOf`: a line is a part without one carriage return at its end.
* `LineOf.dropReturn_eq`: the program reads the lines that `LineOf`
  describes.
* `getElem?_records`: the record of each line.
* `records_append`: the records of two inputs.
-/

set_option autoImplicit false

namespace LineLexer

/-! ### Parts -/

/-- The parts of an input between newlines. An empty one behind the
last newline does not count. -/
def lineParts (input : List UInt8) : List (List UInt8) :=
  let parts := input.splitOn 0x0A
  if parts.getLast? = some [] then parts.dropLast else parts

/-- Splitting at the first newline gives what stands on both of its sides.
There is no newline before it. -/
theorem eq_of_splitAtNewline {bytes before after : List UInt8}
    (h : splitAtNewline bytes = some (before, after)) :
    bytes = before ++ 0x0A :: after ∧ 0x0A ∉ before := by
  induction bytes generalizing before with
  | nil => cases h
  | cons b rest ih =>
    unfold splitAtNewline at h
    split at h
    · next hb =>
      cases h
      exact ⟨by rw [hb, List.nil_append], List.not_mem_nil⟩
    · next hb =>
      obtain ⟨⟨inner, behind⟩, hinner, heq⟩ := Option.map_eq_some_iff.mp h
      cases heq
      obtain ⟨hrest, hmem⟩ := ih hinner
      exact ⟨by rw [hrest, List.cons_append],
        List.not_mem_cons_of_ne_of_not_mem (Ne.symm hb) hmem⟩

/-- An input is split at its first newline, wherever that is. -/
theorem splitAtNewline_of_append {before : List UInt8} (h : 0x0A ∉ before)
    (after : List UInt8) : splitAtNewline (before ++ 0x0A :: after) = some (before, after) := by
  induction before with
  | nil => rfl
  | cons b rest ih =>
    rw [List.cons_append, splitAtNewline, if_neg (List.ne_of_not_mem_cons h).symm,
      ih (List.not_mem_of_not_mem_cons h)]
    rfl

/-- An input is not split exactly if there is no newline in it. -/
theorem splitAtNewline_eq_none_iff {bytes : List UInt8} :
    splitAtNewline bytes = none ↔ 0x0A ∉ bytes := by
  refine ⟨fun hnone hmem => ?_, fun h => ?_⟩
  · obtain ⟨before, after, rfl, hbefore⟩ := List.eq_append_cons_of_mem hmem
    rw [splitAtNewline_of_append hbefore] at hnone
    cases hnone
  · cases hsplit : splitAtNewline bytes with
    | none => rfl
    | some found =>
      obtain ⟨hbytes, -⟩ := eq_of_splitAtNewline hsplit
      exact absurd (hbytes ▸ List.mem_append_right _ List.mem_cons_self) h

/-- The part up to the first newline comes first, and the parts of what
stands behind the newline follow. -/
theorem segments_of_append {before : List UInt8} (h : 0x0A ∉ before) (after : List UInt8) :
    segments (before ++ 0x0A :: after) = before :: segments after := by
  have hsplit := splitAtNewline_of_append h after
  rw [segments]
  split
  · next heq =>
    rw [hsplit] at heq
    cases heq
    rfl
  · next heq =>
    rw [hsplit] at heq
    cases heq

/-- An input without a newline is one part, if there is anything in
it. -/
theorem segments_of_not_mem {bytes : List UInt8} (h : 0x0A ∉ bytes) :
    segments bytes = if bytes = [] then [] else [bytes] := by
  have hsplit := splitAtNewline_eq_none_iff.mpr h
  rw [segments]
  split
  · next heq =>
    rw [hsplit] at heq
    cases heq
  · simp only [List.isEmpty_iff]

/-- What holds of inputs without a newline, and of those with one if it
holds of what stands behind the first, holds of every input. -/
theorem newline_induction {p : List UInt8 → Prop}
    (of_not_mem : ∀ bytes, 0x0A ∉ bytes → p bytes)
    (of_append : ∀ before after, 0x0A ∉ before → p after → p (before ++ 0x0A :: after))
    (bytes : List UInt8) : p bytes := by
  fun_induction segments bytes with
  | case1 bytes before after hsplit ih =>
    obtain ⟨rfl, hbefore⟩ := eq_of_splitAtNewline hsplit
    exact of_append before after hbefore ih
  | case2 bytes hsplit hempty => exact of_not_mem bytes (splitAtNewline_eq_none_iff.mp hsplit)
  | case3 bytes hsplit hempty => exact of_not_mem bytes (splitAtNewline_eq_none_iff.mp hsplit)

/-- The program, which goes through its input from front to back, splits
it into the parts between newlines. -/
theorem segments_eq_lineParts (input : List UInt8) : segments input = lineParts input := by
  induction input using newline_induction with
  | of_not_mem bytes h =>
    rw [segments_of_not_mem h, lineParts, List.splitOn_eq_singleton h]
    simp
  | of_append before after h ih =>
    -- What is last behind the newline is last of all.
    have hne : after.splitOn 0x0A ≠ [] := List.splitOn_ne_nil 0x0A after
    rw [segments_of_append h, ih, lineParts, lineParts,
      List.splitOn_append_cons_self_of_not_mem h, List.getLast?_cons_of_ne_nil hne,
      List.dropLast_cons_of_ne_nil hne]
    split <;> rfl

/-- There is no newline in a part of an input. -/
theorem newline_not_mem_segments {input part : List UInt8} (h : part ∈ segments input) :
    0x0A ∉ part := by
  induction input using newline_induction with
  | of_not_mem bytes hbytes =>
    rw [segments_of_not_mem hbytes] at h
    split at h
    · cases h
    · exact List.mem_singleton.mp h ▸ hbytes
  | of_append before after hbefore ih =>
    rw [segments_of_append hbefore] at h
    rcases List.mem_cons.mp h with rfl | hafter
    · exact hbefore
    · exact ih hafter

/-- An input that ends in a newline, or has nothing in it: what comes
behind it begins a line. -/
def EndsLine (input : List UInt8) : Prop := input = [] ∨ input.getLast? = some 0x0A

/-- If an input ends in a newline or is empty, so is what stands behind
its first newline. -/
theorem EndsLine.of_append {before after : List UInt8}
    (h : EndsLine (before ++ 0x0A :: after)) : EndsLine after := by
  cases after with
  | nil => exact Or.inl rfl
  | cons b rest =>
    rcases h with h | h
    · simp at h
    · rw [List.getLast?_append, List.getLast?_cons_cons] at h
      simpa [EndsLine] using h

/-- The parts of two inputs are those of the first and those of the
second, if no line goes on across the border. -/
theorem segments_append {input : List UInt8} (h : EndsLine input) (more : List UInt8) :
    segments (input ++ more) = segments input ++ segments more := by
  induction input using newline_induction with
  | of_not_mem bytes hbytes =>
    rcases h with rfl | hlast
    · rw [List.nil_append, segments_of_not_mem hbytes]
      rfl
    · exact absurd (List.mem_of_getLast? hlast) hbytes
  | of_append before after hbefore ih =>
    rw [List.append_assoc, List.cons_append, segments_of_append hbefore,
      segments_of_append hbefore, ih h.of_append, List.cons_append]

/-! ### Lines -/

/-- A line is a part of the input without one carriage return at its end.
Any others before that one stay. -/
inductive LineOf : List UInt8 → List UInt8 → Prop where
  | returned (line : List UInt8) : LineOf (line ++ [0x0D]) line
  | plain {line : List UInt8} (h : line.getLast? ≠ some 0x0D) : LineOf line line

/-- What the program reads of a part is its line. -/
theorem LineOf.dropReturn_eq {part line : List UInt8} (h : LineOf part line) :
    dropReturn part = line := by
  cases h with
  | returned line => simp [dropReturn]
  | plain h => exact if_neg h

/-- Dropping a carriage return adds no bytes, so a line has no byte that
its part has not. -/
theorem dropReturn_subset (part : List UInt8) : dropReturn part ⊆ part := by
  rw [dropReturn]
  split
  · exact List.dropLast_subset part
  · exact List.Subset.refl _

/-! ### Records -/

/-- The record of a line as one of a longer input, in which there are
more lines before it. -/
def Record.behind (record : Record) (count : Nat) : Record :=
  { record with number := record.number + count }

section Records
variable (settings : Settings) (input : List UInt8)

/-- There are as many records as the input has parts. -/
theorem length_records : (records settings input).length = (segments input).length := by
  rw [records, splitLines, List.length_mapIdx, List.length_map]

/-- The record of a part has its place, counted from one, as the number of
the line, and what is read of the part without a carriage return at its
end. -/
theorem getElem?_records (k : Nat) :
    (records settings input)[k]?
      = (segments input)[k]?.map fun part => Record.ofLine settings (k + 1) (dropReturn part) := by
  rw [records, splitLines, List.getElem?_mapIdx, List.getElem?_map, Option.map_map]
  rfl

/-- The records of two inputs are those of the first and those of the
second, which are numbered on. -/
theorem records_append (h : EndsLine input) (more : List UInt8) :
    records settings (input ++ more)
      = records settings input
        ++ (records settings more).map (Record.behind · (segments input).length) := by
  -- What is read in a line does not depend on its number.
  have hnumber : ∀ k bytes, Record.ofLine settings (k + (segments input).length + 1) bytes
      = (Record.ofLine settings (k + 1) bytes).behind (segments input).length := by
    intro k bytes
    rw [Nat.add_right_comm]
    rfl
  simp only [records, splitLines, segments_append h, List.map_append, List.mapIdx_append,
    List.length_map, hnumber]
  congr 1
  refine List.ext_getElem? fun k => ?_
  simp only [List.getElem?_map, List.getElem?_mapIdx, Option.map_map, Function.comp_def]

end Records

end LineLexer
