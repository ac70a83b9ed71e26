import LineLexer.Numeral
import LineLexer.Operator

/-!
# `LineLexer.Lexeme`: the next lexeme of some bytes

What the scanner does is a function of the bytes ahead: it passes over
the delimiters and cuts one lexeme off. The kind of lexeme follows
from the class of its first byte.

* `Lexeme.Cut`: a lexeme, with the bytes before, in and after it.
* `cut?`: the next lexeme of some bytes, in one of the four modes.
* `Cut.bytes_of_cut?`: the parts of a cut are the bytes it was made
  from.
* `cut?_eq_none_iff`: there is no lexeme exactly if only delimiters
  are left.
-/

set_option autoImplicit false

namespace LineLexer

/-- What the bytes of a line are read as. A mode is chosen anew for every
scan. -/
inductive Mode where
  /-- Operators, whole numbers, words and quoted words. -/
  | plain
  /-- Operators, words and quoted words as in plain mode, and real
  numbers. -/
  | real
  /-- Words alone, in which digits and operator bytes are ordinary. -/
  | word
  /-- The rest of the line as one word. -/
  | rest
  deriving DecidableEq, Repr

namespace Mode

/-- The name of a mode on the command line. -/
def name : Mode → String
  | plain => "plain"
  | real => "real"
  | word => "word"
  | rest => "rest"

/-- All modes, in the order in which the command line lists them. -/
def all : List Mode := [plain, real, word, rest]

/-- The classes in force while a lexeme is cut. Two modes widen the table,
and the other two leave it as it is. -/
def classes (mode : Mode) (table : ClassTable) : ClassTable :=
  match mode with
  | plain | rest => table
  | real => table.widen .real
  | word => table.widen .word

/-- Whether letters of the text become capitals. Real numbers always
have capitals. -/
def folds (mode : Mode) (fold : Bool) : Bool := mode == real || fold

end Mode

/-- A lexeme, with the bytes that its text is made of. A number has its
digits read already, and keeps them for its text. -/
inductive Lexeme where
  /-- An operator and its spelling. -/
  | operator (op : Operator) (spelling : List UInt8)
  /-- A number, with or without a sign. -/
  | numeral (n : Numeral)
  /-- A word outside quotes. -/
  | word (bytes : List UInt8)
  /-- The bytes between two quotes, and those that follow at once and
  belong to the same word. -/
  | quoted (inside tail : List UInt8)
  deriving DecidableEq, Repr

namespace Lexeme

/-- A lexeme, with the delimiters before it, the bytes that it covers
(there is a first one) and those after it. -/
structure Cut where
  skipped : List UInt8
  first : UInt8
  more : List UInt8
  after : List UInt8
  lexeme : Lexeme
  deriving DecidableEq, Repr

/-- The bytes that a lexeme covers, from the first to the last. -/
def Cut.source (cut : Cut) : List UInt8 := cut.first :: cut.more

/-! ### One lexeme -/

/-- Whether a sign begins a number: it stands before a byte of class
digit. The underscore is a sign itself and does not follow one. -/
def beginsSigned (classes : ClassTable) (first : UInt8) (rest : List UInt8) : Bool :=
  Ascii.isSign first
    && rest.head?.any fun b => classes b == .digit && b != Numeral.underscore

/-- The bytes that may spell an operator: the first, and the second if
it is of class operator. -/
def operatorBytes (classes : ClassTable) (first : UInt8) (rest : List UInt8) :
    List UInt8 :=
  first :: (rest.take 1).filter fun b => classes b == .operator

/-- A lexeme without the first of its bytes, and the bytes behind it. The
first byte is known to whoever asked for the reading. -/
structure Reading where
  lexeme : Lexeme
  /-- The bytes that the lexeme covers beside its first. -/
  more : List UInt8
  after : List UInt8
  deriving DecidableEq, Repr

/-- A numeral that has its first bytes, with all that it takes of the
bytes that follow. -/
def readNumeral (classes : ClassTable) (mode : Mode) (n : Numeral)
    (bytes : List UInt8) : Reading :=
  let run := n.run classes (mode == .real) bytes
  ⟨.numeral run.1, run.2.1, run.2.2⟩

/-- A word, with all of the bytes of class other that follow its first
one. -/
def readWord (classes : ClassTable) (first : UInt8) (rest : List UInt8) : Reading :=
  let more := rest.takeWhile fun b => classes b == .other
  ⟨.word (first :: more), more, rest.dropWhile fun b => classes b == .other⟩

/-- The bytes up to the next quote or the end of the line. In word
mode, bytes of class other right behind the quote belong to the word
too. -/
def readQuoted (classes : ClassTable) (mode : Mode) (quote : UInt8)
    (rest : List UInt8) : Reading :=
  let inside := rest.takeWhile (· != quote)
  match rest.dropWhile (· != quote) with
  -- A quote that is never closed takes the rest of the line.
  | [] => ⟨.quoted inside [], inside, []⟩
  | closing :: behind =>
    if mode = .word then
      let tail := behind.takeWhile fun b => classes b == .other
      ⟨.quoted inside tail, inside ++ closing :: tail,
        behind.dropWhile fun b => classes b == .other⟩
    else ⟨.quoted inside [], inside ++ [closing], behind⟩

/-- A lexeme that begins with a byte of class operator. It is a number if
the byte is a sign before a digit, and otherwise the operator that its
first bytes spell. -/
def readOperator (classes : ClassTable) (mode : Mode) (first : UInt8)
    (rest : List UInt8) : Reading :=
  match rest, beginsSigned classes first rest with
  | second :: behind, true =>
    -- The sign is no part of the number's text, but its byte is covered.
    let reading := readNumeral classes mode (.startSigned first second) behind
    { reading with more := second :: reading.more }
  | _, _ =>
    match Operator.read? (operatorBytes classes first rest) with
    | some (op, length) =>
      let more := rest.take (length - 1)
      ⟨.operator op (first :: more), more, rest.drop (length - 1)⟩
    -- No table gives class operator to a byte that spells no operator.
    | none => readWord classes first rest

/-- The lexeme that begins with the byte `first`. The class of that byte
decides how it is read, and a quote begins a quoted word. -/
def read (classes : ClassTable) (mode : Mode) (first : UInt8) (rest : List UInt8) :
    Reading :=
  match classes first with
  | .digit => readNumeral classes mode (.start first) rest
  | .operator => readOperator classes mode first rest
  | .other | .delimiter =>
    if Ascii.isQuote first then readQuoted classes mode first rest
    else readWord classes first rest

/-- The next lexeme of the bytes in a mode, or nothing if they hold
only delimiters. The rest of a line is one word with all its bytes,
delimiters too. -/
def cut? (classes : ClassTable) (mode : Mode) (bytes : List UInt8) : Option Cut :=
  if mode = .rest then
    match bytes with
    | [] => none
    | first :: more => some { skipped := [], first, more, after := [], lexeme := .word bytes }
  else
    match bytes.dropWhile fun b => classes b == .delimiter with
    | [] => none
    | first :: rest =>
      let reading := read classes mode first rest
      some { skipped := bytes.takeWhile fun b => classes b == .delimiter,
             first, more := reading.more, after := reading.after,
             lexeme := reading.lexeme }

/-! ### Where scanning goes on -/

/-- Whether a delimiter right after the lexeme is passed over with it.
One after an operator or a closing quote is left to the next scan. -/
def passesDelimiter : Lexeme → Bool
  | .operator .. => false
  | .numeral _ => true
  | .word _ => true
  | .quoted _ tail => !tail.isEmpty

/-- The number of bytes that are passed over with a cut: the delimiters
before it, the bytes it covers, and one delimiter behind it where that is
passed over too. -/
def Cut.width (cut : Cut) (classes : ClassTable) : Nat :=
  let ended := cut.lexeme.passesDelimiter
    && cut.after.head?.any fun b => classes b == .delimiter
  cut.skipped.length + cut.source.length + if ended then 1 else 0

/-! ### Laws -/

/-- The bytes that a numeral takes and the bytes after it are those that
it was read from. -/
theorem readNumeral_append (classes : ClassTable) (mode : Mode) (n : Numeral)
    (bytes : List UInt8) :
    (readNumeral classes mode n bytes).more ++ (readNumeral classes mode n bytes).after
      = bytes :=
  Numeral.run_append ..

/-- The bytes of a word and the bytes after it are those that it was read
from. -/
theorem readWord_append (classes : ClassTable) (first : UInt8) (rest : List UInt8) :
    (readWord classes first rest).more ++ (readWord classes first rest).after = rest :=
  List.takeWhile_append_dropWhile

/-- The bytes of a quoted word, its closing quote among them, and the
bytes after it are those that it was read from. -/
theorem readQuoted_append (classes : ClassTable) (mode : Mode) (quote : UInt8)
    (rest : List UInt8) :
    (readQuoted classes mode quote rest).more ++ (readQuoted classes mode quote rest).after
      = rest := by
  have hsplit := List.takeWhile_append_dropWhile (p := (· != quote)) (l := rest)
  unfold readQuoted
  dsimp only
  split
  · next h =>
    rw [h] at hsplit
    exact hsplit
  · next closing behind h =>
    rw [h] at hsplit
    split
    · simp only [List.append_assoc, List.cons_append, List.takeWhile_append_dropWhile]
      exact hsplit
    · simpa using hsplit

/-- The bytes of an operator or a signed number and the bytes after it are
those that it was read from. -/
theorem readOperator_append (classes : ClassTable) (mode : Mode) (first : UInt8)
    (rest : List UInt8) :
    (readOperator classes mode first rest).more
      ++ (readOperator classes mode first rest).after = rest := by
  unfold readOperator
  split
  · next second behind _ =>
    exact congrArg (second :: ·) (readNumeral_append ..)
  · split
    · exact List.take_append_drop ..
    · exact readWord_append ..

/-- Reading one lexeme loses no byte, whatever kind of lexeme it is. What
it covers and what follows are the bytes behind its first. -/
theorem read_append (classes : ClassTable) (mode : Mode) (first : UInt8)
    (rest : List UInt8) :
    (read classes mode first rest).more ++ (read classes mode first rest).after = rest := by
  unfold read
  split
  · exact readNumeral_append ..
  · exact readOperator_append ..
  all_goals
    split
    · exact readQuoted_append ..
    · exact readWord_append ..

/-- The delimiters before a cut, the bytes that it covers and the bytes
after it are those that it was made from. -/
theorem Cut.bytes_of_cut? {classes : ClassTable} {mode : Mode} {bytes : List UInt8}
    {cut : Cut} (h : cut? classes mode bytes = some cut) :
    cut.skipped ++ cut.source ++ cut.after = bytes := by
  unfold cut? at h
  split at h
  · cases bytes with
    | nil => cases h
    | cons first more =>
      cases h
      simp [Cut.source]
  · split at h
    · cases h
    · next first rest hrest =>
      cases h
      have hsplit := List.takeWhile_append_dropWhile
        (p := fun b => classes b == .delimiter) (l := bytes)
      rw [hrest] at hsplit
      simp only [Cut.source, List.append_assoc, List.cons_append, read_append]
      exact hsplit

/-- A cut passes over at least one byte, so a scan that finds a lexeme
always makes progress. -/
theorem Cut.width_pos (cut : Cut) (classes : ClassTable) : 0 < cut.width classes := by
  simp only [Cut.width, Cut.source, List.length_cons]
  omega

/-- A cut passes over no more bytes than there are. Its width may be taken
in another table than the one that it was made in. -/
theorem Cut.width_le {classes table : ClassTable} {mode : Mode} {bytes : List UInt8}
    {cut : Cut} (h : cut? classes mode bytes = some cut) :
    cut.width table ≤ bytes.length := by
  have hparts := congrArg List.length (Cut.bytes_of_cut? h)
  simp only [List.length_append] at hparts
  unfold Cut.width
  dsimp only
  split
  · next hended =>
    cases hafter : cut.after with
    | nil => simp [hafter] at hended
    | cons b rest =>
      rw [hafter, List.length_cons] at hparts
      omega
  · omega

/-- There is no lexeme exactly if only delimiters are left, or nothing
at all when the rest of the line is asked for. -/
theorem cut?_eq_none_iff (classes : ClassTable) (mode : Mode) (bytes : List UInt8) :
    cut? classes mode bytes = none ↔
      if mode = .rest then bytes = [] else ∀ b ∈ bytes, classes b = .delimiter := by
  unfold cut?
  split
  · cases bytes <;> simp
  · have hsplit := List.takeWhile_append_dropWhile
      (p := fun b => classes b == .delimiter) (l := bytes)
    have hall : ∀ b ∈ bytes.takeWhile fun b => classes b == .delimiter,
        classes b = .delimiter := fun b hb =>
      beq_iff_eq.mp (List.all_eq_true.mp List.all_takeWhile b hb)
    split
    · next h =>
      rw [h, List.append_nil] at hsplit
      rw [hsplit] at hall
      exact iff_of_true rfl hall
    · next first rest h =>
      have hfirst := List.head?_dropWhile_not (fun b => classes b == .delimiter) bytes
      simp only [h, List.head?_cons, beq_eq_false_iff_ne] at hfirst
      rw [h] at hsplit
      refine iff_of_false (by simp) fun hbytes => hfirst (hbytes first ?_)
      rw [← hsplit]
      simp

end Lexeme

end LineLexer
