/-!
# `LineLexer.Operator`: operators and their codes

An operator is spelled with one or two bytes and has a code by which
a command interpreter knows it. The first byte picks a simple
operator; a second byte can make a compound one of it.

* `Operator.all`: the operators, by ascending code.
* `Operator.read?`: the operator that the front of some bytes spells.
* `ofCode?_code`: an operator is known by its code.
* `read?_spelling`: an operator is read from its own spelling.
-/

set_option autoImplicit false

namespace LineLexer

/-- The operators of a command line. Each has one or more spellings of one
or two bytes. -/
inductive Operator where
  | less
  | lessOrEqual
  | greater
  | greaterOrEqual
  | equal
  | notEqual
  | hash
  | plus
  | plusAssign
  | minus
  | minusAssign
  | times
  | timesAssign
  | slash
  | slashAssign
  | caret
  | caretAssign
  | power
  | swap
  | percent
  | percentAssign
  deriving DecidableEq, Repr

namespace Operator

/-- All operators, by ascending code. The table of operators is printed in
this order. -/
def all : List Operator :=
  [less, lessOrEqual, greater, greaterOrEqual, equal, notEqual, hash, plus,
    plusAssign, minus, minusAssign, times, timesAssign, slash, slashAssign, caret,
    caretAssign, power, swap, percent, percentAssign]

/-- The code that stands for the operator in a token. It is the value of
the token. -/
def code : Operator → Nat
  | less => 1
  | lessOrEqual => 2
  | greater => 3
  | greaterOrEqual => 4
  | equal => 5
  | notEqual => 6
  | hash => 7
  | plus => 8
  | plusAssign => 9
  | minus => 10
  | minusAssign => 11
  | times => 12
  | timesAssign => 13
  | slash => 14
  | slashAssign => 15
  | caret => 16
  | caretAssign => 17
  | power => 18
  | swap => 20
  | percent => 22
  | percentAssign => 23

/-- The spelling under which the operator is reported. -/
def spelling : Operator → String
  | less => "<"
  | lessOrEqual => "<="
  | greater => ">"
  | greaterOrEqual => ">="
  | equal => "="
  | notEqual => "<>"
  | hash => "#"
  | plus => "+"
  | plusAssign => "+="
  | minus => "-"
  | minusAssign => "-="
  | times => "*"
  | timesAssign => "*="
  | slash => "/"
  | slashAssign => "/="
  | caret => "^"
  | caretAssign => "^="
  | power => "**"
  | swap => "><"
  | percent => "%"
  | percentAssign => "%="

/-- The name of the operator in the table of operators. -/
def name : Operator → String
  | less => "Lt"
  | lessOrEqual => "Le"
  | greater => "Gt"
  | greaterOrEqual => "Ge"
  | equal => "Eq"
  | notEqual => "Ne"
  | hash => "Hash"
  | plus => "Plus"
  | plusAssign => "PlusAssign"
  | minus => "Minus"
  | minusAssign => "MinusAssign"
  | times => "Asterisk"
  | timesAssign => "AsteriskAssign"
  | slash => "Slash"
  | slashAssign => "SlashAssign"
  | caret => "Caret"
  | caretAssign => "CaretAssign"
  | power => "Power"
  | swap => "Swap"
  | percent => "Percent"
  | percentAssign => "PercentAssign"

/-- The operator with the given code, if there is one. Codes are looked up
in the list of all operators. -/
def ofCode? (code : Int) : Option Operator :=
  all.find? fun op => (op.code : Int) == code

/-- The simple operator that a single byte spells, if it spells one. -/
def ofByte? (b : UInt8) : Option Operator :=
  if b = '<'.toUInt8 then some less
  else if b = '>'.toUInt8 then some greater
  else if b = '='.toUInt8 then some equal
  else if b = '#'.toUInt8 then some hash
  else if b = '+'.toUInt8 then some plus
  else if b = '-'.toUInt8 then some minus
  else if b = '*'.toUInt8 then some times
  else if b = '/'.toUInt8 then some slash
  else if b = '^'.toUInt8 then some caret
  else if b = '%'.toUInt8 then some percent
  else none

/-- The operator that a following `=` makes of a simple one. A second
`=` after `=` changes nothing, and `#` takes none. -/
def assigned? : Operator → Option Operator
  | less => some lessOrEqual
  | greater => some greaterOrEqual
  | equal => some equal
  | plus => some plusAssign
  | minus => some minusAssign
  | times => some timesAssign
  | slash => some slashAssign
  | caret => some caretAssign
  | percent => some percentAssign
  | _ => none

/-- The compound operator that a second byte makes of a simple one, if it
makes one. -/
def followedBy? (op : Operator) (second : UInt8) : Option Operator :=
  if second = '='.toUInt8 then op.assigned?
  else if op = less ∧ second = '>'.toUInt8 then some notEqual
  else if op = greater ∧ second = '<'.toUInt8 then some swap
  else if op = times ∧ second = '*'.toUInt8 then some power
  else none

/-- The operator that the bytes begin with, and how many of them spell
it: two if the first two make a compound operator, else one. Nothing
is read if the first byte spells no operator. -/
def read? : List UInt8 → Option (Operator × Nat)
  | [] => none
  | first :: rest =>
    (ofByte? first).map fun simple =>
      match rest.head?.bind simple.followedBy? with
      | some compound => (compound, 2)
      | none => (simple, 1)

/-! ### Laws -/

/-- Every operator stands in the list of operators, so none is missing
from the printed table. -/
theorem mem_all (op : Operator) : op ∈ all := by
  cases op <;> decide

/-- An operator is found by its own code. No two operators share a
code. -/
theorem ofCode?_code (op : Operator) : ofCode? op.code = some op := by
  cases op <;> rfl

/-- An operator is read from its own spelling, and takes it up whole. No
shorter operator is read in its place. -/
theorem read?_spelling (op : Operator) :
    read? op.spelling.toUTF8.data.toList
      = some (op, op.spelling.toUTF8.data.toList.length) := by
  cases op <;> decide +kernel

/-- An operator that is read takes one or two bytes, and they are
there. -/
theorem read?_length {bytes : List UInt8} {op : Operator} {length : Nat}
    (h : read? bytes = some (op, length)) :
    0 < length ∧ length ≤ 2 ∧ length ≤ bytes.length := by
  match bytes with
  | [] => cases h
  | first :: rest =>
    obtain ⟨simple, -, hpair⟩ := Option.map_eq_some_iff.mp h
    match rest, hpair with
    | [], hpair =>
      cases hpair
      simp
    | second :: more, hpair =>
      split at hpair <;> cases hpair <;> simp

end Operator

end LineLexer
