import AccessPolicy.Datum.Basic
import AccessPolicy.Decimal.Literal
import AccessPolicy.Json.Token

/-!
# JSON trees

The tree of a JSON text, built from its tokens by a machine with a stack of open lists and records. A tree may hold
numbers beyond the range of doubles and broken texts, and may be nested as deep as one likes: what is skipped is
held to the grammar only. `Tree.datum?` gives the value of a tree and refuses all three.

Contents:
* `Tree`, `Frame`, `State`, `State.step` — the machine;
* `numeral?` — the grammar of numbers;
* `Tree.datum?`, `datum?` — values of trees and of texts.
-/

namespace AccessPolicy.Json

open Decimal (Numeral)

/-- A JSON text, parsed. -/
inductive Tree where
  | null
  | bool (b : Bool)
  | number (n : Numeral)
  /-- A text; none if an escape names half of a surrogate pair. -/
  | text (content : Option String)
  | list (items : List Tree)
  | record (entries : List (Option String × Tree))
  deriving Inhabited

/-! ## Numbers -/

/-- The number that a spelling writes: no leading zeros, a digit on both sides of a point. -/
def numeral? (spelling : List Char) : Option Numeral :=
  let (negative, unsigned) :=
    match spelling with
    | '-' :: rest => (true, rest)
    | cs => (false, cs)
  match Decimal.takeDigits unsigned with
  | ([], _) => none
  | (0 :: _ :: _, _) => none
  | (whole, '.' :: rest) =>
    match Decimal.takeDigits rest with
    | ([], _) => none
    | (fraction, rest) => (Decimal.exponentOrEnd? Decimal.ofDigits rest).map (⟨negative, whole, fraction, ·⟩)
  | (whole, rest) => (Decimal.exponentOrEnd? Decimal.ofDigits rest).map (⟨negative, whole, [], ·⟩)

/-! ## The machine -/

/-- A list or record that is open around the current place, with what it holds so far, last first. -/
inductive Frame where
  | list (items : List Tree)
  /-- With the key whose value is being read. -/
  | record (entries : List (Option String × Tree)) (key : Option String)

/-- What may come next, and what is open around it, innermost first. -/
inductive State where
  /-- A value. -/
  | value (outer : List Frame)
  /-- The first item of a list, or its end. -/
  | item (outer : List Frame)
  /-- The key of an entry; the end of the record too, if it has no entries yet. -/
  | key (entries : List (Option String × Tree)) (outer : List Frame)
  /-- The colon after a key. -/
  | colon (entries : List (Option String × Tree)) (key : Option String) (outer : List Frame)
  /-- What follows a value: a comma, or the end of what it stands in. -/
  | after (t : Tree) (outer : List Frame)

namespace State

/-- A token where a value must come. -/
def value? (outer : List Frame) : Token → Option State
  | .null => some (.after .null outer)
  | .bool b => some (.after (.bool b) outer)
  | .number spelling => (numeral? spelling).map fun n => .after (.number n) outer
  | .text content => some (.after (.text content) outer)
  | .listOpen => some (.item outer)
  | .recordOpen => some (.key [] outer)
  | _ => none

/-- One token. -/
def step : State → Token → Option State
  | .value outer, t => value? outer t
  | .item outer, .listClose => some (.after (.list []) outer)
  | .item outer, t => value? (.list [] :: outer) t
  -- After a comma a key is due: only a record without entries may end here.
  | .key [] outer, .recordClose => some (.after (.record []) outer)
  | .key entries outer, .text content => some (.colon entries content outer)
  | .colon entries k outer, .colon => some (.value (.record entries k :: outer))
  -- A finished value goes into what is open around it.
  | .after t (.list items :: outer), .comma => some (.value (.list (t :: items) :: outer))
  | .after t (.list items :: outer), .listClose => some (.after (.list (t :: items).reverse) outer)
  | .after t (.record entries k :: outer), .comma => some (.key ((k, t) :: entries) outer)
  | .after t (.record entries k :: outer), .recordClose =>
    some (.after (.record ((k, t) :: entries).reverse) outer)
  | _, _ => none

/-- All tokens in turn. -/
def run : State → List Token → Option State
  | s, [] => some s
  | s, t :: ts =>
    match s.step t with
    | some s' => run s' ts
    | none => none

end State

/-- The tree of a text. -/
def tree? (text : String) : Option Tree :=
  match (tokens? text.toList).bind (State.run (.value [])) with
  | some (.after t []) => some t
  | _ => none

/-! ## Values -/

/-- The deepest nesting of lists and records in a text that is read as a value. -/
def maxDepth : Nat := 127

mutual

/-- The value of a tree that is nested at most `depth` deep, with all keys as they are written. -/
def Tree.datum? (depth : Nat) : Tree → Option Datum
  | .null => some .null
  | .bool b => some (.bool b)
  | .number n => n.scaled?.map .number
  | .text content => content.map .text
  | .list items =>
    match depth with
    | 0 => none
    | depth + 1 => (items? depth items).map .list
  | .record entries =>
    match depth with
    | 0 => none
    | depth + 1 => (entries? depth entries).map .record

/-- The values of trees, in order. -/
def items? (depth : Nat) : List Tree → Option (List Datum)
  | [] => some []
  | t :: ts =>
    match t.datum? depth, items? depth ts with
    | some d, some ds => some (d :: ds)
    | _, _ => none

/-- The values of entries, in order. -/
def entries? (depth : Nat) : List (Option String × Tree) → Option (List (String × Datum))
  | [] => some []
  | (key, t) :: rest =>
    match key, t.datum? depth, entries? depth rest with
    | some k, some d, some entries => some ((k, d) :: entries)
    | _, _, _ => none

end

/-- The value that a text holds. -/
def datum? (text : String) : Option Datum :=
  ((tree? text).bind (Tree.datum? maxDepth)).map Datum.canonical

end AccessPolicy.Json
