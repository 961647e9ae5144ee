import AccessPolicy.Decimal.Numeral
import AccessPolicy.Keyed

/-!
# Data: the values of contexts and conditions

What a request context holds and what a condition expects are values of one type. That nothing was found is not a
value: operations that may find nothing answer with an option.

A record is a list of entries. As read from a document it may repeat keys; `Datum.canonical` puts the keys in
increasing order and keeps the last of several, and `Datum.Canonical` says that a value is of this form.

Contents:
* `Datum`, its equality, its views `asText?`, `asNumber?`, `asBool?`, `items?`;
* `Datum.canonical`, `Datum.Canonical`;
* `Datum.get?` — one step into a value.
-/

namespace AccessPolicy

/-- A value. -/
inductive Datum where
  | null
  | bool (b : Bool)
  | number (x : Float)
  | text (s : String)
  | list (items : List Datum)
  | record (entries : List (String × Datum))
  deriving Inhabited

namespace Datum

/-! ## Equality

Numbers are compared as numbers: zero equals minus zero, and what is not a number equals nothing. -/

mutual

/-- Whether two values are equal. -/
def equal : Datum → Datum → Bool
  | .null, .null => true
  | .bool a, .bool b => a == b
  | .number a, .number b => a == b
  | .text a, .text b => a == b
  | .list a, .list b => equalLists a b
  | .record a, .record b => equalEntries a b
  | _, _ => false

/-- Whether two lists of values are equal, item by item. -/
def equalLists : List Datum → List Datum → Bool
  | [], [] => true
  | a :: as, b :: bs => equal a b && equalLists as bs
  | _, _ => false

/-- Whether two lists of entries are equal, key by key and value by value. -/
def equalEntries : List (String × Datum) → List (String × Datum) → Bool
  | [], [] => true
  | (k, a) :: as, (l, b) :: bs => k == l && equal a b && equalEntries as bs
  | _, _ => false

end

instance : BEq Datum := ⟨equal⟩

/-! ## Views -/

/-- The text, if the value is one. -/
def asText? : Datum → Option String
  | .text s => some s
  | _ => none

/-- The number, if the value is one. -/
def asNumber? : Datum → Option Float
  | .number x => some x
  | _ => none

/-- The truth value, if the value is one. -/
def asBool? : Datum → Option Bool
  | .bool b => some b
  | _ => none

/-- The items, if the value is a list. -/
def items? : Datum → Option (List Datum)
  | .list items => some items
  | _ => none

/-! ## Key order -/

mutual

/-- The same value with the keys of every record in increasing order; of several entries with one key the last is
    kept. -/
def canonical : Datum → Datum
  | .list items => .list (canonicalItems items)
  | .record entries => .record (sortEntries (canonicalEntries entries))
  | d => d

/-- `canonical` of each item. -/
def canonicalItems : List Datum → List Datum
  | [] => []
  | d :: ds => canonical d :: canonicalItems ds

/-- `canonical` of the value of each entry. -/
def canonicalEntries : List (String × Datum) → List (String × Datum)
  | [] => []
  | (k, d) :: rest => (k, canonical d) :: canonicalEntries rest

end

/-- Every record in the value has its keys in increasing order. -/
inductive Canonical : Datum → Prop where
  | null : Canonical .null
  | bool (b : Bool) : Canonical (.bool b)
  | number (x : Float) : Canonical (.number x)
  | text (s : String) : Canonical (.text s)
  | list {items : List Datum} : (∀ d ∈ items, Canonical d) → Canonical (.list items)
  | record {entries : List (String × Datum)} :
      Increasing entries → (∀ e ∈ entries, Canonical e.2) → Canonical (.record entries)

/-! ## One step into a value -/

/-- The position that a text gives: digits, with or without a plus sign, below 2⁶⁴. -/
def position? (key : String) : Option Nat :=
  let unsigned :=
    match key.toList with
    | '+' :: rest => rest
    | cs => cs
  match Decimal.takeDigits unsigned with
  | (d :: ds, []) =>
    -- Leading zeros are of no account, so the bound is on the number and not on its digits.
    let n := Decimal.ofDigits (d :: ds)
    if n ≤ 0xFFFFFFFFFFFFFFFF then some n else none
  | _ => none

/-- The value under a key of a record, or at a position of a list. -/
def get? (d : Datum) (key : String) : Option Datum :=
  match d with
  | .record entries => lookup? key entries
  | .list items => (position? key).bind (items[·]?)
  | _ => none

end Datum

end AccessPolicy
