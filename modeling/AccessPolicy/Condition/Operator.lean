import AccessPolicy.Calendar.Reader
import AccessPolicy.Datum.Basic
import AccessPolicy.Decimal.Literal
import AccessPolicy.Pattern.Compiled

/-!
# Predicates and the built-in operators

A predicate says whether what was found in a context meets what a condition expects; what was found may be nothing.
The built-in operators are predicates on texts, numbers, dates and truth values. They refuse what is of the wrong
kind and what was not found. A list of expected values means any of them, except that a text *differs* from a list
only if it equals none of its members.

Contents:
* `Predicate`;
* `Relation`, `Operator`, `Operator.name`, `Operator.ofName?`;
* `Operator.compare` — against one expected value; `Operator.holds` — against a value or a list of them.
-/

namespace AccessPolicy

/-- Whether what was found, if anything, meets what is expected. -/
abbrev Predicate := (found : Option Datum) → (expected : Datum) → Bool

/-- How one number may stand to another. -/
inductive Relation where
  | equal
  | less
  | lessOrEqual
  | greater
  | greaterOrEqual
  deriving DecidableEq, Repr

/-- How far apart two numbers may be and still count as equal: less than 2⁻⁵². -/
def tolerance : Float := Float.ofBits 0x3CB0000000000000

/-- Whether numbers stand in a relation. -/
def Relation.holds (r : Relation) (actual expected : Float) : Bool :=
  match r with
  | .equal => (expected - actual).abs < tolerance
  | .less => actual < expected
  | .lessOrEqual => actual ≤ expected
  | .greater => expected < actual
  | .greaterOrEqual => expected ≤ actual

/-- A built-in predicate. -/
inductive Operator where
  | textEquals
  | textDiffers
  /-- The expected text is a pattern, and accepts what was found. -/
  | textMatches
  | number (r : Relation)
  | earlier
  | later
  | truth
  deriving DecidableEq, Repr

namespace Operator

/-- Every operator. -/
def all : List Operator :=
  [.textEquals, .textDiffers, .textMatches, .number .equal, .number .less, .number .lessOrEqual,
    .number .greater, .number .greaterOrEqual, .earlier, .later, .truth]

/-- The name by which conditions refer to an operator. -/
def name : Operator → String
  | .textEquals => "StringEquals"
  | .textDiffers => "StringNotEquals"
  | .textMatches => "StringLike"
  | .number .equal => "NumericEquals"
  | .number .less => "NumericLessThan"
  | .number .lessOrEqual => "NumericLessThanEquals"
  | .number .greater => "NumericGreaterThan"
  | .number .greaterOrEqual => "NumericGreaterThanEquals"
  | .earlier => "DateLessThan"
  | .later => "DateGreaterThan"
  | .truth => "Bool"

/-- The operator with a name. -/
def ofName? (name : String) : Option Operator :=
  all.find? (·.name == name)

theorem ofName?_name (op : Operator) : ofName? op.name = some op := by
  cases op with
  | number r => cases r <;> decide
  | _ => decide

/-! ## One expected value -/

/-- A value as a number: a number, or a text that writes one. -/
def numberOf? : Datum → Option Float
  | .number x => some x
  | .text s => Decimal.number? (Text.trim s.toList)
  | _ => none

/-- A value as an instant: a text that writes one. -/
def instantOf? : Datum → Option Calendar.Instant
  | .text s => Calendar.Instant.ofText? s
  | _ => none

/-- Whether a value compares as asked with one expected value. A pattern that cannot be compiled accepts nothing. -/
def compare (op : Operator) (actual expected : Datum) : Bool :=
  match op with
  | .textEquals | .textDiffers =>
    match actual.asText?, expected.asText? with
    | some a, some e => a == e
    | _, _ => false
  | .textMatches =>
    match actual.asText?, expected.asText? with
    | some a, some e =>
      match Pattern.matches? e a with
      | .ok b => b
      | .error _ => false
    | _, _ => false
  | .number r =>
    match numberOf? actual, numberOf? expected with
    | some a, some e => r.holds a e
    | _, _ => false
  | .earlier =>
    match instantOf? actual, instantOf? expected with
    | some a, some e => a.before e
    | _, _ => false
  | .later =>
    match instantOf? actual, instantOf? expected with
    | some a, some e => e.before a
    | _, _ => false
  | .truth =>
    match actual.asBool?, expected.asBool? with
    | some a, some e => a == e
    | _, _ => false

/-! ## One or several -/

/-- The values of which any will do. -/
def choices : Datum → List Datum
  | .list items => items
  | d => [d]

/-- The operator as a predicate. -/
def holds (op : Operator) : Predicate := fun found expected =>
  match found with
  | none => false
  | some actual =>
    let meets := (choices expected).any (op.compare actual)
    match op with
    -- To differ from none of several is to equal none of them; a value that is no text does not differ.
    | .textDiffers => actual.asText?.isSome && !meets
    | _ => meets

end Operator

end AccessPolicy
