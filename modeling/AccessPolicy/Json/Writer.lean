import AccessPolicy.Datum.Basic
import AccessPolicy.Decimal.Layout
import AccessPolicy.Json.Token

/-!
# Writing JSON

A value is written as its tokens, laid out in one of two ways: `compact`, without blanks, or `indented`, with one
item or entry to a line. Entries are written in the order in which the record holds them; what is not a finite
number is written as `null`.
-/

namespace AccessPolicy

open Json (Token)

/-! ## Tokens of a value -/

mutual

/-- The tokens of a value, before those of the rest of the text. -/
def Datum.tokens (rest : List Token) : Datum → List Token
  | .null => .null :: rest
  | .bool b => .bool b :: rest
  | .number x =>
    match Decimal.jsonText? x with
    | some spelling => .number spelling :: rest
    | none => .null :: rest
  | .text s => .text (some s) :: rest
  | .list [] => .listOpen :: .listClose :: rest
  | .list (d :: ds) => .listOpen :: d.tokens (Datum.itemTokens rest ds)
  | .record [] => .recordOpen :: .recordClose :: rest
  | .record ((k, d) :: entries) =>
    .recordOpen :: .text (some k) :: .colon :: d.tokens (Datum.entryTokens rest entries)

/-- The tokens of a list from behind one of its items. -/
def Datum.itemTokens (rest : List Token) : List Datum → List Token
  | [] => .listClose :: rest
  | d :: ds => .comma :: d.tokens (Datum.itemTokens rest ds)

/-- The tokens of a record from behind one of its entries. -/
def Datum.entryTokens (rest : List Token) : List (String × Datum) → List Token
  | [] => .recordClose :: rest
  | (k, d) :: entries =>
    .comma :: .text (some k) :: .colon :: d.tokens (Datum.entryTokens rest entries)

end

/-! ## Layout -/

namespace Json

/-- The start of a line at a depth of nesting. -/
def line (depth : Nat) : List Char :=
  '\n' :: List.replicate (2 * depth) ' '

/-- Tokens one after the other. -/
def compact (ts : List Token) : List Char :=
  ts.flatMap Token.spell

/-- Tokens with each item and entry on a line of its own; what is empty stays on its line. -/
def indented : (depth : Nat) → List Token → List Char
  | _, [] => []
  | depth, .listOpen :: .listClose :: ts => '[' :: ']' :: indented depth ts
  | depth, .recordOpen :: .recordClose :: ts => '\x7b' :: '\x7d' :: indented depth ts
  | depth, .listOpen :: ts => '[' :: (line (depth + 1) ++ indented (depth + 1) ts)
  | depth, .recordOpen :: ts => '\x7b' :: (line (depth + 1) ++ indented (depth + 1) ts)
  | depth, .listClose :: ts => line (depth - 1) ++ ']' :: indented (depth - 1) ts
  | depth, .recordClose :: ts => line (depth - 1) ++ '\x7d' :: indented (depth - 1) ts
  | depth, .comma :: ts => ',' :: (line depth ++ indented depth ts)
  | depth, .colon :: ts => ':' :: ' ' :: indented depth ts
  | depth, t :: ts => t.spell ++ indented depth ts

end Json

/-- A value in JSON, without blanks. -/
def Datum.compactJson (d : Datum) : String :=
  String.ofList (Json.compact (d.tokens []))

/-- A value in JSON, one item or entry to a line. -/
def Datum.indentedJson (d : Datum) : String :=
  String.ofList (Json.indented 0 (d.tokens []))

end AccessPolicy
