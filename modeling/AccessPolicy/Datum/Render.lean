import AccessPolicy.Json.Writer

/-!
# The text of a value inside a pattern

What a value looks like when it is put into a pattern: texts as they are, numbers without exponent, the items of a
list between commas, records as compact JSON.
-/

namespace AccessPolicy.Datum

/-- The text of a number. Zero has no sign. -/
def renderNumber (x : Float) : String :=
  if x == 0.0 then "0" else Decimal.plainText x

mutual

/-- The text of a value. -/
def render : Datum → String
  | .null => "null"
  | .bool b => if b then "true" else "false"
  | .number x => renderNumber x
  | .text s => s
  | .list items => String.intercalate "," (renderItems items)
  | .record entries => compactJson (.record entries)

/-- The texts of the items of a list, `null` giving the empty one. -/
def renderItems : List Datum → List String
  | [] => []
  | .null :: ds => "" :: renderItems ds
  | d :: ds => render d :: renderItems ds

end

end AccessPolicy.Datum
