import AccessPolicy.Json.Tree
import AccessPolicy.Json.Writer
import AccessPolicy.Statement.Basic
import AccessPolicy.Toml.Reader

/-!
# Statements in documents

A declaration is written in a document as a record with the fields `effect`, `action`, `resource` and `condition`;
names with an initial capital are understood too. No field may be given twice, other fields are skipped. In JSON the
record may also be a list of the four values, of which the last may be left out.

Contents:
* `Field`, `Field.ofKey?`;
* `Effect.ofDatum?`, `Patterns.ofDatum?`, `Conditions.ofDatum?`, `Declaration.ofFields?`;
* `Declaration.ofJson?`, `Statement.ofJson`, `Declaration.ofToml?`, `Statement.ofToml`;
* `Declaration.datum`, `Statement.toJson` — writing.
-/

namespace AccessPolicy

/-- A field of a declaration. -/
inductive Field where
  | effect
  | action
  | resource
  | condition
  deriving DecidableEq, Repr

/-- The field under a key. -/
def Field.ofKey? : String → Option Field
  | "effect" | "Effect" => some .effect
  | "action" | "Action" => some .action
  | "resource" | "Resource" => some .resource
  | "condition" | "Condition" => some .condition
  | _ => none

/-! ## Reading values of fields -/

/-- An effect: its name, or a record of its name with an empty value, which each format writes in its own way. -/
def Effect.ofDatum? (isEmpty : Datum → Bool) : Datum → Option Effect
  | .text name => ofName? name
  | .record [(name, d)] => if isEmpty d then ofName? name else none
  | _ => none

/-- Texts, in order. -/
def textsOf? : List Datum → Option (List String)
  | [] => some []
  | .text s :: rest => (textsOf? rest).map (s :: ·)
  | _ => none

/-- One pattern, or a list of them. -/
def Patterns.ofDatum? : Datum → Option Patterns
  | .text s => some (.one s)
  | .list items => (textsOf? items).map .many
  | _ => none

/-- The blocks of conditions, in order. -/
def blocksOf? : List (String × Datum) → Option (List (String × Keyed Datum))
  | [] => some []
  | (name, .record block) :: rest =>
    (blocksOf? rest).map ((name, Keyed.ofList (block.map fun e => (e.1, e.2.canonical))) :: ·)
  | _ => none

/-- A record of records. -/
def Conditions.ofDatum? : Datum → Option Conditions
  | .record blocks => (blocksOf? blocks).map Keyed.ofList
  | _ => none

/-- A value that may be `null`, which counts as left out. -/
def orNull {α : Type} (read? : Datum → Option α) : Option Datum → Option (Option α)
  | none | some .null => some none
  | some d => (read? d).map some

/-- The value given for a field; refused when there are several. -/
def valueOf? (field : Field) (fields : List (Field × Datum)) : Option (Option Datum) :=
  match fields.filter (·.1 == field) with
  | [] => some none
  | [(_, d)] => some (some d)
  | _ => none

/-- The declaration with the given fields. -/
def Declaration.ofFields? (isEmpty : Datum → Bool) (fields : List (Field × Datum)) : Option Declaration := do
  let effect ← orNull (Effect.ofDatum? isEmpty) (← valueOf? .effect fields)
  let action ← Patterns.ofDatum? (← (← valueOf? .action fields))
  let resource ← Patterns.ofDatum? (← (← valueOf? .resource fields))
  let condition ← orNull Conditions.ofDatum? (← valueOf? .condition fields)
  return ⟨effect, action, resource, condition⟩

/-! ## JSON -/

/-- The fields of a record; what is not a field is not made a value. -/
def fieldsOf? : List (Option String × Json.Tree) → Option (List (Field × Datum))
  | [] => some []
  | (none, _) :: _ => none
  | (some key, t) :: rest =>
    match Field.ofKey? key with
    | none => fieldsOf? rest
    | some field =>
      match t.datum? (Json.maxDepth - 1), fieldsOf? rest with
      | some d, some fields => some ((field, d) :: fields)
      | _, _ => none

/-- The fields of a declaration in JSON. -/
def Declaration.fieldsOfTree? : Json.Tree → Option (List (Field × Datum))
  | .record entries => fieldsOf? entries
  | .list [effect, action, resource] =>
    (Json.items? (Json.maxDepth - 1) [effect, action, resource]).map ([.effect, .action, .resource].zip ·)
  | .list [effect, action, resource, condition] =>
    (Json.items? (Json.maxDepth - 1) [effect, action, resource, condition]).map
      ([.effect, .action, .resource, .condition].zip ·)
  | _ => none

/-- In JSON an empty value is `null`. -/
def isNull : Datum → Bool
  | .null => true
  | _ => false

/-- The declaration that a JSON text holds. -/
def Declaration.ofJson? (text : String) : Option Declaration :=
  ((Json.tree? text).bind fieldsOfTree?).bind (ofFields? isNull)

/-- Why a document makes no statement. -/
inductive Document.Fault where
  /-- It is not JSON, or not the JSON of a declaration. -/
  | json
  /-- It is not TOML, or not the TOML of a declaration. -/
  | toml
  | defect (d : Declaration.Defect)
  deriving DecidableEq, Repr

/-- The statement that a JSON text declares. -/
def Statement.ofJson (text : String) : Except Document.Fault Statement :=
  match Declaration.ofJson? text with
  | none => .error .json
  | some d => (declare d).mapError .defect

/-! ## TOML -/

/-- In TOML an empty value is a list or a table without members. -/
def isHollow : Datum → Bool
  | .list [] | .record [] => true
  | _ => false

/-- The declaration that a TOML text holds. -/
def Declaration.ofToml? (text : String) : Option Declaration := do
  let entries ← Toml.entries? text
  ofFields? isHollow (entries.filterMap fun (key, d) => (Field.ofKey? key).map (·, d))

/-- The statement that a TOML text declares. -/
def Statement.ofToml (text : String) : Except Document.Fault Statement :=
  match Declaration.ofToml? text with
  | none => .error .toml
  | some d => (declare d).mapError .defect

/-! ## Writing -/

/-- Patterns as a value. -/
def Patterns.datum : Patterns → Datum
  | .one pattern => .text pattern
  | .many patterns => .list (patterns.map .text)

/-- A declaration as a record, in the order of the fields; what is left open is left out. -/
def Declaration.datum (d : Declaration) : Datum :=
  .record
    ((match d.effect with
      | some e => [("effect", .text e.name)]
      | none => []) ++
    [("action", d.action.datum), ("resource", d.resource.datum)] ++
    (match d.condition with
      | some c => [("condition", c.datum)]
      | none => []))

/-- The declaration in JSON, on one line. -/
def Declaration.toJson (d : Declaration) : String :=
  d.datum.compactJson

/-- The statement in JSON, one item or entry to a line. -/
def Statement.toJson (s : Statement) : String :=
  s.declaration.datum.indentedJson

end AccessPolicy
