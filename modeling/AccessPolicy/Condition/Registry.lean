import AccessPolicy.Condition.Operator
import AccessPolicy.Keyed
import AccessPolicy.Text.Quoted

/-!
# Registries: predicates by name

Conditions name their predicates; a registry says what the names mean. It is handed over with each request, so that
the same statement can be decided under different meanings.
-/

namespace AccessPolicy

/-- Predicates by name. -/
abbrev Registry := Keyed Predicate

namespace Registry

/-- The registry of the built-in operators, each under its own name. -/
def builtins : Registry :=
  Operator.all.foldl (fun r op => r.insert op.name op.holds) Keyed.empty

/-- A registry as it is shown: its names, in order. -/
def shown (r : Registry) : String :=
  "ConditionResolvers \x7b names: [" ++ String.intercalate ", " (r.keys.map Text.quoted) ++ "] \x7d"

end Registry

namespace Predicate

/-- What was found equals what is expected. -/
def equals : Predicate := fun found expected =>
  match found with
  | some d => d == expected
  | none => false

/-- Nothing was found. -/
def absent : Predicate := fun found _ => found.isNone

/-- Something was found. -/
def present : Predicate := fun found _ => found.isSome

/-- Met by anything. -/
def always : Predicate := fun _ _ => true

/-- Met by nothing. -/
def never : Predicate := fun _ _ => false

end Predicate

end AccessPolicy
