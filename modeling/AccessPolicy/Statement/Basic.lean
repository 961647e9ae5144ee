import AccessPolicy.Datum.Basic

/-!
# Statements

A statement allows or denies some actions on some resources, perhaps under conditions. Actions and resources are
given as patterns, of which there is at least one of each. A statement is made from a `Declaration`, in which more
may be left open: the effect, and whether there is one pattern or a list of them.

Contents:
* `Effect`, `Conditions`, `Statement`, its equality;
* `Patterns`, `Declaration` — what a statement is made from;
* `Statement.declare`, and its inverse on what it accepts, `Statement.declaration`.
-/

namespace AccessPolicy

/-- What a statement does with the requests it matches. -/
inductive Effect where
  | allow
  | deny
  deriving DecidableEq, Repr

/-- The name of an effect. -/
def Effect.name : Effect → String
  | .allow => "allow"
  | .deny => "deny"

/-- The effect with a name, in lower case or with an initial capital. -/
def Effect.ofName? : String → Option Effect
  | "allow" | "Allow" => some .allow
  | "deny" | "Deny" => some .deny
  | _ => none

/-- What is expected at each path, by the name of the predicate that is to judge it. -/
abbrev Conditions := Keyed (Keyed Datum)

namespace Conditions

/-- Adds one expectation to the block of a predicate. -/
def expect (c : Conditions) (predicate path : String) (expected : Datum) : Conditions :=
  c.insert predicate (((c.get? predicate).getD Keyed.empty).insert path expected)

/-- The conditions as a value. -/
def datum (c : Conditions) : Datum :=
  .record (c.entries.map fun block => (block.1, .record block.2.entries))

/-- Whether the same is expected at the same paths by the same predicates. -/
def equal (a b : Conditions) : Bool :=
  a.datum == b.datum

end Conditions

/-! ## Statements -/

/-- A statement. -/
structure Statement where
  effect : Effect
  actions : List String
  resources : List String
  conditions : Option Conditions
  actions_ne_nil : actions ≠ []
  resources_ne_nil : resources ≠ []

/-- Whether optional conditions are equal; none differ from an empty table of them. -/
def Conditions.equal? : Option Conditions → Option Conditions → Bool
  | none, none => true
  | some a, some b => a.equal b
  | _, _ => false

namespace Statement

/-- Whether two statements are equal. -/
def equal (s t : Statement) : Bool :=
  s.effect == t.effect && s.actions == t.actions && s.resources == t.resources &&
    Conditions.equal? s.conditions t.conditions

instance : BEq Statement := ⟨equal⟩

/-- Whether the statement allows. -/
def isAllow (s : Statement) : Bool :=
  s.effect == .allow

end Statement

/-! ## Declarations -/

/-- One pattern, or a list of them. -/
inductive Patterns where
  | one (pattern : String)
  | many (patterns : List String)
  deriving DecidableEq, Repr

/-- The patterns in order. -/
def Patterns.toList : Patterns → List String
  | .one pattern => [pattern]
  | .many patterns => patterns

/-- What a statement is made from. -/
structure Declaration where
  effect : Option Effect
  action : Patterns
  resource : Patterns
  condition : Option Conditions

/-- The declaration of two patterns, everything else left open. -/
def Declaration.of (action resource : Patterns) : Declaration :=
  ⟨none, action, resource, none⟩

/-- The declaration with an effect. -/
def Declaration.withEffect (d : Declaration) (effect : Effect) : Declaration :=
  { d with effect := some effect }

/-- The declaration with one more expectation. -/
def Declaration.withCondition (d : Declaration) (predicate path : String) (expected : Datum) : Declaration :=
  { d with condition := some ((d.condition.getD Keyed.empty).expect predicate path expected) }

/-- Why a declaration makes no statement. -/
inductive Declaration.Defect where
  | noActions
  | noResources
  deriving DecidableEq, Repr

/-- The text that reports a defect. -/
def Declaration.Defect.message : Declaration.Defect → String
  | .noActions => "Invalid statement: statement has no actions"
  | .noResources => "Invalid statement: statement has no resources"

namespace Statement

/-- Makes a statement. The effect is to allow unless said otherwise; an empty list of actions, or else of
    resources, is refused. -/
def declare (d : Declaration) : Except Declaration.Defect Statement :=
  if actions : d.action.toList = [] then .error .noActions
  else if resources : d.resource.toList = [] then .error .noResources
  else .ok ⟨d.effect.getD .allow, d.action.toList, d.resource.toList, d.condition, actions, resources⟩

/-- A statement is declared if it has what the declaration says, and an effect where nothing is said of that. -/
theorem declare_eq_ok_iff {d : Declaration} {s : Statement} :
    declare d = .ok s ↔ s.effect = d.effect.getD .allow ∧ s.actions = d.action.toList ∧
      s.resources = d.resource.toList ∧ s.conditions = d.condition := by
  obtain ⟨effect, actions, resources, conditions, hactions, hresources⟩ := s
  unfold declare
  constructor
  · intro h
    split at h
    · cases h
    · split at h
      · cases h
      · cases h
        exact ⟨rfl, rfl, rfl, rfl⟩
  · rintro ⟨rfl, rfl, rfl, rfl⟩
    rw [dif_neg hactions, dif_neg hresources]

/-- The declaration that says everything a statement says. -/
def declaration (s : Statement) : Declaration :=
  ⟨some s.effect, .many s.actions, .many s.resources, s.conditions⟩

/-- A statement is what its declaration declares. -/
theorem declare_declaration (s : Statement) : declare s.declaration = .ok s := by
  simp [declare, declaration, Patterns.toList, s.actions_ne_nil, s.resources_ne_nil]

end Statement

end AccessPolicy
