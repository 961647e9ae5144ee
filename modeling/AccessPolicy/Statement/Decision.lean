import AccessPolicy.Condition.Registry
import AccessPolicy.Pattern.Compiled
import AccessPolicy.Pattern.Placeholder
import AccessPolicy.Statement.Basic

/-!
# Deciding requests

A statement matches a request when one of its action patterns accepts the action, one of its resource patterns
accepts the resource, and its conditions hold. Patterns are filled from the context of the request first.
Conditions are judged only if the request brings both a context and a registry.

Where compiled patterns come from is left open: `decideBy` asks a *supply* for each pattern it needs and passes the
state of the supply on, also past a refusal. `decide` compiles every pattern anew.

Contents:
* `Request`, `Statement.Fault`;
* `Supply`, `Supply.fresh`, `anyAccepts`;
* `Conditions.hold`;
* `Statement.decideBy`, `Statement.decide`, `Statement.checkNames`.
-/

namespace AccessPolicy

/-- What is asked of a statement. -/
structure Request where
  action : String
  resource : String
  context : Option Datum
  registry : Option Registry

/-- Why a request cannot be decided. -/
inductive Statement.Fault where
  /-- A pattern cannot be compiled. -/
  | pattern (f : Pattern.Fault)
  /-- A condition names a predicate that the registry does not have. -/
  | missingPredicate (name : String)
  deriving DecidableEq, Repr

/-- The text that reports a fault. -/
def Statement.Fault.message : Statement.Fault → String
  | .pattern f => f.message
  | .missingPredicate name => s!"No condition resolver registered under '{name}'"

/-! ## Patterns -/

/-- A source of compiled patterns, with a state. -/
abbrev Supply (σ : Type) := (pattern : String) → σ → Except Pattern.Fault Pattern × σ

/-- The supply that compiles anew each time. -/
def Supply.fresh : Supply Unit := fun pattern s => (Pattern.compile pattern, s)

variable {σ : Type}

/-- Whether some pattern, filled from the context, accepts the candidate. Patterns are tried in order up to the
    first that accepts or is refused. -/
def anyAccepts (supply : Supply σ) (context : Option Datum) (candidate : String) :
    List String → σ → Except Pattern.Fault Bool × σ
  | [], s => (.ok false, s)
  | pattern :: rest, s =>
    match supply (fill context pattern) s with
    | (.error f, s) => (.error f, s)
    | (.ok p, s) => if p.accepts candidate then (.ok true, s) else anyAccepts supply context candidate rest s

/-! ## Conditions -/

namespace Conditions

/-- Whether every expectation of a block is met. -/
def blockHolds (context : Datum) (predicate : Predicate) (block : Keyed Datum) : Bool :=
  block.entries.all fun e => predicate (context.at? e.1) e.2

/-- Whether the expectations of all blocks are met. Blocks are judged in the order of their names up to the first
    that is not met or whose predicate is missing; empty blocks are passed over. -/
def blocksHold (context : Datum) (registry : Registry) :
    List (String × Keyed Datum) → Except Statement.Fault Bool
  | [] => .ok true
  | (name, block) :: rest =>
    if block.isEmpty then blocksHold context registry rest
    else
      match registry.get? name with
      | none => .error (.missingPredicate name)
      | some predicate =>
        if blockHolds context predicate block then blocksHold context registry rest else .ok false

/-- Whether conditions, if there are any, are met in a context under a registry, if both are given. -/
def hold (conditions : Option Conditions) (context : Option Datum) (registry : Option Registry) :
    Except Statement.Fault Bool :=
  match conditions, context, registry with
  | some c, some d, some r => blocksHold d r c.entries
  | _, _, _ => .ok true

end Conditions

/-! ## Statements -/

namespace Statement

/-- Whether the statement matches a request, with compiled patterns from a supply. -/
def decideBy (supply : Supply σ) (s : Statement) (r : Request) (state : σ) : Except Fault Bool × σ :=
  match anyAccepts supply r.context r.action s.actions state with
  | (.error f, state) => (.error (.pattern f), state)
  | (.ok false, state) => (.ok false, state)
  | (.ok true, state) =>
    match anyAccepts supply r.context r.resource s.resources state with
    | (.error f, state) => (.error (.pattern f), state)
    | (.ok false, state) => (.ok false, state)
    | (.ok true, state) => (Conditions.hold s.conditions r.context r.registry, state)

/-- Whether the statement matches a request. -/
def decide (s : Statement) (r : Request) : Except Fault Bool :=
  (s.decideBy Supply.fresh r ()).1

/-- Refuses a registry that lacks a predicate named in the conditions; the first name that it lacks is reported. -/
def checkNames (s : Statement) (registry : Registry) : Except Fault Unit :=
  match s.conditions with
  | none => .ok ()
  | some c =>
    match c.keys.find? (!registry.contains ·) with
    | some name => .error (.missingPredicate name)
    | none => .ok ()

end Statement

end AccessPolicy
