import AccessPolicy.Proofs.Placeholder.Search
import AccessPolicy.Proofs.Statement.Dependence
import AccessPolicy.Proofs.Text.Tidy

/-!
# Patterns without placeholders

Filling a pattern in which no placeholder is read still tidies it. It cuts blanks off the ends, which compiling does
anyway, and reduces runs of blanks, which compiling does not. A pattern is *settled* if it has neither placeholders nor
such runs: it is compiled to the same, or refused for the same reason, with a context and without one
(`Settled.compile_fill`). A statement whose patterns are settled takes nothing from a context but what its conditions
are judged by, and without a registry none are judged (`Statement.decide_eq_of_settled`).

Contents:
* `Settled`, `Settled.compile_fill`;
* **`Statement.decide_eq_of_settled`**.
-/

namespace AccessPolicy

/-! ## Settled patterns -/

/-- Filling leaves the pattern as it is, save for blanks at its ends: it has no placeholder, and within it no two blanks
    stand side by side. -/
structure Settled (pattern : String) : Prop where
  noPlaceholder : Piece.NoPlaceholder pattern.toList
  noBlankPair : Text.NoBlankPair (Text.trim pattern.toList)

instance (pattern : String) : Decidable (Settled pattern) :=
  decidable_of_iff (Piece.NoPlaceholder pattern.toList ∧ Text.NoBlankPair (Text.trim pattern.toList))
    ⟨fun ⟨hplaceholder, hpair⟩ => ⟨hplaceholder, hpair⟩, fun ⟨hplaceholder, hpair⟩ => ⟨hplaceholder, hpair⟩⟩

namespace Settled

variable {pattern : String}

/-- From any context, a settled pattern is filled by trimming it. -/
theorem fill_eq (h : Settled pattern) (d : Datum) :
    fill (some d) pattern = String.ofList (Text.trim pattern.toList) := by
  rw [fill, Piece.read_eq_map_char_iff.mpr h.noPlaceholder, Piece.flatMap_fill_char,
    Text.tidy_of_noBlankPair h.noBlankPair]

/-- **A context makes no difference to a settled pattern** when it is compiled. -/
theorem compile_fill (h : Settled pattern) (context : Option Datum) :
    Pattern.compile (fill context pattern) = Pattern.compile pattern := by
  cases context with
  | none => rfl
  | some d =>
      have htrim : Text.trim (fill (some d) pattern).toList = Text.trim pattern.toList := by
        rw [h.fill_eq, String.toList_ofList, Text.trim_trim]
      rw [Pattern.compile, Pattern.compile, htrim]

end Settled

/-! ## Decisions without a registry -/

/-- Without a registry, conditions are not judged. -/
theorem Conditions.hold_without_registry (conditions : Option Conditions) (context : Option Datum) :
    hold conditions context none = .ok true := by
  cases conditions <;> cases context <;> rfl

namespace Statement

/-- **A context that has nothing to say.** If every pattern of a statement is settled, a request without a registry is
    decided alike with a context and without one, whether it is a match, a mismatch or refused. -/
theorem decide_eq_of_settled {s : Statement} (h : ∀ pattern ∈ s.actions ++ s.resources, Settled pattern)
    (action resource : String) (d : Datum) :
    s.decide ⟨action, resource, some d, none⟩ = s.decide ⟨action, resource, none, none⟩ := by
  -- What is compiled is the same with the context and without, so the searches are.
  have hsupply : ∀ pattern ∈ s.actions ++ s.resources,
      Supply.fresh (fill (some d) pattern) = Supply.fresh (fill none pattern) := by
    intro pattern hmem
    funext state
    rw [Supply.fresh, Supply.fresh, (h pattern hmem).compile_fill, (h pattern hmem).compile_fill]
  obtain ⟨hactions, hresources⟩ := List.forall_mem_append.mp hsupply
  simp only [decide, decideBy, anyAccepts_eq_of_supply_eq hactions, anyAccepts_eq_of_supply_eq hresources,
    Conditions.hold_without_registry]

/-- Openings that are not closed on their line, a choice, something quoted, and blanks of several kinds at the ends. -/
def yearPlans : Statement where
  effect := .allow
  actions := [" \x7bread,list\x7d\u00a0"]
  resources := ["costs/\\\x7b$ \x7b5,7\x7d", "plans/$\x7byear\n\x7d/*\u2003\t", "$\x7b"]
  conditions := some (Keyed.ofList [("equals", Keyed.ofList [("user.role", .text "editor")])])
  actions_ne_nil := by decide
  resources_ne_nil := by decide

/-- The choice is spelled out though a placeholder could stand there, and the year is not looked up. -/
theorem decide_eq_of_settled_yearPlans :
    (∀ pattern ∈ yearPlans.actions ++ yearPlans.resources, Settled pattern) ∧
      yearPlans.decide ⟨"list", "plans/$year\n/May", some (.record [("year", .text "*")]), none⟩ =
        yearPlans.decide ⟨"list", "plans/$year\n/May", none, none⟩ ∧
      yearPlans.decide ⟨"list", "plans/$year\n/May", none, none⟩ = .ok true := by
  have hsettled : ∀ pattern ∈ yearPlans.actions ++ yearPlans.resources, Settled pattern := by decide
  exact ⟨hsettled, decide_eq_of_settled hsettled _ _ _, rfl⟩

/-- A run of blanks is reduced if there is a context, though nothing is taken from it. -/
example :
    Pattern.matches? (fill (some .null) "year  plans") "year plans" = .ok true ∧
      Pattern.matches? (fill none "year  plans") "year plans" = .ok false :=
  ⟨rfl, rfl⟩

end Statement

end AccessPolicy
