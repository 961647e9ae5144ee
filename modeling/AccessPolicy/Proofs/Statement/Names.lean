import AccessPolicy.Proofs.Statement.Outcome

/-!
# Names checked ahead

The names in the conditions of a statement can be looked up in a registry before any request is made
(`Statement.checkNames`). A decision looks them up again, but only those it comes to: not before some pattern of
each list accepts, not behind an expectation that is not met, and not the name of a block without expectations.

The two still agree, for they go through the names in the same order. Ahead, the first name that the registry lacks is
reported (`Statement.checkNames_eq_error_iff`). A decision that stops for want of a predicate has met all blocks before
the one it stops at; if none of these is empty, their names are known, so that it stops at the same name. And it can end
in a match only once every block is met, and then no name is unknown.

Contents:
* `Statement.NamesKnown`, `Statement.FirstUnknown` — what is checked ahead, and `Statement.checkNames_eq_ok_iff`,
  `Statement.checkNames_eq_error_iff`, which say so;
* `Statement.NoEmptyBlock`, and what a decision has found of the names, `Statement.PredicateMissing.firstUnknown`,
  `Statement.ConditionsMet.namesKnown`;
* **`Statement.checkNames_agrees`**.
-/

namespace AccessPolicy

/-- Where there is an expectation to be met, its predicate is in the registry. -/
theorem Met.contains {context : Datum} {registry : Registry} {block : String × Keyed Datum}
    (h : Met context registry block) (hentries : block.2.entries ≠ []) : registry.contains block.1 = true := by
  obtain ⟨e, he⟩ := List.exists_mem_of_ne_nil _ hentries
  obtain ⟨predicate, hget, -⟩ := h e he
  exact Keyed.contains_iff.mpr ⟨predicate, hget⟩

namespace Statement

variable {s : Statement} {g : Registry}

/-! ## What is checked ahead -/

/-- Every name in the conditions is in the registry. -/
def NamesKnown (s : Statement) (g : Registry) : Prop :=
  ∀ c, s.conditions = some c → ∀ name ∈ c.keys, g.contains name = true

/-- This name is the first in the conditions that the registry lacks. -/
def FirstUnknown (s : Statement) (g : Registry) (name : String) : Prop :=
  ∃ c, s.conditions = some c ∧ name ∈ c.keys ∧ g.contains name = false ∧
    ∀ earlier ∈ c.keys, earlier < name → g.contains earlier = true

theorem checkNames_of_conditions {c : Conditions} (hc : s.conditions = some c) :
    s.checkNames g =
      match c.keys.find? (!g.contains ·) with
      | some name => .error (.missingPredicate name)
      | none => .ok () := by
  obtain ⟨effect, actions, resources, conditions, hactions, hresources⟩ := s
  obtain rfl : conditions = some c := hc
  rfl

/-- **A registry passes** if it has every name. -/
theorem checkNames_eq_ok_iff : s.checkNames g = .ok () ↔ s.NamesKnown g := by
  cases hc : s.conditions with
  | none => simp [checkNames, NamesKnown, hc]
  | some c =>
      have hnone : c.keys.find? (!g.contains ·) = none ↔ s.NamesKnown g := by
        simp [List.find?_eq_none, NamesKnown, hc]
      rw [checkNames_of_conditions hc, ← hnone]
      cases c.keys.find? (!g.contains ·) with
      | none => simp
      | some name => simp

/-- **A registry is refused** for the first name that it lacks, and for no other reason. -/
theorem checkNames_eq_error_iff {f : Fault} :
    s.checkNames g = .error f ↔ ∃ name, f = .missingPredicate name ∧ s.FirstUnknown g name := by
  cases hc : s.conditions with
  | none => simp [checkNames, FirstUnknown, hc]
  | some c =>
      -- Names increase, so the first that is found is the smallest that the registry lacks.
      have hfound (name : String) : c.keys.find? (!g.contains ·) = some name ↔ s.FirstUnknown g name := by
        rw [Keyed.find?_keys_eq_some_iff]
        simp [FirstUnknown, hc]
      rw [checkNames_of_conditions hc]
      simp only [← hfound]
      cases c.keys.find? (!g.contains ·) with
      | none => simp
      | some name => simp [eq_comm]

/-! ## What a decision has found of the names -/

/-- Every block of the conditions has an expectation. -/
def NoEmptyBlock (s : Statement) : Prop :=
  ∀ c, s.conditions = some c → ∀ block ∈ c.entries, block.2.entries ≠ []

/-- Where every name is known, no decision stops for want of a predicate. -/
theorem PredicateMissing.not_namesKnown {r : Request} {name : String} (h : s.PredicateMissing r name)
    (hg : r.registry = some g) : ¬ s.NamesKnown g := by
  obtain ⟨c, d, g', hforce, block, hmem, rfl, -, hget, -⟩ := h
  obtain rfl : g' = g := Option.some.inj (hforce.registry_eq.symm.trans hg)
  intro hknown
  obtain ⟨predicate, hfound⟩ := Keyed.contains_iff.mp (hknown c hforce.conditions_eq block.1 (List.mem_map_of_mem hmem))
  rw [hget] at hfound
  exact absurd hfound.symm (Option.some_ne_none predicate)

/-- A decision stops for want of a predicate at the first name that is unknown. -/
theorem PredicateMissing.firstUnknown (hfull : s.NoEmptyBlock) {r : Request} {name : String}
    (h : s.PredicateMissing r name) (hg : r.registry = some g) : s.FirstUnknown g name := by
  obtain ⟨c, d, g', hforce, block, hmem, rfl, -, hget, hearlier⟩ := h
  obtain rfl : g' = g := Option.some.inj (hforce.registry_eq.symm.trans hg)
  have hunknown : g'.contains block.1 = false := by rw [Keyed.contains, hget, Option.isSome_none]
  refine ⟨c, hforce.conditions_eq, List.mem_map_of_mem hmem, hunknown, ?_⟩
  intro earlier hkey hlt
  obtain ⟨before, hbefore, rfl⟩ := List.mem_map.mp hkey
  exact (hearlier before hbefore hlt).contains (hfull c hforce.conditions_eq before hbefore)

/-- Where all conditions are met, no name is unknown. -/
theorem ConditionsMet.namesKnown (hfull : s.NoEmptyBlock) {r : Request} {d : Datum} (h : s.ConditionsMet r)
    (hd : r.context = some d) (hg : r.registry = some g) : s.NamesKnown g := by
  intro c hc name hkey
  obtain ⟨block, hmem, rfl⟩ := List.mem_map.mp hkey
  exact (h c d g ⟨hc, hd, hg⟩ block hmem).contains (hfull c hc block hmem)

/-! ## Agreement -/

/-- **Checking names ahead agrees with deciding.** Let every block of a statement have an expectation. A registry that
    passes never leaves a decision without a predicate. With a registry that is refused, no decision ends in a match, and
    if one stops for want of a predicate, then of the one that was reported. -/
theorem checkNames_agrees (hfull : s.NoEmptyBlock) (g : Registry) (action resource : String) (d : Datum) :
    (s.checkNames g = .ok () →
        ∀ name, s.decide ⟨action, resource, some d, some g⟩ ≠ .error (.missingPredicate name)) ∧
      ∀ name, s.checkNames g = .error (.missingPredicate name) →
        s.decide ⟨action, resource, some d, some g⟩ ≠ .ok true ∧
          ∀ missing, s.decide ⟨action, resource, some d, some g⟩ = .error (.missingPredicate missing) →
            missing = name := by
  constructor
  · intro hpasses name hdecide
    obtain ⟨-, -, hmissing⟩ := justified_of_decide hdecide
    exact hmissing.not_namesKnown rfl (checkNames_eq_ok_iff.mp hpasses)
  · intro name hrefused
    constructor
    · intro hdecide
      obtain ⟨-, -, hmet⟩ := justified_of_decide hdecide
      have hpasses : s.checkNames g = .ok () := checkNames_eq_ok_iff.mpr (hmet.namesKnown hfull rfl rfl)
      rw [hpasses] at hrefused
      exact absurd hrefused (by simp)
    · intro missing hdecide
      obtain ⟨-, -, hmissing⟩ := justified_of_decide hdecide
      have hreported : s.checkNames g = .error (.missingPredicate missing) :=
        checkNames_eq_error_iff.mpr ⟨missing, rfl, hmissing.firstUnknown hfull rfl⟩
      rw [hreported] at hrefused
      exact Fault.missingPredicate.inj (Except.error.inj hrefused)

/-- A statement whose conditions name two predicates. -/
def finalPages : Statement where
  effect := .allow
  actions := ["open"]
  resources := ["pages/*", "drafts/*"]
  conditions := some (Keyed.ofList
    [("matches", Keyed.ofList [("user.role", .text "editor")]),
      ("approved", Keyed.ofList [("page.status", .text "final")])])
  actions_ne_nil := by decide
  resources_ne_nil := by decide

/-- An editor, and a page that is final. -/
def editorOfFinalPage : Datum :=
  .record [("page", .record [("status", .text "final")]), ("user", .record [("role", .text "editor")])]

/-- A registry of both predicates. -/
def bothPredicates : Registry :=
  Keyed.ofList [("approved", Predicate.equals), ("matches", Predicate.equals)]

/-- With both predicates the registry passes; of two that are missing, the one whose name is smaller is reported. -/
theorem checkNames_agrees_finalPages :
    (finalPages.checkNames bothPredicates = .ok () ∧
        ∀ name, finalPages.decide ⟨"open", "pages/start", some editorOfFinalPage, some bothPredicates⟩ ≠
          .error (.missingPredicate name)) ∧
      finalPages.checkNames Keyed.empty = .error (.missingPredicate "approved") ∧
        finalPages.decide ⟨"open", "pages/start", some editorOfFinalPage, some Keyed.empty⟩ ≠ .ok true ∧
          ∀ missing, finalPages.decide ⟨"open", "pages/start", some editorOfFinalPage, some Keyed.empty⟩ =
            .error (.missingPredicate missing) → missing = "approved" := by
  have hfull : finalPages.NoEmptyBlock := by
    intro c hc
    obtain rfl := Option.some.inj hc
    decide
  have hpasses : finalPages.checkNames bothPredicates = .ok () := rfl
  have hrefused : finalPages.checkNames Keyed.empty = .error (.missingPredicate "approved") := rfl
  have hcomplete := (checkNames_agrees hfull bothPredicates "open" "pages/start" editorOfFinalPage).1 hpasses
  have hlacking := (checkNames_agrees hfull Keyed.empty "open" "pages/start" editorOfFinalPage).2 "approved" hrefused
  exact ⟨⟨hpasses, hcomplete⟩, hrefused, hlacking⟩

/-- The name of a block without expectations is reported ahead, but no decision looks it up. -/
example :
    let s := { finalPages with conditions := some (Keyed.ofList [("unused", Keyed.empty)]) }
    s.checkNames Keyed.empty = .error (.missingPredicate "unused") ∧
      s.decide ⟨"open", "pages/start", some editorOfFinalPage, some Keyed.empty⟩ = .ok true :=
  ⟨rfl, rfl⟩

end Statement

end AccessPolicy
