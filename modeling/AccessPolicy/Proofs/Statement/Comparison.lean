import AccessPolicy.Proofs.Statement.Outcome
import Mathlib.Data.List.Infix

/-!
# One request, two statements

What becomes of a decision when a statement is edited? Two kinds of edits are looked at here.

*Reordering.* The patterns of a list are tried in turn up to the first that accepts or is refused, so their order decides
which of them are compiled at all, and a pattern that cannot be compiled may come to stand before one that accepts. That
is all the order can do. Whether a list has a pattern that accepts does not depend on it, so two orders that both lead to
an answer lead to the same one, and without a refusal there is nothing left on which the order could bear
(`Statement.Reordered.decide_agrees`).

*Relaxing.* Patterns that are put behind those of a list are not reached when one of these accepts, whatever they are; and
where all expectations are met, so are any that remain when some of them are dropped, in whatever blocks they stand. A
match therefore stays a match when patterns are added at the end and expectations are dropped; read backwards, one more
expectation opens nothing (`Statement.decide_relaxed`).

Contents:
* `FirstAccepts.not_noneAccepts`, `FirstAccepts.append`, `anyAccepts_eq_of_perm` — one search, two lists;
* `Statement.Reordered`, **`Statement.Reordered.decide_agrees`**;
* `Conditions.expected?`, `Statement.conditionsMet_iff` — conditions by what they expect;
* `Statement.RelaxedTo`, **`Statement.decide_relaxed`**.
-/

namespace AccessPolicy

/-! ## One search, two lists -/

section Search

variable {context : Option Datum} {candidate : String} {patterns others : List String}

/-- A pattern that accepts does so in every list that has it. -/
theorem FirstAccepts.not_noneAccepts (h : FirstAccepts context candidate patterns) (hsubset : patterns ⊆ others) :
    ¬ NoneAccepts context candidate others := by
  obtain ⟨pattern, hmem, haccepts⟩ := h.exists_mem
  intro hnone
  have hrejects := hnone pattern (hsubset hmem)
  rw [haccepts] at hrejects
  exact absurd (Except.ok.inj hrejects) (by decide)

/-- What stands behind a pattern that accepts is not reached. -/
theorem FirstAccepts.append (h : FirstAccepts context candidate patterns) (more : List String) :
    FirstAccepts context candidate (patterns ++ more) := by
  obtain ⟨before, pattern, after, rfl, hbefore, haccepts⟩ := h
  exact ⟨before, pattern, after ++ more, by rw [List.append_assoc, List.cons_append], hbefore, haccepts⟩

/-- Two orders that both lead to an answer lead to the same one. -/
theorem Searched.eq_of_perm (hperm : patterns.Perm others) {a b : Bool} (ha : Searched context candidate patterns (.ok a))
    (hb : Searched context candidate others (.ok b)) : a = b := by
  match a, ha, b, hb with
  | true, _, true, _ => rfl
  | false, _, false, _ => rfl
  | true, haccepts, false, hnone => exact absurd hnone (haccepts.not_noneAccepts hperm.subset)
  | false, hnone, true, haccepts => exact absurd hnone (haccepts.not_noneAccepts hperm.symm.subset)

/-- Where every pattern compiles, a search leads to an answer. -/
theorem exists_searched_ok (candidate : String)
    (hcompile : ∀ pattern ∈ patterns, ∃ p, Pattern.compile (fill context pattern) = .ok p) :
    ∃ accepted, Searched context candidate patterns (.ok accepted) := by
  obtain ⟨outcome, h⟩ := exists_searched context candidate patterns
  match outcome, h with
  | .ok accepted, h => exact ⟨accepted, h⟩
  | .error f, ⟨before, pattern, after, hsplit, _, hrefused⟩ =>
      obtain ⟨p, hp⟩ := hcompile pattern (hsplit ▸ List.mem_append_right before List.mem_cons_self)
      rw [hp] at hrefused
      exact absurd hrefused (by simp)

/-- Where every pattern compiles, the order makes no difference to a search. -/
theorem anyAccepts_eq_of_perm (hperm : patterns.Perm others)
    (hcompile : ∀ pattern ∈ patterns, ∃ p, Pattern.compile (fill context pattern) = .ok p) :
    (anyAccepts Supply.fresh context candidate patterns ()).1 =
      (anyAccepts Supply.fresh context candidate others ()).1 := by
  have hcompile' : ∀ pattern ∈ others, ∃ p, Pattern.compile (fill context pattern) = .ok p :=
    fun pattern hmem => hcompile pattern (hperm.mem_iff.mpr hmem)
  obtain ⟨a, ha⟩ := exists_searched_ok candidate hcompile
  obtain ⟨b, hb⟩ := exists_searched_ok candidate hcompile'
  rw [anyAccepts_of_searched ha, anyAccepts_of_searched hb, ha.eq_of_perm hperm hb]

end Search

namespace Statement

variable {s t : Statement}

/-! ## Reordering -/

/-- The statements differ at most in the order of their patterns. -/
structure Reordered (s t : Statement) : Prop where
  effect_eq : s.effect = t.effect
  actions_perm : s.actions.Perm t.actions
  resources_perm : s.resources.Perm t.resources
  conditions_eq : s.conditions = t.conditions

theorem Reordered.symm (h : s.Reordered t) : t.Reordered s :=
  ⟨h.effect_eq.symm, h.actions_perm.symm, h.resources_perm.symm, h.conditions_eq.symm⟩

/-- No order of the patterns turns a match into a mismatch. The cases are the three ways to end in a mismatch. -/
theorem Reordered.decide_ne_ok_false (h : s.Reordered t) {r : Request} (hs : s.decide r = .ok true) :
    t.decide r ≠ .ok false := by
  obtain ⟨haction, hresource, hmet⟩ := justified_of_decide hs
  intro ht
  rcases justified_of_decide ht with hnone | ⟨-, hnone | ⟨-, hunmet⟩⟩
  · exact haction.not_noneAccepts h.actions_perm.subset hnone
  · exact hresource.not_noneAccepts h.resources_perm.subset hnone
  · have hholds : Conditions.hold s.conditions r.context r.registry = .ok true := hold_eq_iff.mpr hmet
    have hfails : Conditions.hold t.conditions r.context r.registry = .ok false := hold_eq_iff.mpr hunmet
    rw [h.conditions_eq, hfails] at hholds
    exact absurd (Except.ok.inj hholds) (by decide)

/-- **The order of patterns cannot flip a decision.** Of two statements that differ in the order of their patterns only,
    both may answer a request, and then they answer alike. If every pattern, filled from the context, compiles, their
    decisions are the same, also where a predicate is missing. -/
theorem Reordered.decide_agrees (h : s.Reordered t) (r : Request) :
    (∀ a b, s.decide r = .ok a → t.decide r = .ok b → a = b) ∧
      ((∀ pattern ∈ s.actions ++ s.resources, ∃ p, Pattern.compile (fill r.context pattern) = .ok p) →
        s.decide r = t.decide r) := by
  constructor
  · intro a b hs ht
    match a, b with
    | true, true => rfl
    | false, false => rfl
    | true, false => exact absurd ht (h.decide_ne_ok_false hs)
    | false, true => exact absurd hs (h.symm.decide_ne_ok_false ht)
  · intro hcompile
    obtain ⟨hactions, hresources⟩ := List.forall_mem_append.mp hcompile
    rw [decide_eq, decide_eq, anyAccepts_eq_of_perm h.actions_perm hactions,
      anyAccepts_eq_of_perm h.resources_perm hresources, h.conditions_eq]

/-- A pattern that spells out too much to be compiled: two choices between 65 empty parts each. -/
def tooManyParts : String :=
  let choice := '\x7b' :: (List.replicate 64 ',' ++ ['\x7d'])
  String.ofList (choice ++ choice)

/-- A statement with several patterns and a condition. -/
def sharedPages : Statement where
  effect := .allow
  actions := ["read", "list"]
  resources := ["pages/*", "shared/\x7bnews,$\x7buser.id\x7d\x7d"]
  conditions := some (Keyed.ofList [("approved", Keyed.ofList [("page.status", .text "final")])])
  actions_ne_nil := by decide
  resources_ne_nil := by decide

/-- The same statement with both lists the other way round. -/
def sharedPagesReversed : Statement :=
  { sharedPages with
    actions := ["list", "read"]
    resources := ["shared/\x7bnews,$\x7buser.id\x7d\x7d", "pages/*"]
    actions_ne_nil := by decide
    resources_ne_nil := by decide }

/-- The pages of a user, asked for without a predicate to judge them by. -/
def asksForOwnPage : Request :=
  ⟨"read", "shared/42", some (.record [("user", .record [("id", .text "42")])]), some Keyed.empty⟩

/-- Both orders end for want of the same predicate. -/
theorem Reordered.decide_agrees_sharedPages :
    sharedPages.Reordered sharedPagesReversed ∧
      (∀ a b, sharedPages.decide asksForOwnPage = .ok a → sharedPagesReversed.decide asksForOwnPage = .ok b → a = b) ∧
        sharedPages.decide asksForOwnPage = sharedPagesReversed.decide asksForOwnPage ∧
          sharedPages.decide asksForOwnPage = .error (.missingPredicate "approved") := by
  have hreordered : sharedPages.Reordered sharedPagesReversed :=
    ⟨rfl, List.Perm.swap _ _ _, List.Perm.swap _ _ _, rfl⟩
  have hcompile : ∀ pattern ∈ sharedPages.actions ++ sharedPages.resources,
      ∃ p, Pattern.compile (fill asksForOwnPage.context pattern) = .ok p := by
    intro pattern hmem
    simp only [sharedPages, List.cons_append, List.nil_append, List.mem_cons, List.not_mem_nil, or_false] at hmem
    rcases hmem with rfl | rfl | rfl | rfl
    · exact ⟨_, rfl⟩
    · exact ⟨_, rfl⟩
    · exact ⟨_, rfl⟩
    · exact ⟨_, rfl⟩
  obtain ⟨halike, hsame⟩ := hreordered.decide_agrees asksForOwnPage
  exact ⟨hreordered, halike, hsame hcompile, rfl⟩

/-- What the order does decide is whether a pattern that cannot be compiled is reached. -/
example :
    (anyAccepts Supply.fresh none "news" ["news", tooManyParts] ()).1 = .ok true ∧
      (anyAccepts Supply.fresh none "news" [tooManyParts, "news"] ()).1 = .error (.expansionTooLarge 4225 0) := by
  decide +kernel

end Statement

/-! ## Conditions by what they expect -/

namespace Conditions

/-- What is expected at a path by a predicate, if anything. -/
def expected? (c : Conditions) (predicate path : String) : Option Datum :=
  (c.get? predicate).bind (·.get? path)

/-- These are the expectations that are judged. -/
theorem expected?_eq_some_iff {c : Conditions} {predicate path : String} {expected : Datum} :
    c.expected? predicate path = some expected ↔
      ∃ block, (predicate, block) ∈ c.entries ∧ (path, expected) ∈ block.entries := by
  simp only [expected?, Option.bind_eq_some_iff, Keyed.get?_eq_some_iff]

/-- One more expectation is put beside the others, or in the place of one at the same path by the same predicate. -/
theorem expected?_expect (c : Conditions) (predicate path : String) (expected : Datum) (name place : String) :
    (c.expect predicate path expected).expected? name place =
      if predicate = name ∧ path = place then some expected else c.expected? name place := by
  rw [expected?, expected?, expect, Keyed.get?_insert]
  by_cases hname : predicate = name
  · subst hname
    rw [if_pos rfl, Option.bind_some, Keyed.get?_insert]
    by_cases hplace : path = place
    · rw [if_pos hplace, if_pos ⟨rfl, hplace⟩]
    · rw [if_neg hplace, if_neg fun h => hplace h.2]
      cases c.get? predicate with
      | none => rfl
      | some block => rfl
  · rw [if_neg hname, if_neg fun h => hname h.1]

end Conditions

namespace Statement

variable {s t : Statement}

/-- What a statement expects at a path by a predicate; without conditions, nothing. -/
def expected? (s : Statement) (predicate path : String) : Option Datum :=
  s.conditions.bind (·.expected? predicate path)

/-- Conditions are met if every expectation is, in whatever block it stands. -/
theorem conditionsMet_iff {r : Request} :
    s.ConditionsMet r ↔ ∀ d g, r.context = some d → r.registry = some g →
      ∀ predicate path expected, s.expected? predicate path = some expected →
        ∃ judge, g.get? predicate = some judge ∧ judge (d.at? path) expected = true := by
  constructor
  · intro hmet d g hd hg predicate path expected hexpected
    obtain ⟨c, hc, hin⟩ := Option.bind_eq_some_iff.mp hexpected
    obtain ⟨block, hblock, hentry⟩ := Conditions.expected?_eq_some_iff.mp hin
    exact hmet c d g ⟨hc, hd, hg⟩ (predicate, block) hblock (path, expected) hentry
  · intro hall c d g hforce block hblock e he
    refine hall d g hforce.context_eq hforce.registry_eq block.1 e.1 e.2 ?_
    rw [expected?, hforce.conditions_eq, Option.bind_some]
    exact Conditions.expected?_eq_some_iff.mpr ⟨block.2, hblock, he⟩

/-! ## Relaxing -/

/-- The second statement has the patterns of the first, perhaps with more behind them, and expects nothing that the first
    does not. -/
structure RelaxedTo (s t : Statement) : Prop where
  actions_kept : s.actions <+: t.actions
  resources_kept : s.resources <+: t.resources
  expected_subset : ∀ predicate path expected, t.expected? predicate path = some expected →
    s.expected? predicate path = some expected

/-- A match stays a match. -/
theorem RelaxedTo.decide_eq_ok_true (h : s.RelaxedTo t) {r : Request} (hs : s.decide r = .ok true) :
    t.decide r = .ok true := by
  obtain ⟨haction, hresource, hmet⟩ := justified_of_decide hs
  obtain ⟨moreActions, hactions⟩ := h.actions_kept
  obtain ⟨moreResources, hresources⟩ := h.resources_kept
  have hmet' : t.ConditionsMet r := by
    rw [conditionsMet_iff] at hmet ⊢
    intro d g hd hg predicate path expected hexpected
    exact hmet d g hd hg predicate path expected (h.expected_subset predicate path expected hexpected)
  have haction' : FirstAccepts r.context r.action t.actions := by
    rw [← hactions]
    exact haction.append moreActions
  have hresource' : FirstAccepts r.context r.resource t.resources := by
    rw [← hresources]
    exact hresource.append moreResources
  have hjustified : t.Justified r (.ok true) := ⟨haction', hresource', hmet'⟩
  exact decide_of_justified hjustified

/-- One more expectation in a declaration is one more in the statement, and all else stays. -/
theorem exists_declare_withCondition {d : Declaration} (hs : declare d = .ok s) (predicate path : String)
    (expected : Datum) :
    ∃ t, declare (d.withCondition predicate path expected) = .ok t ∧ t.actions = s.actions ∧
      t.resources = s.resources ∧ ∀ name place,
        t.expected? name place = if predicate = name ∧ path = place then some expected else s.expected? name place := by
  obtain ⟨heffect, hactions, hresources, hconditions⟩ := declare_eq_ok_iff.mp hs
  let t : Statement := { s with conditions := some ((d.condition.getD Keyed.empty).expect predicate path expected) }
  have ht : declare (d.withCondition predicate path expected) = .ok t :=
    declare_eq_ok_iff.mpr ⟨heffect, hactions, hresources, rfl⟩
  refine ⟨t, ht, rfl, rfl, fun name place => ?_⟩
  have hexpected : t.expected? name place =
      ((d.condition.getD Keyed.empty).expect predicate path expected).expected? name place := rfl
  rw [hexpected, Conditions.expected?_expect, expected?, hconditions]
  cases d.condition with
  | none => rfl
  | some c => rfl

/-- **More patterns only open, more conditions only close.** If a statement matches a request, so does every one that has
    its patterns, perhaps with more behind them, whether or not those compile, and expects nothing that it does not. In
    particular a declaration with one more expectation, where there was none, matches nothing that it did not match
    before. -/
theorem decide_relaxed :
    (∀ {s t : Statement}, s.RelaxedTo t → ∀ r, s.decide r = .ok true → t.decide r = .ok true) ∧
      ∀ {d : Declaration} {s : Statement} {predicate path : String}, declare d = .ok s →
        s.expected? predicate path = none → ∀ expected,
          ∃ t, declare (d.withCondition predicate path expected) = .ok t ∧
            ∀ r, s.decide r ≠ .ok true → t.decide r ≠ .ok true := by
  constructor
  · intro s t h r hs
    exact h.decide_eq_ok_true hs
  · intro d s predicate path hs hnone expected
    obtain ⟨t, ht, hactions, hresources, hexpected⟩ := exists_declare_withCondition hs predicate path expected
    have hrelaxed : t.RelaxedTo s := by
      refine ⟨hactions ▸ List.prefix_refl _, hresources ▸ List.prefix_refl _, ?_⟩
      intro name place value hvalue
      rw [hexpected]
      split
      · rename_i hplace
        obtain ⟨rfl, rfl⟩ := hplace
        rw [hnone] at hvalue
        exact absurd hvalue.symm (Option.some_ne_none value)
      · exact hvalue
    exact ⟨t, ht, fun r hs' ht' => hs' (hrelaxed.decide_eq_ok_true ht')⟩

/-- A declaration with two expectations in one block. -/
def ownFinalPages : Declaration :=
  ((Declaration.of (.one "view") (.one "pages/*")).withCondition "equals" "page.status" (.text "final")).withCondition
    "equals" "page.owner" (.text "42")

/-- The statement that is declared by it. -/
def ownFinalPagesDeclared : Statement where
  effect := .allow
  actions := ["view"]
  resources := ["pages/*"]
  conditions := ownFinalPages.condition
  actions_ne_nil := by decide
  resources_ne_nil := by decide

/-- One expectation is left of it, and there are a block without any and patterns that cannot be compiled. -/
def finalPagesAndMore : Statement where
  effect := .allow
  actions := ["view", tooManyParts]
  resources := ["pages/*", tooManyParts, "drafts/*"]
  conditions := some (Keyed.ofList
    [("unknown", Keyed.empty), ("equals", Keyed.ofList [("page.status", .text "final")])])
  actions_ne_nil := by decide
  resources_ne_nil := by decide

/-- A final page of the user with number 42. -/
def asksForFinalPage : Request :=
  ⟨"view", "pages/start", some (.record [("page", .record [("owner", .text "42"), ("status", .text "final")])]),
    some (Keyed.ofList [("equals", Predicate.equals)])⟩

theorem ownFinalPagesDeclared_relaxedTo : ownFinalPagesDeclared.RelaxedTo finalPagesAndMore := by
  refine ⟨⟨[tooManyParts], rfl⟩, ⟨[tooManyParts, "drafts/*"], rfl⟩, ?_⟩
  intro predicate path expected hexpected
  obtain ⟨c, hc, hin⟩ := Option.bind_eq_some_iff.mp hexpected
  obtain ⟨block, hblock, hentry⟩ := Conditions.expected?_eq_some_iff.mp hin
  obtain rfl := Option.some.inj hc
  have hblocks : (predicate, block) ∈ [("equals", Keyed.ofList [("page.status", Datum.text "final")]),
      ("unknown", Keyed.empty)] := hblock
  simp only [List.mem_cons, Prod.mk.injEq, List.not_mem_nil, or_false] at hblocks
  rcases hblocks with ⟨rfl, rfl⟩ | ⟨rfl, rfl⟩
  · obtain ⟨rfl, rfl⟩ := Prod.mk.inj (List.mem_singleton.mp hentry)
    rfl
  · exact absurd hentry List.not_mem_nil

/-- The page is still matched by the relaxed statement. A third expectation in the declaration opens nothing. -/
theorem decide_relaxed_finalPages :
    (ownFinalPagesDeclared.RelaxedTo finalPagesAndMore ∧ ownFinalPagesDeclared.decide asksForFinalPage = .ok true ∧
        finalPagesAndMore.decide asksForFinalPage = .ok true) ∧
      declare ownFinalPages = .ok ownFinalPagesDeclared ∧
        ownFinalPagesDeclared.expected? "equals" "user.role" = none ∧
          ∃ t, declare (ownFinalPages.withCondition "equals" "user.role" (.text "editor")) = .ok t ∧
            ∀ r, ownFinalPagesDeclared.decide r ≠ .ok true → t.decide r ≠ .ok true := by
  have hmatch : ownFinalPagesDeclared.decide asksForFinalPage = .ok true := rfl
  have hdeclared : declare ownFinalPages = .ok ownFinalPagesDeclared := rfl
  have hnone : ownFinalPagesDeclared.expected? "equals" "user.role" = none := rfl
  exact ⟨⟨ownFinalPagesDeclared_relaxedTo, hmatch,
      decide_relaxed.1 ownFinalPagesDeclared_relaxedTo asksForFinalPage hmatch⟩,
    hdeclared, hnone, decide_relaxed.2 hdeclared hnone (.text "editor")⟩

end Statement

end AccessPolicy
