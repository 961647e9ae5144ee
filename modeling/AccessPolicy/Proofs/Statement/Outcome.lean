import AccessPolicy.Proofs.Pattern.Acceptance
import AccessPolicy.Statement.Decision

/-!
# Why a decision is what it is

A decision is reached by three searches one inside the other: through the patterns of a list, through the blocks of
the conditions, and through the expectations of a block. Each stops at the first member that settles it, and what
would have come after that is never looked at: a pattern that cannot be compiled does no harm behind one that
accepts, and a missing predicate none behind an expectation that is not met.

Here every outcome is said by what must be found for it, with no order of evaluation: which pattern accepts or is
refused, and what is known of those *before* it in its list; which expectation is not met or which name is missing,
and what is known of the blocks *before* it in the order of their names. `Statement.decide_eq_iff_justified` says
that a decision has an outcome exactly if that outcome is justified in this sense. In particular some outcome always
is, and never two.

Each search is settled twice. Going forward, something is always found that justifies one of its outcomes
(`exists_searched`, `exists_judged`); and whatever justifies an outcome makes the search end with it
(`anyAccepts_of_searched`, `Conditions.blocksHold_of_judged`).

Contents:
* `NoneAccepts`, `FirstAccepts`, `FirstRefused` — a list of patterns, and `Searched`, its outcomes;
* `Met`, `FirstUnmet`, `FirstMissing` — blocks of conditions, and `Judged`, their outcomes;
* `Statement.decide_eq` — the stages of a decision;
* `Statement.Justified`, **`Statement.decide_eq_iff_justified`**.
-/

namespace AccessPolicy

/-! ## One search through patterns -/

section Search

variable (context : Option Datum) (candidate : String)

/-- Every pattern, filled from the context, compiles, and none accepts the candidate. -/
def NoneAccepts (patterns : List String) : Prop :=
  ∀ pattern ∈ patterns, Pattern.matches? (fill context pattern) candidate = .ok false

/-- Some pattern compiles and accepts the candidate, and none before it does, though all before it compile. -/
def FirstAccepts (patterns : List String) : Prop :=
  ∃ before pattern after, patterns = before ++ pattern :: after ∧ NoneAccepts context candidate before ∧
    Pattern.matches? (fill context pattern) candidate = .ok true

/-- Some pattern cannot be compiled, for this reason, and none before it accepts the candidate, though all before it
    compile. -/
def FirstRefused (patterns : List String) (f : Pattern.Fault) : Prop :=
  ∃ before pattern after, patterns = before ++ pattern :: after ∧ NoneAccepts context candidate before ∧
    Pattern.compile (fill context pattern) = .error f

/-- What has to be found for a search through patterns to have an outcome. -/
def Searched (patterns : List String) : Except Pattern.Fault Bool → Prop
  | .ok true => FirstAccepts context candidate patterns
  | .ok false => NoneAccepts context candidate patterns
  | .error f => FirstRefused context candidate patterns f

variable {context candidate}

theorem anyAccepts_cons (pattern : String) (rest : List String) :
    (anyAccepts Supply.fresh context candidate (pattern :: rest) ()).1 =
      match Pattern.matches? (fill context pattern) candidate with
      | .error f => .error f
      | .ok true => .ok true
      | .ok false => (anyAccepts Supply.fresh context candidate rest ()).1 := by
  simp only [anyAccepts, Supply.fresh, Pattern.matches?]
  cases Pattern.compile (fill context pattern) with
  | error f => rfl
  | ok p =>
      by_cases hp : p.accepts candidate = true
      · simp only [Except.map, hp, if_true]
      · simp only [Except.map, Bool.eq_false_iff.mpr hp, if_false, Bool.false_eq_true]

/-- Patterns that do not accept are passed over. -/
theorem anyAccepts_append {before : List String} (h : NoneAccepts context candidate before) (rest : List String) :
    (anyAccepts Supply.fresh context candidate (before ++ rest) ()).1 =
      (anyAccepts Supply.fresh context candidate rest ()).1 := by
  induction before with
  | nil => rfl
  | cons pattern before ih =>
      rw [List.cons_append, anyAccepts_cons, h pattern List.mem_cons_self]
      exact ih fun q hq => h q (List.mem_cons_of_mem pattern hq)

theorem anyAccepts_of_firstAccepts {patterns : List String} (h : FirstAccepts context candidate patterns) :
    (anyAccepts Supply.fresh context candidate patterns ()).1 = .ok true := by
  obtain ⟨before, pattern, after, rfl, hbefore, haccepts⟩ := h
  rw [anyAccepts_append hbefore, anyAccepts_cons, haccepts]

theorem anyAccepts_of_noneAccepts {patterns : List String} (h : NoneAccepts context candidate patterns) :
    (anyAccepts Supply.fresh context candidate patterns ()).1 = .ok false := by
  have hall := anyAccepts_append h []
  rwa [List.append_nil] at hall

theorem anyAccepts_of_firstRefused {patterns : List String} {f : Pattern.Fault}
    (h : FirstRefused context candidate patterns f) :
    (anyAccepts Supply.fresh context candidate patterns ()).1 = .error f := by
  obtain ⟨before, pattern, after, rfl, hbefore, hrefused⟩ := h
  rw [anyAccepts_append hbefore, anyAccepts_cons, Pattern.matches?_eq_error_iff.mpr hrefused]

/-- What justifies an outcome makes the search end with it. -/
theorem anyAccepts_of_searched {patterns : List String} {outcome : Except Pattern.Fault Bool}
    (h : Searched context candidate patterns outcome) :
    (anyAccepts Supply.fresh context candidate patterns ()).1 = outcome := by
  match outcome, h with
  | .ok true, haccepts => exact anyAccepts_of_firstAccepts haccepts
  | .ok false, hnone => exact anyAccepts_of_noneAccepts hnone
  | .error f, hrefused => exact anyAccepts_of_firstRefused hrefused

theorem FirstAccepts.exists_mem {patterns : List String} (h : FirstAccepts context candidate patterns) :
    ∃ pattern ∈ patterns, Pattern.matches? (fill context pattern) candidate = .ok true := by
  obtain ⟨before, pattern, after, rfl, -, haccepts⟩ := h
  exact ⟨pattern, List.mem_append_right _ List.mem_cons_self, haccepts⟩

/-- What is found among the patterns after one that does not accept is found among all. -/
theorem Searched.cons {pattern : String} {patterns : List String} {outcome : Except Pattern.Fault Bool}
    (hpattern : Pattern.matches? (fill context pattern) candidate = .ok false)
    (h : Searched context candidate patterns outcome) : Searched context candidate (pattern :: patterns) outcome := by
  have hcons {before : List String} (hbefore : NoneAccepts context candidate before) :
      NoneAccepts context candidate (pattern :: before) := by
    intro q hq
    rcases List.mem_cons.mp hq with rfl | hq
    · exact hpattern
    · exact hbefore q hq
  match outcome, h with
  | .ok true, ⟨before, accepting, after, hsplit, hbefore, haccepts⟩ =>
      exact ⟨pattern :: before, accepting, after, by rw [hsplit]; rfl, hcons hbefore, haccepts⟩
  | .ok false, hnone => exact hcons hnone
  | .error f, ⟨before, refused, after, hsplit, hbefore, hrefused⟩ =>
      exact ⟨pattern :: before, refused, after, by rw [hsplit]; rfl, hcons hbefore, hrefused⟩

/-- Some outcome is always justified. The induction is on the patterns: the first one settles the search, or is
    passed over. -/
theorem exists_searched (context : Option Datum) (candidate : String) (patterns : List String) :
    ∃ outcome, Searched context candidate patterns outcome := by
  have hnil : NoneAccepts context candidate [] := by
    intro q hq
    exact absurd hq List.not_mem_nil
  induction patterns with
  | nil => exact ⟨.ok false, hnil⟩
  | cons pattern patterns ih =>
      cases hpattern : Pattern.matches? (fill context pattern) candidate with
      | error f =>
          exact ⟨.error f, [], pattern, patterns, rfl, hnil, Pattern.matches?_eq_error_iff.mp hpattern⟩
      | ok accepted =>
          cases accepted with
          | true => exact ⟨.ok true, [], pattern, patterns, rfl, hnil, hpattern⟩
          | false =>
              obtain ⟨outcome, h⟩ := ih
              exact ⟨outcome, h.cons hpattern⟩

/-- **A search through patterns** has an outcome exactly if the outcome is justified. -/
theorem anyAccepts_eq_iff {patterns : List String} {outcome : Except Pattern.Fault Bool} :
    (anyAccepts Supply.fresh context candidate patterns ()).1 = outcome ↔
      Searched context candidate patterns outcome := by
  constructor
  · intro h
    obtain ⟨found, hfound⟩ := exists_searched context candidate patterns
    rwa [← h, anyAccepts_of_searched hfound]
  · exact anyAccepts_of_searched

end Search

/-! ## Blocks of conditions -/

section Judgement

variable (context : Datum) (registry : Registry)

/-- Every expectation of the block is met: its predicate is in the registry, and accepts what its path leads to. -/
def Met (block : String × Keyed Datum) : Prop :=
  ∀ e ∈ block.2.entries, ∃ predicate, registry.get? block.1 = some predicate ∧
    predicate (context.at? e.1) e.2 = true

/-- Some expectation is not met: its predicate is in the registry and rejects what its path leads to. All blocks with
    smaller names are met. -/
def FirstUnmet (blocks : List (String × Keyed Datum)) : Prop :=
  ∃ block ∈ blocks, (∀ earlier ∈ blocks, earlier.1 < block.1 → Met context registry earlier) ∧
    ∃ e ∈ block.2.entries, ∃ predicate, registry.get? block.1 = some predicate ∧
      predicate (context.at? e.1) e.2 = false

/-- This name is that of a block with expectations, and is not in the registry. All blocks with smaller names are
    met. -/
def FirstMissing (blocks : List (String × Keyed Datum)) (name : String) : Prop :=
  ∃ block ∈ blocks, block.1 = name ∧ block.2.entries ≠ [] ∧ registry.get? name = none ∧
    ∀ earlier ∈ blocks, earlier.1 < name → Met context registry earlier

/-- What has to be found for the judgement of blocks to have an outcome. -/
def Judged (blocks : List (String × Keyed Datum)) : Except Statement.Fault Bool → Prop
  | .ok true => ∀ block ∈ blocks, Met context registry block
  | .ok false => FirstUnmet context registry blocks
  | .error (.missingPredicate name) => FirstMissing context registry blocks name
  | .error (.pattern _) => False

variable {context registry}

namespace Conditions

theorem blockHolds_iff {predicate : Predicate} {block : Keyed Datum} :
    blockHolds context predicate block = true ↔
      ∀ e ∈ block.entries, predicate (context.at? e.1) e.2 = true := by
  rw [blockHolds, List.all_eq_true]

/-- A block that is met is passed over, an empty one included. -/
theorem blocksHold_cons_of_met {block : String × Keyed Datum} (h : Met context registry block)
    (rest : List (String × Keyed Datum)) :
    blocksHold context registry (block :: rest) = blocksHold context registry rest := by
  obtain ⟨name, block⟩ := block
  rw [blocksHold]
  by_cases hempty : block.isEmpty = true
  · rw [if_pos hempty]
  · have hentries : block.entries ≠ [] := fun hnil => hempty (Keyed.isEmpty_iff.mpr hnil)
    obtain ⟨e, he⟩ := List.exists_mem_of_ne_nil _ hentries
    obtain ⟨predicate, hget, -⟩ := h e he
    have hget' : registry.get? name = some predicate := hget
    have hholds : blockHolds context predicate block = true := by
      rw [blockHolds_iff]
      intro e he
      obtain ⟨predicate', hget'', haccepts⟩ := h e he
      obtain rfl : predicate = predicate' := Option.some.inj (hget.symm.trans hget'')
      exact haccepts
    rw [if_neg hempty, hget']
    exact if_pos hholds

theorem blocksHold_append {before : List (String × Keyed Datum)} (h : ∀ block ∈ before, Met context registry block)
    (rest : List (String × Keyed Datum)) :
    blocksHold context registry (before ++ rest) = blocksHold context registry rest := by
  induction before with
  | nil => rfl
  | cons block before ih =>
      rw [List.cons_append, blocksHold_cons_of_met (h block List.mem_cons_self)]
      exact ih fun b hb => h b (List.mem_cons_of_mem block hb)

/-- What justifies an outcome makes the judgement end with it. -/
theorem blocksHold_of_judged {blocks : List (String × Keyed Datum)} (hincreasing : Increasing blocks)
    {outcome : Except Statement.Fault Bool} (h : Judged context registry blocks outcome) :
    blocksHold context registry blocks = outcome := by
  match outcome, h with
  | .ok true, hall =>
      have hmet := blocksHold_append hall []
      rwa [List.append_nil] at hmet
  | .ok false, ⟨⟨name, block⟩, hmem, hearlier, e, he, predicate, hget, hrejects⟩ =>
      -- Names increase, so the blocks before this one are those with smaller names.
      obtain ⟨before, after, hsplit, hbefore⟩ := hincreasing.exists_split hmem
      have hget' : registry.get? name = some predicate := hget
      have hempty : ¬ block.isEmpty = true := by
        rw [Keyed.isEmpty_iff]
        exact List.ne_nil_of_mem he
      have hholds : ¬ blockHolds context predicate block = true := by
        rw [blockHolds_iff]
        intro hall
        exact absurd (hall e he) (by rw [hrejects]; exact Bool.false_ne_true)
      rw [hsplit, blocksHold_append fun b hb => hearlier b (hbefore b hb).1 (hbefore b hb).2, blocksHold,
        if_neg hempty, hget']
      exact if_neg hholds
  | .error (.missingPredicate _), ⟨⟨name, block⟩, hmem, rfl, hentries, hget, hearlier⟩ =>
      obtain ⟨before, after, hsplit, hbefore⟩ := hincreasing.exists_split hmem
      have hget' : registry.get? name = none := hget
      have hempty : ¬ block.isEmpty = true := by
        rw [Keyed.isEmpty_iff]
        exact hentries
      rw [hsplit, blocksHold_append fun b hb => hearlier b (hbefore b hb).1 (hbefore b hb).2, blocksHold,
        if_neg hempty, hget']

end Conditions

/-- What is found among the blocks after one that is met is found among all. -/
theorem Judged.cons {block : String × Keyed Datum} {blocks : List (String × Keyed Datum)}
    {outcome : Except Statement.Fault Bool} (hblock : Met context registry block)
    (h : Judged context registry blocks outcome) : Judged context registry (block :: blocks) outcome := by
  have hcons {name : String} (hearlier : ∀ earlier ∈ blocks, earlier.1 < name → Met context registry earlier) :
      ∀ earlier ∈ block :: blocks, earlier.1 < name → Met context registry earlier := by
    intro earlier hmem hlt
    rcases List.mem_cons.mp hmem with rfl | hmem
    · exact hblock
    · exact hearlier earlier hmem hlt
  match outcome, h with
  | .ok true, hall =>
      intro b hb
      rcases List.mem_cons.mp hb with rfl | hb
      · exact hblock
      · exact hall b hb
  | .ok false, ⟨unmet, hmem, hearlier, hunmet⟩ =>
      exact ⟨unmet, List.mem_cons_of_mem block hmem, hcons hearlier, hunmet⟩
  | .error (.missingPredicate _), ⟨missing, hmem, hname, hentries, hget, hearlier⟩ =>
      exact ⟨missing, List.mem_cons_of_mem block hmem, hname, hentries, hget, hcons hearlier⟩

/-- The first block is met, or settles the judgement: its predicate is missing, or rejects. -/
theorem met_or_judged_first {block : String × Keyed Datum} {blocks : List (String × Keyed Datum)}
    (hincreasing : Increasing (block :: blocks)) :
    Met context registry block ∨ ∃ outcome, Judged context registry (block :: blocks) outcome := by
  have hfirst : ∀ earlier ∈ block :: blocks, earlier.1 < block.1 → Met context registry earlier := by
    intro earlier hmem hlt
    rcases List.mem_cons.mp hmem with rfl | hmem
    · exact absurd hlt (String.lt_irrefl _)
    · exact absurd (String.lt_trans hlt ((List.pairwise_cons.mp hincreasing).1 earlier hmem)) (String.lt_irrefl _)
  by_cases hentries : block.2.entries = []
  · refine Or.inl fun e he => ?_
    rw [hentries] at he
    exact absurd he List.not_mem_nil
  · cases hget : registry.get? block.1 with
    | none =>
        exact Or.inr ⟨.error (.missingPredicate block.1), block, List.mem_cons_self, rfl, hentries, hget, hfirst⟩
    | some predicate =>
        by_cases hholds : Conditions.blockHolds context predicate block.2 = true
        · exact Or.inl fun e he => ⟨predicate, hget, Conditions.blockHolds_iff.mp hholds e he⟩
        · obtain ⟨e, he, hrejects⟩ := List.all_eq_false.mp (Bool.eq_false_iff.mpr hholds)
          exact Or.inr ⟨.ok false, block, List.mem_cons_self, hfirst, e, he, predicate, hget,
            Bool.eq_false_iff.mpr hrejects⟩

/-- Some outcome is always justified. The induction is on the blocks. -/
theorem exists_judged (context : Datum) (registry : Registry) {blocks : List (String × Keyed Datum)}
    (hincreasing : Increasing blocks) : ∃ outcome, Judged context registry blocks outcome := by
  induction blocks with
  | nil =>
      refine ⟨.ok true, ?_⟩
      intro block hmem
      exact absurd hmem List.not_mem_nil
  | cons block blocks ih =>
      rcases met_or_judged_first hincreasing with hmet | hsettled
      · obtain ⟨outcome, h⟩ := ih (List.pairwise_cons.mp hincreasing).2
        exact ⟨outcome, h.cons hmet⟩
      · exact hsettled

/-- **The judgement of blocks** has an outcome exactly if the outcome is justified. -/
theorem Conditions.blocksHold_eq_iff {blocks : List (String × Keyed Datum)} (hincreasing : Increasing blocks)
    {outcome : Except Statement.Fault Bool} :
    blocksHold context registry blocks = outcome ↔ Judged context registry blocks outcome := by
  constructor
  · intro h
    obtain ⟨found, hfound⟩ := exists_judged context registry hincreasing
    rwa [← h, blocksHold_of_judged hincreasing hfound]
  · exact blocksHold_of_judged hincreasing

end Judgement

/-! ## Whole decisions -/

namespace Statement

/-- The stages of a decision: actions, resources, conditions. -/
theorem decide_eq (s : Statement) (r : Request) :
    s.decide r =
      match (anyAccepts Supply.fresh r.context r.action s.actions ()).1 with
      | .error f => .error (.pattern f)
      | .ok false => .ok false
      | .ok true =>
        match (anyAccepts Supply.fresh r.context r.resource s.resources ()).1 with
        | .error f => .error (.pattern f)
        | .ok false => .ok false
        | .ok true => Conditions.hold s.conditions r.context r.registry := by
  unfold decide decideBy
  rcases anyAccepts Supply.fresh r.context r.action s.actions () with ⟨byAction, ⟨⟩⟩
  match byAction with
  | .error f => rfl
  | .ok false => rfl
  | .ok true =>
      rcases hresource : anyAccepts Supply.fresh r.context r.resource s.resources () with ⟨byResource, ⟨⟩⟩
      simp only [hresource]
      match byResource with
      | .error f => rfl
      | .ok false => rfl
      | .ok true => rfl

/-- The statement has these conditions, and the request brings this context and this registry to judge them by. -/
structure InForce (s : Statement) (r : Request) (c : Conditions) (d : Datum) (g : Registry) : Prop where
  conditions_eq : s.conditions = some c
  context_eq : r.context = some d
  registry_eq : r.registry = some g

/-- Every expectation of the conditions in force, if any are, is met. -/
def ConditionsMet (s : Statement) (r : Request) : Prop :=
  ∀ c d g, s.InForce r c d g → ∀ block ∈ c.entries, Met d g block

/-- Some expectation of the conditions in force is not met, and all blocks with smaller names are. -/
def ConditionUnmet (s : Statement) (r : Request) : Prop :=
  ∃ c d g, s.InForce r c d g ∧ FirstUnmet d g c.entries

/-- The conditions in force need a predicate of this name, which the registry lacks, and all blocks with smaller names
    are met. -/
def PredicateMissing (s : Statement) (r : Request) (name : String) : Prop :=
  ∃ c d g, s.InForce r c d g ∧ FirstMissing d g c.entries name

/-- What has to be found for the conditions of a statement to have an outcome. -/
def ConditionsJudged (s : Statement) (r : Request) : Except Fault Bool → Prop
  | .ok true => s.ConditionsMet r
  | .ok false => s.ConditionUnmet r
  | .error (.missingPredicate name) => s.PredicateMissing r name
  | .error (.pattern _) => False

theorem InForce.unique {s : Statement} {r : Request} {c c' : Conditions} {d d' : Datum} {g g' : Registry}
    (h : s.InForce r c d g) (h' : s.InForce r c' d' g') : c = c' ∧ d = d' ∧ g = g' :=
  ⟨Option.some.inj (h.conditions_eq.symm.trans h'.conditions_eq),
    Option.some.inj (h.context_eq.symm.trans h'.context_eq),
    Option.some.inj (h.registry_eq.symm.trans h'.registry_eq)⟩

/-- Conditions in force are judged block by block. -/
theorem InForce.hold_eq {s : Statement} {r : Request} {c : Conditions} {d : Datum} {g : Registry}
    (h : s.InForce r c d g) :
    Conditions.hold s.conditions r.context r.registry = Conditions.blocksHold d g c.entries := by
  rw [h.conditions_eq, h.context_eq, h.registry_eq]
  rfl

/-- Conditions that are not in force hold. -/
theorem hold_of_not_inForce {s : Statement} {r : Request} (h : ∀ c d g, ¬ s.InForce r c d g) :
    Conditions.hold s.conditions r.context r.registry = .ok true := by
  unfold Conditions.hold
  split
  · rename_i c d g hc hd hg
    exact absurd ⟨hc, hd, hg⟩ (h c d g)
  · rfl

theorem conditionsJudged_iff_of_inForce {s : Statement} {r : Request} {c : Conditions} {d : Datum} {g : Registry}
    (h : s.InForce r c d g) {outcome : Except Fault Bool} :
    s.ConditionsJudged r outcome ↔ Judged d g c.entries outcome := by
  match outcome with
  | .ok true =>
      constructor
      · intro hall
        exact hall c d g h
      · intro hall c' d' g' h'
        obtain ⟨rfl, rfl, rfl⟩ := h.unique h'
        exact hall
  | .ok false =>
      constructor
      · rintro ⟨c', d', g', h', hunmet⟩
        obtain ⟨rfl, rfl, rfl⟩ := h.unique h'
        exact hunmet
      · intro hunmet
        exact ⟨c, d, g, h, hunmet⟩
  | .error (.missingPredicate name) =>
      constructor
      · rintro ⟨c', d', g', h', hmissing⟩
        obtain ⟨rfl, rfl, rfl⟩ := h.unique h'
        exact hmissing
      · intro hmissing
        exact ⟨c, d, g, h, hmissing⟩
  | .error (.pattern f) => exact Iff.rfl

/-- **The judgement of the conditions** has an outcome exactly if the outcome is justified. -/
theorem hold_eq_iff {s : Statement} {r : Request} {outcome : Except Fault Bool} :
    Conditions.hold s.conditions r.context r.registry = outcome ↔ s.ConditionsJudged r outcome := by
  by_cases hforce : ∃ c d g, s.InForce r c d g
  · obtain ⟨c, d, g, h⟩ := hforce
    rw [h.hold_eq, conditionsJudged_iff_of_inForce h, Conditions.blocksHold_eq_iff c.increasing]
  · have hnone : ∀ c d g, ¬ s.InForce r c d g := fun c d g h => hforce ⟨c, d, g, h⟩
    rw [hold_of_not_inForce hnone]
    constructor
    · rintro rfl
      intro c d g h
      exact absurd h (hnone c d g)
    · intro hjudged
      match outcome, hjudged with
      | .ok true, _ => rfl
      | .ok false, ⟨c, d, g, h, _⟩ => exact absurd h (hnone c d g)
      | .error (.missingPredicate _), ⟨c, d, g, h, _⟩ => exact absurd h (hnone c d g)

/-- **What has to be found for a decision to have an outcome.**

    A match: a pattern of each list accepts, and the conditions in force are met. A mismatch: no pattern of one list
    accepts, or an expectation in force is not met. A fault: a pattern that cannot be compiled, before which none of
    its list accepts, or a missing predicate, before which all blocks are met. Resources count only once an action
    pattern accepts, and conditions only once a resource pattern does. -/
def Justified (s : Statement) (r : Request) : Except Fault Bool → Prop
  | .ok true =>
    FirstAccepts r.context r.action s.actions ∧ FirstAccepts r.context r.resource s.resources ∧ s.ConditionsMet r
  | .ok false =>
    NoneAccepts r.context r.action s.actions ∨
      FirstAccepts r.context r.action s.actions ∧
        (NoneAccepts r.context r.resource s.resources ∨
          FirstAccepts r.context r.resource s.resources ∧ s.ConditionUnmet r)
  | .error (.pattern f) =>
    FirstRefused r.context r.action s.actions f ∨
      FirstAccepts r.context r.action s.actions ∧ FirstRefused r.context r.resource s.resources f
  | .error (.missingPredicate name) =>
    FirstAccepts r.context r.action s.actions ∧ FirstAccepts r.context r.resource s.resources ∧
      s.PredicateMissing r name

/-- What justifies an outcome makes the decision end with it. -/
theorem decide_of_justified {s : Statement} {r : Request} {outcome : Except Fault Bool}
    (h : s.Justified r outcome) : s.decide r = outcome := by
  rw [decide_eq]
  match outcome, h with
  | .ok true, ⟨haction, hresource, hmet⟩ =>
      rw [anyAccepts_of_firstAccepts haction, anyAccepts_of_firstAccepts hresource]
      exact hold_eq_iff.mpr hmet
  | .ok false, .inl haction => rw [anyAccepts_of_noneAccepts haction]
  | .ok false, .inr ⟨haction, .inl hresource⟩ =>
      rw [anyAccepts_of_firstAccepts haction, anyAccepts_of_noneAccepts hresource]
  | .ok false, .inr ⟨haction, .inr ⟨hresource, hunmet⟩⟩ =>
      rw [anyAccepts_of_firstAccepts haction, anyAccepts_of_firstAccepts hresource]
      exact hold_eq_iff.mpr hunmet
  | .error (.pattern f), .inl haction => rw [anyAccepts_of_firstRefused haction]
  | .error (.pattern f), .inr ⟨haction, hresource⟩ =>
      rw [anyAccepts_of_firstAccepts haction, anyAccepts_of_firstRefused hresource]
  | .error (.missingPredicate name), ⟨haction, hresource, hmissing⟩ =>
      rw [anyAccepts_of_firstAccepts haction, anyAccepts_of_firstAccepts hresource]
      exact hold_eq_iff.mpr hmissing

/-- Some outcome is always justified: the first stage that does not end in a match settles it. -/
theorem exists_justified (s : Statement) (r : Request) : ∃ outcome, s.Justified r outcome := by
  obtain ⟨byAction, haction⟩ := exists_searched r.context r.action s.actions
  match byAction, haction with
  | .error f, haction => exact ⟨.error (.pattern f), .inl haction⟩
  | .ok false, haction => exact ⟨.ok false, .inl haction⟩
  | .ok true, haction =>
      obtain ⟨byResource, hresource⟩ := exists_searched r.context r.resource s.resources
      match byResource, hresource with
      | .error f, hresource => exact ⟨.error (.pattern f), .inr ⟨haction, hresource⟩⟩
      | .ok false, hresource => exact ⟨.ok false, .inr ⟨haction, .inl hresource⟩⟩
      | .ok true, hresource =>
          have hjudged : s.ConditionsJudged r (Conditions.hold s.conditions r.context r.registry) :=
            hold_eq_iff.mp rfl
          match Conditions.hold s.conditions r.context r.registry, hjudged with
          | .ok true, hmet => exact ⟨.ok true, haction, hresource, hmet⟩
          | .ok false, hunmet => exact ⟨.ok false, .inr ⟨haction, .inr ⟨hresource, hunmet⟩⟩⟩
          | .error (.missingPredicate name), hmissing =>
              exact ⟨.error (.missingPredicate name), haction, hresource, hmissing⟩

theorem justified_decide (s : Statement) (r : Request) : s.Justified r (s.decide r) := by
  obtain ⟨outcome, h⟩ := s.exists_justified r
  rwa [decide_of_justified h]

theorem justified_of_decide {s : Statement} {r : Request} {outcome : Except Fault Bool} (h : s.decide r = outcome) :
    s.Justified r outcome := by
  rw [← h]
  exact s.justified_decide r

/-- A match needs a resource pattern that compiles and accepts. -/
theorem accepts_of_decide (s : Statement) {r : Request} (h : s.decide r = .ok true) :
    ∃ pattern ∈ s.resources, Pattern.matches? (fill r.context pattern) r.resource = .ok true := by
  obtain ⟨-, hresource, -⟩ := justified_of_decide h
  exact hresource.exists_mem

/-- **Every decision is justified, and by nothing else.** Whatever the statement and the request, with or without a
    context and a registry, the decision has an outcome exactly if the outcome is justified. -/
theorem decide_eq_iff_justified (s : Statement) (r : Request) (outcome : Except Fault Bool) :
    s.decide r = outcome ↔ s.Justified r outcome := by
  constructor
  · rintro rfl
    exact s.justified_decide r
  · exact decide_of_justified

end Statement

end AccessPolicy
