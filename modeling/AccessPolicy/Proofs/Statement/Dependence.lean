import AccessPolicy.Statement.Decision

/-!
# What a decision depends on

A context may hold anything, and a registry any number of predicates. Of these a statement consults only what it
names itself: the paths of its placeholders, the paths of its expectations, and the names of the blocks that these
stand in. Blocks without expectations are passed over, so their names count for nothing.

Two requests that agree on what a statement consults get the same decision from it, the same fault included
(`Statement.decide_eq_of_agree`). What is in the rest of a context can neither open a resource nor close it, and
cannot be learnt from decisions.

The argument goes up the stages of a decision: a placeholder is filled with what its path leads to and with nothing
else (`fill_eq_of_agree`), a search tries the same patterns in the same order (`anyAccepts_eq_of_supply_eq`), and
blocks are judged alike up to the first that settles the judgement (`Conditions.blocksHold_eq_of_agree`). Nothing is
asked of where compiled patterns come from, so the same holds of decisions with any supply, and of the state in which
they leave it (`Statement.decideBy_eq_of_agree`).

Contents:
* `placeholderPaths`, `Conditions.blocksInForce`, `Statement.paths`, `Statement.predicates` — what is consulted;
* `Statement.AgreeOn` — two requests that agree on it;
* **`Statement.decide_eq_of_agree`**.
-/

namespace AccessPolicy

/-! ## What is consulted -/

/-- The path of a placeholder. -/
def Piece.path? : Piece → Option String
  | .char _ => none
  | .placeholder path => some (String.ofList path)

/-- The paths of the placeholders in a pattern. -/
def placeholderPaths (pattern : String) : List String :=
  (Piece.read pattern.toList).filterMap Piece.path?

/-- The blocks that have expectations. -/
def Conditions.blocksInForce (c : Conditions) : List (String × Keyed Datum) :=
  c.entries.filter (!·.2.isEmpty)

namespace Statement

/-- The blocks of a statement that have expectations. -/
def blocksInForce (s : Statement) : List (String × Keyed Datum) :=
  s.conditions.elim [] Conditions.blocksInForce

/-- The paths that a statement may follow into a context. -/
def paths (s : Statement) : List String :=
  (s.actions ++ s.resources).flatMap placeholderPaths ++ s.blocksInForce.flatMap (·.2.keys)

/-- The names that a statement may look up in a registry. -/
def predicates (s : Statement) : List String :=
  s.blocksInForce.map (·.1)

/-- The contexts lead to the same, and the registries mean the same, as far as the statement consults them. -/
structure AgreeOn (s : Statement) (c₁ c₂ : Datum) (g₁ g₂ : Registry) : Prop where
  paths_eq : ∀ path ∈ s.paths, c₁.at? path = c₂.at? path
  predicates_eq : ∀ name ∈ s.predicates, g₁.get? name = g₂.get? name

end Statement

variable {c₁ c₂ : Datum}

/-! ## Patterns -/

/-- A piece is filled with what its path leads to, and with nothing else. -/
theorem Piece.fill_eq_of_agree {piece : Piece} (h : ∀ path ∈ piece.path?, c₁.at? path = c₂.at? path) :
    piece.fill c₁ = piece.fill c₂ := by
  cases piece with
  | char c => rfl
  | placeholder path =>
      have hpath : c₁.at? (String.ofList path) = c₂.at? (String.ofList path) := h _ rfl
      rw [fill, fill, filling, filling, hpath]

/-- **Filling depends on the paths of the placeholders only.** -/
theorem fill_eq_of_agree {pattern : String} (h : ∀ path ∈ placeholderPaths pattern, c₁.at? path = c₂.at? path) :
    fill (some c₁) pattern = fill (some c₂) pattern := by
  have hpieces : (Piece.read pattern.toList).flatMap (Piece.fill c₁) =
      (Piece.read pattern.toList).flatMap (Piece.fill c₂) := by
    rw [List.flatMap_def, List.flatMap_def]
    refine congrArg List.flatten (List.map_congr_left fun piece hpiece => ?_)
    apply Piece.fill_eq_of_agree
    intro path hpath
    exact h path (List.mem_filterMap.mpr ⟨piece, hpiece, hpath⟩)
  rw [fill, fill, hpieces]

/-- A search looks at what is supplied for its patterns, and at nothing else in the context. -/
theorem anyAccepts_eq_of_supply_eq {σ : Type} {supply : Supply σ} {context₁ context₂ : Option Datum}
    {patterns : List String}
    (h : ∀ pattern ∈ patterns, supply (fill context₁ pattern) = supply (fill context₂ pattern))
    (candidate : String) (state : σ) :
    anyAccepts supply context₁ candidate patterns state = anyAccepts supply context₂ candidate patterns state := by
  induction patterns generalizing state with
  | nil => rfl
  | cons pattern patterns ih =>
      have hrest : ∀ q ∈ patterns, supply (fill context₁ q) = supply (fill context₂ q) :=
        fun q hq => h q (List.mem_cons_of_mem pattern hq)
      rw [anyAccepts, anyAccepts, h pattern List.mem_cons_self]
      rcases supply (fill context₂ pattern) state with ⟨found, next⟩
      cases found with
      | error f => rfl
      | ok p =>
          by_cases hp : p.accepts candidate = true
          · simp only [hp, if_true]
          · simp only [hp, if_false, Bool.false_eq_true]
            exact ih hrest next

/-! ## Conditions -/

namespace Conditions

/-- A block depends on the paths of its expectations only. -/
theorem blockHolds_eq_of_agree {block : Keyed Datum} (h : ∀ path ∈ block.keys, c₁.at? path = c₂.at? path)
    (predicate : Predicate) : blockHolds c₁ predicate block = blockHolds c₂ predicate block := by
  unfold blockHolds
  rw [Bool.eq_iff_iff, List.all_eq_true, List.all_eq_true]
  have hentry : ∀ e ∈ block.entries, c₁.at? e.1 = c₂.at? e.1 :=
    fun e he => h e.1 (List.mem_map_of_mem he)
  constructor
  · intro hall e he
    rw [← hentry e he]
    exact hall e he
  · intro hall e he
    rw [hentry e he]
    exact hall e he

/-- **Judging depends on the blocks with expectations only:** on their names and on the paths in them. -/
theorem blocksHold_eq_of_agree {g₁ g₂ : Registry} {blocks : List (String × Keyed Datum)}
    (hpaths : ∀ block ∈ blocks, block.2.isEmpty = false → ∀ path ∈ block.2.keys, c₁.at? path = c₂.at? path)
    (hnames : ∀ block ∈ blocks, block.2.isEmpty = false → g₁.get? block.1 = g₂.get? block.1) :
    blocksHold c₁ g₁ blocks = blocksHold c₂ g₂ blocks := by
  induction blocks with
  | nil => rfl
  | cons first blocks ih =>
      obtain ⟨name, block⟩ := first
      have hrest : blocksHold c₁ g₁ blocks = blocksHold c₂ g₂ blocks :=
        ih (fun b hb => hpaths b (List.mem_cons_of_mem _ hb)) fun b hb => hnames b (List.mem_cons_of_mem _ hb)
      rw [blocksHold, blocksHold, hrest]
      cases hempty : block.isEmpty with
      | true => rfl
      | false =>
          have hname : g₁.get? name = g₂.get? name := hnames _ List.mem_cons_self hempty
          have hblock := blockHolds_eq_of_agree (hpaths _ List.mem_cons_self hempty)
          simp only [hname, hblock]

end Conditions

/-! ## Decisions -/

namespace Statement

variable {s : Statement} {g₁ g₂ : Registry}

theorem AgreeOn.fill_eq (h : s.AgreeOn c₁ c₂ g₁ g₂) {pattern : String} (hmem : pattern ∈ s.actions ++ s.resources) :
    fill (some c₁) pattern = fill (some c₂) pattern := by
  apply fill_eq_of_agree
  intro path hpath
  exact h.paths_eq path (List.mem_append_left _ (List.mem_flatMap.mpr ⟨pattern, hmem, hpath⟩))

theorem AgreeOn.hold_eq (h : s.AgreeOn c₁ c₂ g₁ g₂) :
    Conditions.hold s.conditions (some c₁) (some g₁) = Conditions.hold s.conditions (some c₂) (some g₂) := by
  cases hconditions : s.conditions with
  | none => rfl
  | some c =>
      have hmem : ∀ block ∈ c.entries, block.2.isEmpty = false → block ∈ s.blocksInForce := by
        intro block hblock hempty
        have hforce : s.blocksInForce = c.entries.filter (!·.2.isEmpty) := by
          rw [blocksInForce, hconditions]
          rfl
        rw [hforce, List.mem_filter]
        exact ⟨hblock, by rw [hempty]; rfl⟩
      refine Conditions.blocksHold_eq_of_agree ?_ ?_
      · intro block hblock hempty path hpath
        have hconsulted : path ∈ s.blocksInForce.flatMap (·.2.keys) :=
          List.mem_flatMap.mpr ⟨block, hmem block hblock hempty, hpath⟩
        exact h.paths_eq path (List.mem_append_right _ hconsulted)
      · intro block hblock hempty
        exact h.predicates_eq block.1 (List.mem_map_of_mem (hmem block hblock hempty))

/-- With any supply of compiled patterns, requests that agree get the same decision, and leave the supply in the same
    state. -/
theorem decideBy_eq_of_agree {σ : Type} (supply : Supply σ) (h : s.AgreeOn c₁ c₂ g₁ g₂)
    (action resource : String) (state : σ) :
    s.decideBy supply ⟨action, resource, some c₁, some g₁⟩ state =
      s.decideBy supply ⟨action, resource, some c₂, some g₂⟩ state := by
  have hactions (state : σ) := anyAccepts_eq_of_supply_eq
    (fun pattern hmem => congrArg supply (h.fill_eq (List.mem_append_left _ hmem))) action state
  have hresources (state : σ) := anyAccepts_eq_of_supply_eq
    (fun pattern hmem => congrArg supply (h.fill_eq (List.mem_append_right s.actions hmem))) resource state
  simp only [decideBy, hactions, hresources, h.hold_eq]

/-- **A decision depends on what the statement names, and on nothing else.** If two contexts lead to the same at every
    path that the statement has, in a placeholder of a pattern or in a block with expectations, and two registries mean
    the same by the names of these blocks, the decision under the one is that under the other, whether it is a match, a
    mismatch or a fault. -/
theorem decide_eq_of_agree (h : s.AgreeOn c₁ c₂ g₁ g₂) (action resource : String) :
    s.decide ⟨action, resource, some c₁, some g₁⟩ = s.decide ⟨action, resource, some c₂, some g₂⟩ := by
  unfold decide
  rw [decideBy_eq_of_agree Supply.fresh h]

/-- A statement with a placeholder, an expectation, and a block without expectations. -/
def ownDocuments : Statement where
  effect := .allow
  actions := ["read"]
  resources := ["docs/${user.id}/*"]
  conditions := some (Keyed.ofList
    [("matches", Keyed.ofList [("user.role", .text "editor")]), ("unused", Keyed.empty)])
  actions_ne_nil := by decide
  resources_ne_nil := by decide

/-- A context in which an editor asks, whatever else is known. -/
def askedByEditor (rest : Datum) : Datum :=
  .record [("rest", rest), ("user", .record [("id", .text "42"), ("role", .text "editor")])]

/-- What else is known makes no difference, and neither does a predicate by the name of an empty block. -/
theorem decide_eq_of_agree_ownDocuments :
    ownDocuments.AgreeOn (askedByEditor .null) (askedByEditor (.text "secret"))
        (Keyed.ofList [("matches", Predicate.equals)])
        (Keyed.ofList [("matches", Predicate.equals), ("unused", Predicate.never)]) ∧
      ownDocuments.decide ⟨"read", "docs/42/plan", some (askedByEditor .null),
          some (Keyed.ofList [("matches", Predicate.equals)])⟩ =
        ownDocuments.decide ⟨"read", "docs/42/plan", some (askedByEditor (.text "secret")),
          some (Keyed.ofList [("matches", Predicate.equals), ("unused", Predicate.never)])⟩ := by
  have hpaths : ownDocuments.paths = ["user.id", "user.role"] := by decide
  have hpredicates : ownDocuments.predicates = ["matches"] := by decide
  have hagree : ownDocuments.AgreeOn (askedByEditor .null) (askedByEditor (.text "secret"))
      (Keyed.ofList [("matches", Predicate.equals)])
      (Keyed.ofList [("matches", Predicate.equals), ("unused", Predicate.never)]) := by
    constructor
    · rw [hpaths]
      intro path hpath
      simp only [List.mem_cons, List.not_mem_nil, or_false] at hpath
      rcases hpath with rfl | rfl
      · rfl
      · rfl
    · rw [hpredicates]
      intro name hname
      rw [List.mem_singleton.mp hname]
      rfl
  exact ⟨hagree, decide_eq_of_agree hagree "read" "docs/42/plan"⟩

end Statement

end AccessPolicy
