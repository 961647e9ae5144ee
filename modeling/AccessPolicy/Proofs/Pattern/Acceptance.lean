import AccessPolicy.Pattern.Compiled

/-!
# Which candidates a compiled pattern accepts

A pattern that is not blank is spelled out into alternatives, and each of them is compiled. The alternatives then
count one by one: the pattern compiles exactly if it is spelled out and every alternative compiles
(`Pattern.exists_compile_iff`), and it accepts exactly what one of them *admits* (`Pattern.accepts_iff`). An
alternative that is empty, or whose expression cannot be built, admits nothing.

Contents:
* `Glob.Admits` — what an alternative accepts by itself;
* `Pattern.matches?_eq_ok_iff`, `Pattern.matches?_eq_error_iff` — compiling for one candidate;
* `Pattern.compileAll_ok`, `Pattern.exists_compileAll` — compiling alternatives;
* `Pattern.compile_eq_ok_iff`, `Pattern.matches?_of_blank`;
* **`Pattern.exists_compile_iff`**, **`Pattern.accepts_iff`**, and both where there is one alternative.
-/

namespace AccessPolicy

/-- The alternative compiles to a glob that accepts the candidate. -/
def Glob.Admits (alternative candidate : List Char) : Prop :=
  ∃ glob, Glob.compile alternative = .ok (some glob) ∧ glob.accepts candidate = true

namespace Pattern

/-! ## Compiling for one candidate -/

theorem matches?_eq_ok_iff {pattern candidate : String} {accepted : Bool} :
    matches? pattern candidate = .ok accepted ↔
      ∃ p, compile pattern = .ok p ∧ p.accepts candidate = accepted := by
  unfold matches?
  cases compile pattern with
  | error f => simp [Except.map]
  | ok p => simp [Except.map]

theorem matches?_eq_error_iff {pattern candidate : String} {f : Fault} :
    matches? pattern candidate = .error f ↔ compile pattern = .error f := by
  unfold matches?
  cases compile pattern with
  | error g => simp [Except.map]
  | ok p => simp [Except.map]

/-! ## Compiling alternatives -/

/-- Every alternative was compiled, and what they compiled to was gathered. -/
theorem compileAll_ok {done globs : List Glob} {alternatives : List (List Char)}
    (h : compileAll done alternatives = .ok globs) :
    (∀ a ∈ alternatives, ∃ found, Glob.compile a = .ok found) ∧
      ∀ glob, glob ∈ globs ↔ glob ∈ done ∨ ∃ a ∈ alternatives, Glob.compile a = .ok (some glob) := by
  fun_induction compileAll done alternatives with
  | case1 done =>
      obtain rfl : done.reverse = globs := Except.ok.inj h
      refine ⟨fun a ha => absurd ha List.not_mem_nil, fun glob => ?_⟩
      simp
  | case2 done a rest f hcompile => exact absurd h (by simp)
  | case3 done a rest hcompile ih =>
      obtain ⟨hall, hmem⟩ := ih h
      refine ⟨List.forall_mem_cons.mpr ⟨⟨none, hcompile⟩, hall⟩, fun glob => ?_⟩
      rw [hmem]
      simp [hcompile]
  | case4 done a rest glob hcompile ih =>
      obtain ⟨hall, hmem⟩ := ih h
      refine ⟨List.forall_mem_cons.mpr ⟨⟨some glob, hcompile⟩, hall⟩, fun glob' => ?_⟩
      rw [hmem]
      simp only [List.mem_cons, exists_eq_or_imp, hcompile, Except.ok.injEq, Option.some.injEq]
      rw [or_assoc, or_left_comm, eq_comm]

/-- Nothing is refused where every alternative compiles. -/
theorem exists_compileAll {alternatives : List (List Char)}
    (h : ∀ a ∈ alternatives, ∃ found, Glob.compile a = .ok found) (done : List Glob) :
    ∃ globs, compileAll done alternatives = .ok globs := by
  induction alternatives generalizing done with
  | nil => exact ⟨done.reverse, rfl⟩
  | cons a rest ih =>
      obtain ⟨⟨found, hfound⟩, hrest⟩ := List.forall_mem_cons.mp h
      rw [compileAll, hfound]
      cases found with
      | none => exact ih hrest done
      | some glob => exact ih hrest (glob :: done)

/-! ## Whole patterns -/

/-- What a pattern that is not blank compiles to: its alternatives are spelled out, and compiled in their order. -/
theorem compile_eq_ok_iff {pattern : String} (hne : Text.trim pattern.toList ≠ []) {p : Pattern} :
    compile pattern = .ok p ↔
      ∃ alternatives globs, expand (Text.trim pattern.toList) = .ok alternatives ∧
        compileAll [] alternatives = .ok globs ∧ ⟨String.ofList (Text.trim pattern.toList), globs⟩ = p := by
  have hfull : ¬ (Text.trim pattern.toList).isEmpty = true := by
    rw [List.isEmpty_iff]
    exact hne
  rw [compile]
  simp only [if_neg hfull]
  cases expand (Text.trim pattern.toList) with
  | error f => simp
  | ok alternatives =>
      cases hall : compileAll [] alternatives with
      | error f => simp [hall, Except.map]
      | ok globs => simp [hall, Except.map]

/-- A blank pattern compiles, and accepts the empty candidate only. -/
theorem matches?_of_blank {pattern : String} (hblank : Text.trim pattern.toList = []) (candidate : String) :
    matches? pattern candidate = .ok candidate.isEmpty := by
  rw [matches?, compile, hblank]
  rfl

/-- **A pattern that is not blank compiles** exactly if it is spelled out and each of its alternatives compiles. -/
theorem exists_compile_iff {pattern : String} (hne : Text.trim pattern.toList ≠ []) :
    (∃ p, compile pattern = .ok p) ↔
      ∃ alternatives, expand (Text.trim pattern.toList) = .ok alternatives ∧
        ∀ a ∈ alternatives, ∃ found, Glob.compile a = .ok found := by
  constructor
  · rintro ⟨p, hp⟩
    obtain ⟨alternatives, globs, hexpand, hall, -⟩ := (compile_eq_ok_iff hne).mp hp
    exact ⟨alternatives, hexpand, (compileAll_ok hall).1⟩
  · rintro ⟨alternatives, hexpand, hall⟩
    obtain ⟨globs, hglobs⟩ := exists_compileAll hall []
    exact ⟨_, (compile_eq_ok_iff hne).mpr ⟨alternatives, globs, hexpand, hglobs, rfl⟩⟩

/-- **A pattern that is not blank accepts** what one of its alternatives admits. -/
theorem accepts_iff {pattern : String} (hne : Text.trim pattern.toList ≠ []) {alternatives : List (List Char)}
    (hexpand : expand (Text.trim pattern.toList) = .ok alternatives) {p : Pattern} (hp : compile pattern = .ok p)
    (candidate : String) :
    p.accepts candidate = true ↔ ∃ a ∈ alternatives, Glob.Admits a candidate.toList := by
  obtain ⟨found, globs, hfound, hall, rfl⟩ := (compile_eq_ok_iff hne).mp hp
  obtain rfl := Except.ok.inj (hexpand.symm.trans hfound)
  have hfull : isBlank ⟨String.ofList (Text.trim pattern.toList), globs⟩ = false := by
    simpa [isBlank] using hne
  have hmem := (compileAll_ok hall).2
  simp only [accepts, hfull, if_false, Bool.false_eq_true]
  rw [List.any_eq_true]
  constructor
  · rintro ⟨glob, hglob, haccepts⟩
    obtain hnil | ⟨a, ha, hcompile⟩ := (hmem glob).mp hglob
    · exact absurd hnil List.not_mem_nil
    · exact ⟨a, ha, glob, hcompile, haccepts⟩
  · rintro ⟨a, ha, glob, hcompile, haccepts⟩
    exact ⟨glob, (hmem glob).mpr (Or.inr ⟨a, ha, hcompile⟩), haccepts⟩

/-! ## Patterns with one alternative -/

section Single

variable {pattern : String} {alternative : List Char}

theorem exists_compile_iff_of_single (hne : Text.trim pattern.toList ≠ [])
    (hexpand : expand (Text.trim pattern.toList) = .ok [alternative]) :
    (∃ p, compile pattern = .ok p) ↔ ∃ found, Glob.compile alternative = .ok found := by
  rw [exists_compile_iff hne, hexpand]
  constructor
  · rintro ⟨alternatives, heq, hall⟩
    obtain rfl := Except.ok.inj heq
    exact hall alternative (List.mem_singleton_self alternative)
  · intro hfound
    exact ⟨[alternative], rfl, List.forall_mem_singleton.mpr hfound⟩

theorem accepts_iff_of_single (hne : Text.trim pattern.toList ≠ [])
    (hexpand : expand (Text.trim pattern.toList) = .ok [alternative]) {p : Pattern} (hp : compile pattern = .ok p)
    (candidate : String) : p.accepts candidate = true ↔ Glob.Admits alternative candidate.toList := by
  rw [accepts_iff hne hexpand hp]
  simp only [List.mem_singleton, exists_eq_left]

end Single

end Pattern

end AccessPolicy
