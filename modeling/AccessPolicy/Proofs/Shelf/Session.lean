import AccessPolicy.Shelf

/-!
# Sessions: a shelf changes no answer

A session is any sequence of uses of one shelf: asking for a compiled pattern, deciding a request, clearing. What a
use leaves on the shelf depends on everything before it, on what was found, put in front, pushed off the end, and on
evaluations that stopped half way at a match or a refusal. What a use *answers* does not.

The argument is a simulation. A supply of compiled patterns is *faithful* under an invariant if it answers as
compiling would and keeps the invariant; deciding with a faithful supply gives the decision of `Statement.decide`
(`decideBy_eq_decide`). For a shelf the invariant is `Shelf.Sound`: each pattern on it is the compilation of the
text it is kept under.

Contents:
* `Supply.Faithful`, `anyAccepts_eq_fresh`, `Statement.decideBy_eq_decide`;
* `Shelf.Sound`, kept by every operation, and `Shelf.supply_faithful`;
* `Use`, `Answer`, `Shelf.serveAll`, and **`Shelf.serveAll_answers`**: a session answers as if there were no shelf.
-/

namespace AccessPolicy

variable {σ : Type}

/-! ## Faithful supplies -/

/-- In states with the invariant, the supply answers as compiling would, and the invariant is kept, also past a
    refusal. -/
structure Supply.Faithful (supply : Supply σ) (Inv : σ → Prop) : Prop where
  answers : ∀ pattern s, Inv s → (supply pattern s).1 = Pattern.compile pattern
  keeps : ∀ pattern s, Inv s → Inv (supply pattern s).2

/-- One search through patterns: a faithful supply gives the answer that compiling gives, wherever the search
    stops. -/
theorem anyAccepts_eq_fresh {supply : Supply σ} {Inv : σ → Prop} (hf : supply.Faithful Inv)
    (context : Option Datum) (candidate : String) (patterns : List String) {s : σ} (hs : Inv s) :
    (anyAccepts supply context candidate patterns s).1 =
        (anyAccepts Supply.fresh context candidate patterns ()).1 ∧
      Inv (anyAccepts supply context candidate patterns s).2 := by
  induction patterns generalizing s with
  | nil => exact ⟨rfl, hs⟩
  | cons pattern rest ih =>
      have answer := hf.answers (fill context pattern) s hs
      have kept := hf.keeps (fill context pattern) s hs
      rcases hnext : supply (fill context pattern) s with ⟨found, next⟩
      rw [hnext] at answer kept
      simp only [anyAccepts, Supply.fresh, hnext, ← answer]
      cases found with
      | error f => exact ⟨rfl, kept⟩
      | ok p =>
          by_cases hp : p.accepts candidate = true
          · simp only [hp, if_true]
            exact ⟨trivial, kept⟩
          · simp only [hp, if_false, Bool.false_eq_true]
            exact ih kept

namespace Statement

/-- **Deciding with a faithful supply is deciding:** the answer is that of `decide`, and the invariant is kept,
    whether the decision went through, stopped early or was refused. -/
theorem decideBy_eq_decide {supply : Supply σ} {Inv : σ → Prop} (hf : supply.Faithful Inv) (s : Statement)
    (r : Request) {state : σ} (hs : Inv state) :
    (s.decideBy supply r state).1 = s.decide r ∧ Inv (s.decideBy supply r state).2 := by
  obtain ⟨actionAnswer, actionKept⟩ := anyAccepts_eq_fresh hf r.context r.action s.actions hs
  rcases haction : anyAccepts supply r.context r.action s.actions state with ⟨byAction, between⟩
  rcases hfresh : anyAccepts Supply.fresh r.context r.action s.actions () with ⟨byAction', _⟩
  rw [haction] at actionAnswer actionKept
  rw [hfresh] at actionAnswer
  obtain rfl : byAction = byAction' := actionAnswer
  simp only [decide, decideBy, haction, hfresh]
  match byAction with
  | .error f => exact ⟨rfl, actionKept⟩
  | .ok false => exact ⟨rfl, actionKept⟩
  | .ok true =>
      -- The second search starts in the state that the first one left.
      obtain ⟨resourceAnswer, resourceKept⟩ :=
        anyAccepts_eq_fresh hf r.context r.resource s.resources actionKept
      rcases hresource : anyAccepts supply r.context r.resource s.resources between with ⟨byResource, after⟩
      rcases hfresh' : anyAccepts Supply.fresh r.context r.resource s.resources () with ⟨byResource', _⟩
      rw [hresource] at resourceAnswer resourceKept
      rw [hfresh'] at resourceAnswer
      obtain rfl : byResource = byResource' := resourceAnswer
      simp only [hresource, hfresh']
      match byResource with
      | .error f => exact ⟨rfl, resourceKept⟩
      | .ok false => exact ⟨rfl, resourceKept⟩
      | .ok true => exact ⟨rfl, resourceKept⟩

end Statement

/-! ## What is on a shelf -/

namespace Shelf

variable {s : Shelf}

/-- **The invariant:** each pattern on the shelf is the compilation of the text it is kept under. -/
def Sound (s : Shelf) : Prop :=
  ∀ e ∈ s.entries, Pattern.compile e.key = .ok e.pattern

theorem sound_ofCapacity (capacity : Nat) : (ofCapacity capacity).Sound := by
  intro e he
  exact absurd he List.not_mem_nil

theorem sound_clear (s : Shelf) : s.clear.Sound := by
  intro e he
  exact absurd he List.not_mem_nil

/-- What is found under a key is on the shelf, and is kept under that key. -/
theorem mem_and_key_of_find? {key : String} {e : Entry} (h : s.find? key = some e) :
    e ∈ s.entries ∧ e.key = key := by
  have hfind : s.entries.find? (·.key == key) = some e := h
  exact ⟨List.mem_of_find?_eq_some hfind, by simpa using List.find?_some hfind⟩

/-- What is on the shelf after an entry was put first is that entry, or was there before. -/
theorem mem_entries_putFirst {e e' : Entry} (h : e' ∈ (s.putFirst e).entries) :
    e' = e ∨ e' ∈ s.entries := by
  have hmem : e' ∈ e :: s.entries.filter (·.key != e.key) := List.mem_of_mem_take h
  rcases List.mem_cons.mp hmem with rfl | hrest
  · exact Or.inl rfl
  · exact Or.inr (List.mem_filter.mp hrest).1

/-- Putting a compilation first keeps the invariant, whatever is pushed off. -/
theorem Sound.putFirst (hs : s.Sound) {e : Entry} (he : Pattern.compile e.key = .ok e.pattern) :
    (s.putFirst e).Sound := by
  intro e' hmem
  rcases mem_entries_putFirst hmem with rfl | hold
  · exact he
  · exact hs e' hold

/-- **One look at a sound shelf:** the answer is the compilation of the text, or its refusal, and the shelf stays
    sound. -/
theorem Sound.fetch (hs : s.Sound) (key : String) :
    (s.fetch key).1.map (·.pattern) = Pattern.compile key ∧ (s.fetch key).2.Sound := by
  unfold Shelf.fetch
  cases hfound : s.find? key with
  | some e =>
      obtain ⟨hmem, rfl⟩ := mem_and_key_of_find? hfound
      exact ⟨(hs e hmem).symm, hs.putFirst (hs e hmem)⟩
  | none =>
      cases hcompiled : Pattern.compile key with
      | error f => exact ⟨rfl, hs⟩
      | ok p =>
          have hput : (s.putFirst ⟨key, p, s.nextStamp⟩).Sound := hs.putFirst hcompiled
          exact ⟨rfl, hput⟩

/-- **A sound shelf is a faithful supply.** -/
theorem supply_faithful : Supply.Faithful supply Sound where
  answers pattern _ hs := (hs.fetch pattern).1
  keeps pattern _ hs := (hs.fetch pattern).2

end Shelf

/-! ## Sessions -/

/-- One use of a shelf. -/
inductive Use where
  /-- Asking for the compiled pattern of a text. -/
  | fetch (pattern : String)
  /-- Deciding a request with patterns from the shelf. -/
  | decide (statement : Statement) (request : Request)
  /-- Taking everything off. -/
  | clear

/-- What a use of a shelf answers. -/
inductive Answer where
  | fetched (found : Except Pattern.Fault Pattern)
  | decided (decision : Except Statement.Fault Bool)
  | cleared

/-- What a use answers where there is no shelf: every pattern is compiled anew. -/
def Use.answer : Use → Answer
  | .fetch pattern => .fetched (Pattern.compile pattern)
  | .decide statement request => .decided (statement.decide request)
  | .clear => .cleared

namespace Shelf

/-- One use of the shelf: its answer, and the shelf it leaves. -/
def serve (s : Shelf) : Use → Answer × Shelf
  | .fetch pattern =>
    let (found, s) := s.fetch pattern
    (.fetched (found.map (·.pattern)), s)
  | .decide statement request =>
    let (decision, s) := statement.decideOn s request
    (.decided decision, s)
  | .clear => (.cleared, s.clear)

/-- The uses of a session one after another: all answers, and the shelf that is left. -/
def serveAll : Shelf → List Use → List Answer × Shelf
  | s, [] => ([], s)
  | s, use :: uses =>
    let (answer, s) := s.serve use
    let (answers, s) := s.serveAll uses
    (answer :: answers, s)

/-- **One step of a session:** a sound shelf answers as if there were none, and stays sound. -/
theorem Sound.serve {s : Shelf} (hs : s.Sound) (use : Use) :
    (s.serve use).1 = use.answer ∧ (s.serve use).2.Sound := by
  cases use with
  | fetch pattern =>
      obtain ⟨answer, kept⟩ := hs.fetch pattern
      exact ⟨congrArg Answer.fetched answer, kept⟩
  | decide statement request =>
      obtain ⟨answer, kept⟩ := statement.decideBy_eq_decide supply_faithful request hs
      exact ⟨congrArg Answer.decided answer, kept⟩
  | clear => exact ⟨rfl, sound_clear s⟩

/-- A whole session on a sound shelf: the answers of its uses without a shelf, and a sound shelf at the end. -/
theorem Sound.serveAll {s : Shelf} (hs : s.Sound) (uses : List Use) :
    (s.serveAll uses).1 = uses.map Use.answer ∧ (s.serveAll uses).2.Sound := by
  induction uses generalizing s with
  | nil => exact ⟨rfl, hs⟩
  | cons use uses ih =>
      obtain ⟨answer, kept⟩ := hs.serve use
      obtain ⟨answers, keptAll⟩ := ih kept
      refine ⟨?_, keptAll⟩
      show (s.serve use).1 :: ((s.serve use).2.serveAll uses).1 = use.answer :: uses.map Use.answer
      rw [answer, answers]

/-- **Sessions are transparent.** Whatever room a new shelf has, none included, each use in a session on it answers
    what it answers with no shelf at all: the same compiled pattern or refusal, the same decision or fault. -/
theorem serveAll_answers (capacity : Nat) (uses : List Use) :
    ((ofCapacity capacity).serveAll uses).1 = uses.map Use.answer :=
  ((sound_ofCapacity capacity).serveAll uses).1

end Shelf

end AccessPolicy
