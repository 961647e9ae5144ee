import AccessPolicy.Proofs.Pattern.Acceptance
import AccessPolicy.Proofs.Shelf.Session
import Mathlib.Data.List.Nodup
import Mathlib.Data.List.TakeWhile

/-!
# Recency: what is on a shelf

A session happens to a shelf as a sequence of *events*: lookups, and clearings. Asking for a pattern is one lookup;
deciding a request is as many as there are patterns that the decision tries, which depends on where its searches stop.
What a session does to a shelf is what its events do one after the other (`Shelf.serveAll_leaves`).

What is on the shelf at the end can be told from the events alone: the distinct texts that were looked up with success
since the last clearing, the latest first, as many of them as there is room for (`Shelf.keys_leftBy`). The invariant
behind it is the same statement at every moment (`Shelf.Holding`). A hit must move its key to the front for it, a
refused lookup must move nothing, and what falls off the end must be exactly what is least recent.

Contents:
* `tried`, `Statement.tried` — the patterns that a decision looks up;
* `Event`, `Use.events`, `recent` — events, and the texts that are recent after them;
* `Shelf.after`, `Shelf.afterAll`, `Shelf.serveAll_leaves` — events on a shelf;
* `Shelf.Holding`, kept by every event, and **`Shelf.keys_leftBy`**.
-/

namespace AccessPolicy

variable {σ : Type}

/-! ## What a decision looks up -/

/-- The patterns that a search tries: filled from the context, in order, up to the first that accepts the candidate
    or is refused. -/
def tried (context : Option Datum) (candidate : String) : List String → List String
  | [] => []
  | pattern :: rest =>
    match Pattern.matches? (fill context pattern) candidate with
    | .ok false => fill context pattern :: tried context candidate rest
    | _ => [fill context pattern]

/-- The patterns that a decision tries: those for the action and, if one of them accepts it, those for the
    resource. -/
def Statement.tried (s : Statement) (r : Request) : List String :=
  AccessPolicy.tried r.context r.action s.actions ++
    match (anyAccepts Supply.fresh r.context r.action s.actions ()).1 with
    | .ok true => AccessPolicy.tried r.context r.resource s.resources
    | _ => []

/-- The state of a supply after it was asked for some patterns. -/
def Supply.askAll (supply : Supply σ) (patterns : List String) (s : σ) : σ :=
  patterns.foldl (fun s pattern => (supply pattern s).2) s

theorem Supply.askAll_append (supply : Supply σ) (earlier later : List String) (s : σ) :
    supply.askAll (earlier ++ later) s = supply.askAll later (supply.askAll earlier s) :=
  List.foldl_append

/-- A search asks a faithful supply for what it tries, and for nothing else. -/
theorem anyAccepts_leaves {supply : Supply σ} {Inv : σ → Prop} (hf : supply.Faithful Inv) (context : Option Datum)
    (candidate : String) (patterns : List String) {s : σ} (hs : Inv s) :
    (anyAccepts supply context candidate patterns s).2 = supply.askAll (tried context candidate patterns) s := by
  induction patterns generalizing s with
  | nil => rfl
  | cons pattern rest ih =>
      have answer := hf.answers (fill context pattern) s hs
      have kept := hf.keeps (fill context pattern) s hs
      rcases hnext : supply (fill context pattern) s with ⟨found, next⟩
      rw [hnext] at answer kept
      simp only at answer
      simp only [anyAccepts, tried, hnext, Pattern.matches?, ← answer]
      cases found with
      | error f =>
          show next = (supply (fill context pattern) s).2
          rw [hnext]
      | ok p =>
          by_cases hp : p.accepts candidate = true
          · simp only [Except.map, hp, if_true]
            show next = (supply (fill context pattern) s).2
            rw [hnext]
          · rw [Bool.not_eq_true] at hp
            simp only [Except.map, hp, if_false, Bool.false_eq_true]
            rw [ih kept]
            show _ = supply.askAll (tried context candidate rest) (supply (fill context pattern) s).2
            rw [hnext]

/-- **A decision asks a faithful supply for what it tries, in order.** -/
theorem Statement.decideBy_leaves {supply : Supply σ} {Inv : σ → Prop} (hf : supply.Faithful Inv) (s : Statement)
    (r : Request) {state : σ} (hs : Inv state) :
    (s.decideBy supply r state).2 = supply.askAll (s.tried r) state := by
  have actionLeft := anyAccepts_leaves hf r.context r.action s.actions hs
  obtain ⟨actionAnswer, actionKept⟩ := anyAccepts_eq_fresh hf r.context r.action s.actions hs
  rcases haction : anyAccepts supply r.context r.action s.actions state with ⟨byAction, between⟩
  rw [haction] at actionLeft actionAnswer actionKept
  simp only [decideBy, Statement.tried, haction, ← actionAnswer]
  cases byAction with
  | error f => rw [List.append_nil]; exact actionLeft
  | ok accepted =>
      cases accepted with
      | false => rw [List.append_nil]; exact actionLeft
      | true =>
          have resourceLeft := anyAccepts_leaves hf r.context r.resource s.resources actionKept
          rw [Supply.askAll_append, ← actionLeft, ← resourceLeft]
          rcases hresource : anyAccepts supply r.context r.resource s.resources between with ⟨byResource, after⟩
          simp only [hresource]
          cases byResource with
          | error f => rfl
          | ok accepted => cases accepted <;> rfl

/-! ## Events -/

/-- What happens to a shelf: a pattern is looked up, or everything is taken off. -/
inductive Event where
  | lookup (key : String)
  | clear
  deriving DecidableEq, Repr

/-- The text of a lookup that succeeds. A lookup succeeds exactly if its text compiles. -/
def Event.success? : Event → Option String
  | .lookup key => if (Pattern.compile key).isOk then some key else none
  | .clear => none

theorem Event.success?_of_ok {key : String} {p : Pattern} (h : Pattern.compile key = .ok p) :
    success? (.lookup key) = some key := by
  rw [success?, h]
  rfl

theorem Event.success?_of_error {key : String} {f : Pattern.Fault} (h : Pattern.compile key = .error f) :
    success? (.lookup key) = none := by
  rw [success?, h]
  rfl

/-- The events of a use. -/
def Use.events : Use → List Event
  | .fetch pattern => [.lookup pattern]
  | .decide statement request => (statement.tried request).map .lookup
  | .clear => [.clear]

/-- The events since the last clearing, the latest first. -/
def sinceClear (events : List Event) : List Event :=
  events.reverse.takeWhile (· != .clear)

/-- The texts that were looked up with success since the last clearing, the latest first. -/
def successes (events : List Event) : List String :=
  (sinceClear events).filterMap Event.success?

/-- The distinct texts that were looked up with success since the last clearing, the latest first. -/
def recent (events : List Event) : List String :=
  (successes events).eraseDups

/-- What happened since the last clearing, if that is among the later events. -/
theorem sinceClear_append_of_mem {later : List Event} (h : Event.clear ∈ later) (earlier : List Event) :
    sinceClear (earlier ++ later) = sinceClear later := by
  have hstops : ¬ ∀ event ∈ later.reverse, (event != .clear) = true := by
    intro hall
    simpa using hall .clear (List.mem_reverse.mpr h)
  rw [sinceClear, List.reverse_append, List.takeWhile_append]
  split
  · rename_i hlength
    have hwhole := List.IsPrefix.eq_of_length (List.takeWhile_prefix _) hlength
    exact absurd (List.takeWhile_eq_self_iff.mp hwhole) hstops
  · rfl

/-- What happened since the last clearing, if the later events have none. -/
theorem sinceClear_append_of_not_mem {later : List Event} (h : Event.clear ∉ later) (earlier : List Event) :
    sinceClear (earlier ++ later) = later.reverse ++ sinceClear earlier := by
  have hpasses : ∀ event ∈ later.reverse, (event != .clear) = true := by
    intro event hevent
    exact bne_iff_ne.mpr fun he => h (he ▸ List.mem_reverse.mp hevent)
  rw [sinceClear, List.reverse_append, List.takeWhile_append_of_pos hpasses, sinceClear]

theorem sinceClear_of_not_mem {events : List Event} (h : Event.clear ∉ events) : sinceClear events = events.reverse := by
  have hnil := sinceClear_append_of_not_mem h []
  rwa [List.nil_append, show sinceClear [] = [] from rfl, List.append_nil] at hnil

theorem sinceClear_append_lookup (events : List Event) (key : String) :
    sinceClear (events ++ [.lookup key]) = .lookup key :: sinceClear events :=
  sinceClear_append_of_not_mem (by simp) events

/-- Leaving out members commutes with leaving out repetitions. -/
theorem eraseDups_filter (p : String → Bool) (keys : List String) :
    (keys.filter p).eraseDups = keys.eraseDups.filter p := by
  match keys with
  | [] => rfl
  | key :: keys =>
      have hshorter : (keys.filter fun k => !k == key).length ≤ keys.length := List.length_filter_le _ _
      have ih := eraseDups_filter p (keys.filter fun k => !k == key)
      rw [List.eraseDups_cons]
      by_cases hkey : p key = true
      · rw [List.filter_cons_of_pos hkey, List.filter_cons_of_pos hkey, List.eraseDups_cons, ← ih,
          List.filter_filter, List.filter_filter]
        simp only [Bool.and_comm]
      · rw [List.filter_cons_of_neg hkey, List.filter_cons_of_neg hkey, ← ih, List.filter_filter]
        -- A key that is left out anyway may be left out twice.
        congr 1
        refine List.filter_congr fun k _ => ?_
        by_cases hk : k = key
        · subst hk
          simp only [Bool.not_eq_true] at hkey
          simp [hkey]
        · simp [hk]
termination_by keys.length
decreasing_by exact Nat.lt_succ_of_le hshorter

theorem nodup_eraseDups (keys : List String) : keys.eraseDups.Nodup := by
  match keys with
  | [] => exact List.nodup_nil
  | key :: keys =>
      have hshorter : (keys.filter fun k => !k == key).length ≤ keys.length := List.length_filter_le _ _
      rw [List.eraseDups_cons, List.nodup_cons]
      refine ⟨?_, nodup_eraseDups (keys.filter fun k => !k == key)⟩
      rw [List.mem_eraseDups, List.mem_filter]
      rintro ⟨-, hne⟩
      simp at hne
termination_by keys.length
decreasing_by exact Nat.lt_succ_of_le hshorter

theorem nodup_recent (events : List Event) : (recent events).Nodup :=
  nodup_eraseDups _

@[simp] theorem recent_nil : recent [] = [] := rfl

/-- After a clearing nothing is recent. -/
@[simp] theorem recent_clear (events : List Event) : recent (events ++ [.clear]) = [] := by
  rw [recent, successes, sinceClear_append_of_mem (List.mem_singleton_self _)]
  rfl

/-- A lookup that succeeds makes its text the most recent. -/
theorem recent_lookup_of_ok {key : String} {p : Pattern} (h : Pattern.compile key = .ok p) (events : List Event) :
    recent (events ++ [.lookup key]) = key :: (recent events).filter (· != key) := by
  rw [recent, successes, sinceClear_append_lookup, List.filterMap_cons_some (Event.success?_of_ok h),
    List.eraseDups_cons, recent, ← eraseDups_filter]
  rfl

/-- A lookup that is refused changes nothing. -/
theorem recent_lookup_of_error {key : String} {f : Pattern.Fault} (h : Pattern.compile key = .error f)
    (events : List Event) : recent (events ++ [.lookup key]) = recent events := by
  rw [recent, successes, sinceClear_append_lookup, List.filterMap_cons_none (Event.success?_of_error h), recent,
    successes]

/-! ## Events on a shelf -/

namespace Shelf

/-- The keys on the shelf, the most recently used first. -/
def keys (s : Shelf) : List String :=
  s.entries.map (·.key)

/-- The shelf after an event. -/
def after (s : Shelf) : Event → Shelf
  | .lookup key => (s.fetch key).2
  | .clear => s.clear

/-- The shelf after some events. -/
def afterAll (s : Shelf) (events : List Event) : Shelf :=
  events.foldl after s

theorem afterAll_append (s : Shelf) (earlier later : List Event) :
    s.afterAll (earlier ++ later) = (s.afterAll earlier).afterAll later :=
  List.foldl_append

theorem afterAll_lookups (s : Shelf) (patterns : List String) :
    s.afterAll (patterns.map .lookup) = supply.askAll patterns s :=
  List.foldl_map

/-- A use does to a sound shelf what its events do. -/
theorem Sound.serve_leaves {s : Shelf} (hs : s.Sound) (use : Use) : (s.serve use).2 = s.afterAll use.events := by
  cases use with
  | fetch pattern => rfl
  | decide statement request =>
      show (statement.decideBy supply request s).2 = s.afterAll ((statement.tried request).map .lookup)
      rw [statement.decideBy_leaves supply_faithful request hs, afterAll_lookups]
  | clear => rfl

/-- **A session does to a shelf what its events do.** -/
theorem Sound.serveAll_leaves {s : Shelf} (hs : s.Sound) (uses : List Use) :
    (s.serveAll uses).2 = s.afterAll (uses.flatMap Use.events) := by
  induction uses generalizing s with
  | nil => rfl
  | cons use uses ih =>
      show ((s.serve use).2.serveAll uses).2 = _
      rw [ih (hs.serve use).2, hs.serve_leaves use, List.flatMap_cons, afterAll_append]

/-- **What a lookup does:** it finds the key and moves it to the front, or the text is refused and nothing happens,
    or the text is compiled and put in front under a new stamp. -/
theorem fetch_cases (s : Shelf) (key : String) :
    (∃ e, s.find? key = some e ∧ s.fetch key = (.ok e, s.putFirst e)) ∨
      (∃ f, s.find? key = none ∧ Pattern.compile key = .error f ∧ s.fetch key = (.error f, s)) ∨
      (∃ p, s.find? key = none ∧ Pattern.compile key = .ok p ∧
        s.fetch key = (.ok ⟨key, p, s.nextStamp⟩,
          { s.putFirst ⟨key, p, s.nextStamp⟩ with nextStamp := s.nextStamp + 1 })) := by
  cases hfound : s.find? key with
  | some e => exact .inl ⟨e, rfl, by rw [fetch, hfound]⟩
  | none =>
      cases hcompiled : Pattern.compile key with
      | error f => exact .inr (.inl ⟨f, rfl, rfl, by rw [fetch, hfound, hcompiled]⟩)
      | ok p => exact .inr (.inr ⟨p, rfl, rfl, by rw [fetch, hfound, hcompiled]⟩)

theorem keys_putFirst (s : Shelf) (e : Entry) :
    (s.putFirst e).keys = (e.key :: s.keys.filter (· != e.key)).take s.capacity := by
  rw [keys, putFirst, List.map_take, List.map_cons, keys, List.filter_map]
  rfl

theorem capacity_after (s : Shelf) (event : Event) : (s.after event).capacity = s.capacity := by
  cases event with
  | lookup key =>
      rcases s.fetch_cases key with ⟨e, -, h⟩ | ⟨f, -, -, h⟩ | ⟨p, -, -, h⟩ <;> rw [after, h] <;> rfl
  | clear => rfl

theorem Sound.after {s : Shelf} (hs : s.Sound) (event : Event) : (s.after event).Sound := by
  cases event with
  | lookup key => exact (hs.fetch key).2
  | clear => exact sound_clear s

/-- A text that is refused is not on a sound shelf. -/
theorem Sound.find?_of_error {s : Shelf} (hs : s.Sound) {key : String} {f : Pattern.Fault}
    (h : Pattern.compile key = .error f) : s.find? key = none := by
  cases hfound : s.find? key with
  | none => rfl
  | some e =>
      obtain ⟨hmem, rfl⟩ := mem_and_key_of_find? hfound
      have hcompiled := hs e hmem
      rw [h] at hcompiled
      exact absurd hcompiled (by simp)

/-- A lookup that is refused leaves a sound shelf as it was. -/
theorem Sound.fetch_of_error {s : Shelf} (hs : s.Sound) {key : String} {f : Pattern.Fault}
    (h : Pattern.compile key = .error f) : s.fetch key = (.error f, s) := by
  rw [Shelf.fetch, hs.find?_of_error h, h]

/-- A lookup that succeeds puts its key first, and pushes off what there is no room for. -/
theorem keys_fetch_of_ok (s : Shelf) {key : String} {p : Pattern} (h : Pattern.compile key = .ok p) :
    (s.fetch key).2.keys = (key :: s.keys.filter (· != key)).take s.capacity := by
  rcases s.fetch_cases key with ⟨e, hfound, hfetch⟩ | ⟨f, -, hrefused, -⟩ | ⟨q, -, -, hfetch⟩
  · obtain ⟨-, rfl⟩ := mem_and_key_of_find? hfound
    rw [hfetch]
    exact s.keys_putFirst e
  · rw [h] at hrefused
    exact absurd hrefused (by simp)
  · rw [hfetch]
    exact s.keys_putFirst ⟨key, q, s.nextStamp⟩

/-! ## Recency -/

/-- Of keys without repetition one is taken out: as far as there is room behind it, it does not matter whether what is
    beyond the room was cut off before. -/
theorem take_filter_take {keys : List String} (h : keys.Nodup) (key : String) (n : Nat) :
    ((keys.take (n + 1)).filter (· != key)).take n = (keys.filter (· != key)).take n := by
  induction keys generalizing n with
  | nil => rfl
  | cons k keys ih =>
      obtain ⟨hk, hrest⟩ := List.nodup_cons.mp h
      rw [List.take_succ_cons]
      by_cases heq : k = key
      · subst heq
        have hall : ∀ k' ∈ keys, (k' != k) = true := fun k' hk' => bne_iff_ne.mpr fun he => hk (he ▸ hk')
        have hcut : ∀ k' ∈ keys.take n, (k' != k) = true := fun k' hk' => hall k' (List.mem_of_mem_take hk')
        rw [List.filter_cons_of_neg (by simp), List.filter_cons_of_neg (by simp), List.filter_eq_self.mpr hall,
          List.filter_eq_self.mpr hcut, List.take_take, Nat.min_self]
      · have hne : (k != key) = true := bne_iff_ne.mpr heq
        rw [List.filter_cons_of_pos (p := (· != key)) hne, List.filter_cons_of_pos (p := (· != key)) hne]
        cases n with
        | zero => rfl
        | succ n => rw [List.take_succ_cons, List.take_succ_cons, ih hrest]

/-- **The invariant:** the shelf is sound, there is room on it, and it holds the most recent texts as far as there is
    room. -/
structure Holding (s : Shelf) (events : List Event) : Prop where
  sound : s.Sound
  room : 0 < s.capacity
  keys_eq : s.keys = (recent events).take s.capacity

theorem holding_ofCapacity (capacity : Nat) : (ofCapacity capacity).Holding [] where
  sound := sound_ofCapacity capacity
  room := Nat.lt_of_lt_of_le Nat.zero_lt_one (Nat.le_max_right capacity 1)
  keys_eq := by simp [keys, ofCapacity]

/-- **One event** keeps the invariant. -/
theorem Holding.after {s : Shelf} {events : List Event} (h : s.Holding events) (event : Event) :
    (s.after event).Holding (events ++ [event]) := by
  have hroom : 0 < (s.after event).capacity := by
    rw [capacity_after]
    exact h.room
  refine ⟨h.sound.after event, hroom, ?_⟩
  rw [capacity_after]
  cases event with
  | clear => simp [Shelf.after, clear, keys]
  | lookup key =>
      cases hcompiled : Pattern.compile key with
      | error f =>
          rw [recent_lookup_of_error hcompiled, Shelf.after, h.sound.fetch_of_error hcompiled]
          exact h.keys_eq
      | ok p =>
          obtain ⟨n, hn⟩ : ∃ n, s.capacity = n + 1 := ⟨s.capacity - 1, by have := h.room; omega⟩
          rw [recent_lookup_of_ok hcompiled, Shelf.after, s.keys_fetch_of_ok hcompiled, h.keys_eq, hn,
            List.take_succ_cons, List.take_succ_cons, take_filter_take (nodup_recent events)]

/-- All events of a run keep the invariant. -/
theorem Holding.afterAll {s : Shelf} {earlier : List Event} (h : s.Holding earlier) (events : List Event) :
    (s.afterAll events).Holding (earlier ++ events) := by
  induction events generalizing s earlier with
  | nil => rwa [List.append_nil]
  | cons event events ih =>
      have hnext := ih (h.after event)
      rwa [List.append_assoc] at hnext

theorem capacity_afterAll (s : Shelf) (events : List Event) : (s.afterAll events).capacity = s.capacity := by
  induction events generalizing s with
  | nil => rfl
  | cons event events ih => exact (ih (s.after event)).trans (s.capacity_after event)

/-- The shelf that a session on a new shelf leaves. -/
def leftBy (capacity : Nat) (uses : List Use) : Shelf :=
  ((ofCapacity capacity).serveAll uses).2

theorem leftBy_eq (capacity : Nat) (uses : List Use) :
    leftBy capacity uses = (ofCapacity capacity).afterAll (uses.flatMap Use.events) :=
  (sound_ofCapacity capacity).serveAll_leaves uses

theorem holding_leftBy (capacity : Nat) (uses : List Use) :
    (leftBy capacity uses).Holding (uses.flatMap Use.events) := by
  rw [leftBy_eq]
  exact (holding_ofCapacity capacity).afterAll (uses.flatMap Use.events)

theorem capacity_leftBy (capacity : Nat) (uses : List Use) : (leftBy capacity uses).capacity = max capacity 1 := by
  rw [leftBy_eq, capacity_afterAll]
  rfl

/-- **What is on a shelf after a session.** Whatever room a new shelf has (none counts as room for one) and whatever
    is done with it: its keys, the most recently used first, are the distinct texts that were looked up with success
    since the last clearing, the latest first, as many as there is room for. So no key is on it twice, it never holds
    more than there is room for, and a lookup that is refused leaves it as it was. -/
theorem keys_leftBy (capacity : Nat) (uses : List Use) :
    (leftBy capacity uses).keys = (recent (uses.flatMap Use.events)).take (max capacity 1) ∧
      (leftBy capacity uses).keys.Nodup ∧
      (leftBy capacity uses).capacity = max capacity 1 ∧
      (leftBy capacity uses).size ≤ (leftBy capacity uses).capacity ∧
      ∀ key f, Pattern.compile key = .error f →
        (leftBy capacity uses).fetch key = (.error f, leftBy capacity uses) := by
  have hholding := holding_leftBy capacity uses
  have hcapacity := capacity_leftBy capacity uses
  have hkeys := hholding.keys_eq
  have hnodup : (leftBy capacity uses).keys.Nodup := by
    rw [hkeys]
    exact (nodup_recent _).sublist (List.take_sublist _ _)
  have hsize : (leftBy capacity uses).size ≤ (leftBy capacity uses).capacity := by
    have hlength : (leftBy capacity uses).keys.length = (leftBy capacity uses).size := List.length_map _
    rw [← hlength, hkeys]
    exact List.length_take_le _ _
  rw [hcapacity] at hkeys
  exact ⟨hkeys, hnodup, hcapacity, hsize, fun key f h => hholding.sound.fetch_of_error h⟩

end Shelf

end AccessPolicy
