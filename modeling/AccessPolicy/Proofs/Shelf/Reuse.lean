import AccessPolicy.Proofs.Shelf.Recency

/-!
# Reuse: when a lookup gives the pattern of an earlier one

Two lookups of one text may give the very same compiled pattern, or the second may find that the pattern is gone and
compile another. Which of them happens depends on what was looked up in between, by decisions too, and on how much room
there is. The stamps tell the cases apart: each compilation gets a stamp of its own.

To speak of what single lookups were given, a session is run on a shelf that keeps a *log*: its events in order, each
with the entry that was handed out, if any was. The log changes nothing (`Logged.shelf_serveAll`), and its events are
those of the session (`record_events`).

Between two lookups of a text that succeed, with no such lookup of it in between, the text moves back by one place
for every other text that is looked up for the first time. So it is still there exactly if these are fewer than there
is room for and nothing was cleared (`Shelf.reused_iff`). One half is recency, seen from the first of the two lookups
(`mem_keys_iff`). The other is that what is kept under a key stays the same as long as the key is not looked up
(`mem_entries_of_not_lookup`), and that a new stamp is larger than all that were given before (`Stamped`).

Contents:
* `Logged`, `Logged.serveAll`, `history` — sessions with a log;
* `Shelf.record`, `record_split` — the log of events on a shelf, cut at one of them;
* `recent_append_lookup`, `Shelf.mem_keys_iff` — which keys are left after a lookup and more events;
* `Shelf.Stamped`, `Shelf.mem_entries_of_not_lookup`, and **`Shelf.reused_iff`**.
-/

namespace AccessPolicy

/-! ## Sessions with a log -/

/-- An event, with the entry that was handed out at it. -/
abbrev Shelf.Happening := Event × Option Shelf.Entry

/-- A shelf that keeps a log of what happens to it, the latest last. -/
structure Logged where
  shelf : Shelf
  log : List Shelf.Happening

namespace Logged

/-- A lookup on the shelf, with what it gives put into the log. -/
def fetch (l : Logged) (key : String) : Except Pattern.Fault Shelf.Entry × Logged :=
  let (found, s) := l.shelf.fetch key
  (found, ⟨s, l.log ++ [(.lookup key, found.toOption)]⟩)

/-- A shelf with a log, as a supply of compiled patterns. -/
def supply : Supply Logged := fun pattern l =>
  let (found, l) := l.fetch pattern
  (found.map (·.pattern), l)

/-- One use of the shelf. -/
def serve (l : Logged) : Use → Logged
  | .fetch pattern => (l.fetch pattern).2
  | .decide statement request => (statement.decideBy supply request l).2
  | .clear => ⟨l.shelf.clear, l.log ++ [(.clear, none)]⟩

/-- The uses of a session one after another. -/
def serveAll (l : Logged) (uses : List Use) : Logged :=
  uses.foldl serve l

end Logged

/-- The log of a session on a new shelf. -/
def history (capacity : Nat) (uses : List Use) : List Shelf.Happening :=
  (Logged.serveAll ⟨Shelf.ofCapacity capacity, []⟩ uses).log

namespace Shelf

/-- The entry that a shelf hands out at an event. -/
def handsOut (s : Shelf) : Event → Option Entry
  | .lookup key => (s.fetch key).1.toOption
  | .clear => none

/-- The log of events on a shelf. -/
def record : Shelf → List Event → List Happening
  | _, [] => []
  | s, event :: events => (event, s.handsOut event) :: (s.after event).record events

@[simp] theorem record_events (s : Shelf) (events : List Event) : (s.record events).map (·.1) = events := by
  induction events generalizing s with
  | nil => rfl
  | cons event events ih => rw [record, List.map_cons, ih]

/-- A log is cut at one of its members where the events are cut. -/
theorem record_split {s : Shelf} {events : List Event} {before after : List Happening} {found : Happening}
    (h : s.record events = before ++ found :: after) :
    ∃ earlier later, events = earlier ++ found.1 :: later ∧ before = s.record earlier ∧
      found.2 = (s.afterAll earlier).handsOut found.1 ∧
      after = ((s.afterAll earlier).after found.1).record later := by
  induction events generalizing s before with
  | nil => simp [record] at h
  | cons event events ih =>
      cases before with
      | nil =>
          obtain ⟨rfl, rfl⟩ := List.cons.inj h
          exact ⟨[], events, rfl, rfl, rfl, rfl⟩
      | cons first before =>
          obtain ⟨rfl, hrest⟩ := List.cons.inj h
          obtain ⟨earlier, later, rfl, rfl, hfound, hafter⟩ := ih hrest
          exact ⟨event :: earlier, later, rfl, rfl, hfound, hafter⟩

end Shelf

namespace Logged

theorem serve_fetch_eq (l : Logged) (key : String) :
    (l.fetch key).2 = ⟨l.shelf.after (.lookup key), l.log ++ l.shelf.record [.lookup key]⟩ := rfl

/-- A sound shelf with a log is a faithful supply. -/
theorem supply_faithful : Supply.Faithful supply (·.shelf.Sound) where
  answers pattern _ hs := (hs.fetch pattern).1
  keeps pattern _ hs := (hs.fetch pattern).2

theorem askAll_eq (l : Logged) (patterns : List String) :
    supply.askAll patterns l =
      ⟨l.shelf.afterAll (patterns.map .lookup), l.log ++ l.shelf.record (patterns.map .lookup)⟩ := by
  induction patterns generalizing l with
  | nil => simp [Supply.askAll, Shelf.afterAll, Shelf.record]
  | cons pattern patterns ih =>
      show supply.askAll patterns (l.fetch pattern).2 = _
      rw [ih, serve_fetch_eq, List.append_assoc]
      rfl

/-- A use does to a shelf with a log what its events do, and logs them. -/
theorem serve_eq {l : Logged} (hs : l.shelf.Sound) (use : Use) :
    l.serve use = ⟨l.shelf.afterAll use.events, l.log ++ l.shelf.record use.events⟩ := by
  cases use with
  | fetch pattern => exact l.serve_fetch_eq pattern
  | decide statement request =>
      show (statement.decideBy supply request l).2 = _
      rw [statement.decideBy_leaves supply_faithful request hs, askAll_eq]
      rfl
  | clear => rfl

theorem record_append (s : Shelf) (earlier later : List Event) :
    s.record (earlier ++ later) = s.record earlier ++ (s.afterAll earlier).record later := by
  induction earlier generalizing s with
  | nil => rfl
  | cons event earlier ih => rw [List.cons_append, Shelf.record, ih, Shelf.record]; rfl

/-- A session does to a shelf with a log what its events do, and logs them. -/
theorem serveAll_eq {l : Logged} (hs : l.shelf.Sound) (uses : List Use) :
    l.serveAll uses =
      ⟨l.shelf.afterAll (uses.flatMap Use.events), l.log ++ l.shelf.record (uses.flatMap Use.events)⟩ := by
  induction uses generalizing l with
  | nil => simp [serveAll, Shelf.afterAll, Shelf.record]
  | cons use uses ih =>
      have hkept : (l.serve use).shelf.Sound := by
        rw [serve_eq hs, ← hs.serve_leaves use]
        exact (hs.serve use).2
      show (l.serve use).serveAll uses = _
      rw [ih hkept, serve_eq hs, List.flatMap_cons, Shelf.afterAll_append, record_append, List.append_assoc]

/-- **Keeping a log changes nothing:** a session leaves the same shelf with it as without. -/
theorem shelf_serveAll {l : Logged} (hs : l.shelf.Sound) (uses : List Use) :
    (l.serveAll uses).shelf = (l.shelf.serveAll uses).2 := by
  rw [serveAll_eq hs, hs.serveAll_leaves]

end Logged

theorem history_eq (capacity : Nat) (uses : List Use) :
    history capacity uses = (Shelf.ofCapacity capacity).record (uses.flatMap Use.events) := by
  rw [history, Logged.serveAll_eq (Shelf.sound_ofCapacity capacity)]
  exact List.nil_append _

/-! ## Recency, seen from a lookup -/

theorem recent_append_of_mem {later : List Event} (h : Event.clear ∈ later) (earlier : List Event) :
    recent (earlier ++ later) = recent later := by
  rw [recent, recent, successes, successes, sinceClear_append_of_mem h]

/-- A text that is recent was looked up. -/
theorem lookup_mem_of_mem_recent {key : String} {events : List Event} (h : key ∈ recent events) :
    .lookup key ∈ events := by
  obtain ⟨event, hevent, hkey⟩ := List.mem_filterMap.mp (List.mem_eraseDups.mp h)
  have hmem : event ∈ events := List.mem_reverse.mp ((List.takeWhile_prefix _).subset hevent)
  cases event with
  | clear => exact absurd hkey (by simp [Event.success?])
  | lookup k =>
      obtain rfl : k = key := by
        rw [Event.success?] at hkey
        split at hkey
        · exact Option.some.inj hkey
        · exact absurd hkey (by simp)
      exact hmem

/-- **A text and what was looked up after it:** in front of it in the order of recency there are just the texts of the
    later lookups. -/
theorem recent_append_lookup {key : String} {p : Pattern} (hcompiled : Pattern.compile key = .ok p)
    {later : List Event} (hclear : Event.clear ∉ later) (hlookup : .lookup key ∉ later) (earlier : List Event) :
    ∃ behind, recent (earlier ++ .lookup key :: later) = recent later ++ key :: behind := by
  have hsince : sinceClear (earlier ++ .lookup key :: later) =
      sinceClear later ++ .lookup key :: sinceClear earlier := by
    rw [List.append_cons, sinceClear_append_of_not_mem hclear, sinceClear_append_lookup, sinceClear_of_not_mem hclear]
  have hnot : key ∉ successes later := by
    intro hmem
    exact hlookup (lookup_mem_of_mem_recent (List.mem_eraseDups.mpr hmem))
  refine ⟨(((successes earlier).removeAll (successes later)).filter fun k => !k == key).eraseDups, ?_⟩
  rw [recent, successes, hsince, List.filterMap_append, List.filterMap_cons_some (Event.success?_of_ok hcompiled),
    List.eraseDups_append]
  show recent later ++ ((key :: successes earlier).removeAll (successes later)).eraseDups = _
  rw [List.cons_removeAll, if_pos (by simpa using hnot), List.eraseDups_cons]

namespace Shelf

/-- With no repetition, a key is among the first so many exactly if fewer are in front of it. -/
theorem mem_take_append_cons_iff {key : String} {front : List String} (h : key ∉ front) (behind : List String)
    (n : Nat) : key ∈ (front ++ key :: behind).take n ↔ front.length < n := by
  rw [List.take_append, List.mem_append]
  constructor
  · rintro (hfront | hmem)
    · exact absurd (List.mem_of_mem_take hfront) h
    · by_contra hle
      rw [Nat.sub_eq_zero_of_le (Nat.le_of_not_lt hle), List.take_zero] at hmem
      exact absurd hmem List.not_mem_nil
  · intro hlt
    obtain ⟨m, hm⟩ : ∃ m, n - front.length = m + 1 := ⟨n - front.length - 1, by omega⟩
    rw [hm, List.take_succ_cons]
    exact Or.inr List.mem_cons_self

/-- **What is left of a lookup after more events:** its key, if there was no clearing and fewer other texts were looked
    up than there is room for. -/
theorem mem_keys_iff {s : Shelf} {earlier later : List Event} {key : String} {p : Pattern}
    (hs : s.Holding (earlier ++ .lookup key :: later)) (hcompiled : Pattern.compile key = .ok p)
    (hlookup : .lookup key ∉ later) :
    key ∈ s.keys ↔ Event.clear ∉ later ∧ (recent later).length < s.capacity := by
  have hnot : key ∉ recent later := fun hmem => hlookup (lookup_mem_of_mem_recent hmem)
  rw [hs.keys_eq]
  by_cases hclear : Event.clear ∈ later
  · have hgone : recent (earlier ++ .lookup key :: later) = recent later := by
      rw [List.append_cons, recent_append_of_mem hclear]
    rw [hgone]
    constructor
    · intro hmem
      exact absurd (List.mem_of_mem_take hmem) hnot
    · rintro ⟨hno, -⟩
      exact absurd hclear hno
  · obtain ⟨behind, hrecent⟩ := recent_append_lookup hcompiled hclear hlookup earlier
    rw [hrecent, mem_take_append_cons_iff hnot]
    exact ⟨fun hlt => ⟨hclear, hlt⟩, fun h => h.2⟩

/-! ## What is kept under a key, and its stamp -/

theorem mem_keys_of_find? {s : Shelf} {key : String} {e : Entry} (h : s.find? key = some e) : key ∈ s.keys := by
  obtain ⟨hmem, rfl⟩ := mem_and_key_of_find? h
  exact List.mem_map_of_mem hmem

theorem not_mem_keys_of_find? {s : Shelf} {key : String} (h : s.find? key = none) : key ∉ s.keys := by
  intro hmem
  obtain ⟨e, he, rfl⟩ := List.mem_map.mp hmem
  have hfind : s.entries.find? (·.key == e.key) = none := h
  exact absurd (List.find?_eq_none.mp hfind e he) (by simp)

/-- What is on a shelf after an event, under a key that the event does not look up, was there before. -/
theorem mem_entries_of_after {s : Shelf} {event : Event} {e : Entry} (hevent : event ≠ .lookup e.key)
    (h : e ∈ (s.after event).entries) : e ∈ s.entries := by
  cases event with
  | clear => exact absurd h List.not_mem_nil
  | lookup key =>
      have hkey : e.key ≠ key := fun he => hevent (he ▸ rfl)
      rw [after] at h
      rcases s.fetch_cases key with ⟨found, hfound, hfetch⟩ | ⟨f, -, -, hfetch⟩ | ⟨p, -, -, hfetch⟩
      · rw [hfetch] at h
        rcases mem_entries_putFirst h with rfl | hold
        · exact absurd (mem_and_key_of_find? hfound).2 hkey
        · exact hold
      · rw [hfetch] at h
        exact h
      · rw [hfetch] at h
        rcases mem_entries_putFirst h with rfl | hold
        · exact absurd rfl hkey
        · exact hold

/-- **What is kept under a key stays the same** as long as the key is not looked up. -/
theorem mem_entries_of_not_lookup {s : Shelf} {events : List Event} {e : Entry} (hevents : .lookup e.key ∉ events)
    (h : e ∈ (s.afterAll events).entries) : e ∈ s.entries := by
  induction events generalizing s with
  | nil => exact h
  | cons event events ih =>
      have hrest : e ∈ (s.after event).entries := ih (fun hmem => hevents (List.mem_cons_of_mem event hmem)) h
      exact mem_entries_of_after (fun he => hevents (he ▸ List.mem_cons_self)) hrest

/-- Every stamp on the shelf was given before. -/
def Stamped (s : Shelf) : Prop :=
  ∀ e ∈ s.entries, e.stamp < s.nextStamp

/-- An event gives stamps in order, and takes none back. -/
theorem Stamped.after {s : Shelf} (hs : s.Stamped) (event : Event) :
    (s.after event).Stamped ∧ s.nextStamp ≤ (s.after event).nextStamp := by
  cases event with
  | clear => exact ⟨List.forall_mem_nil _, Nat.le_refl _⟩
  | lookup key =>
      rw [Shelf.after]
      rcases s.fetch_cases key with ⟨found, hfound, hfetch⟩ | ⟨f, -, -, hfetch⟩ | ⟨p, -, -, hfetch⟩
      · rw [hfetch]
        refine ⟨fun e he => ?_, Nat.le_refl _⟩
        rcases mem_entries_putFirst he with rfl | hold
        · exact hs e (mem_and_key_of_find? hfound).1
        · exact hs e hold
      · rw [hfetch]
        exact ⟨hs, Nat.le_refl _⟩
      · rw [hfetch]
        refine ⟨fun e he => ?_, Nat.le_succ _⟩
        rcases mem_entries_putFirst he with rfl | hold
        · exact Nat.lt_succ_self s.nextStamp
        · exact Nat.lt_succ_of_lt (hs e hold)

theorem Stamped.afterAll {s : Shelf} (hs : s.Stamped) (events : List Event) :
    (s.afterAll events).Stamped ∧ s.nextStamp ≤ (s.afterAll events).nextStamp := by
  induction events generalizing s with
  | nil => exact ⟨hs, Nat.le_refl _⟩
  | cons event events ih =>
      obtain ⟨hnext, hle⟩ := hs.after event
      obtain ⟨hall, hleAll⟩ := ih hnext
      exact ⟨hall, Nat.le_trans hle hleAll⟩

/-- An entry that is handed out has been stamped, and is the only one under its key. -/
theorem handed_out {s : Shelf} (hs : s.Stamped) {key : String} {e : Entry}
    (h : s.handsOut (.lookup key) = some e) :
    e.key = key ∧ e.stamp < (s.after (.lookup key)).nextStamp ∧
      ∀ e' ∈ (s.after (.lookup key)).entries, e'.key = key → e' = e := by
  have only {e : Entry} (hkey : e.key = key) : ∀ e' ∈ (s.putFirst e).entries, e'.key = key → e' = e := by
    intro e' hmem hkey'
    rcases List.mem_cons.mp (List.mem_of_mem_take hmem) with rfl | hrest
    · rfl
    · have hne := (List.mem_filter.mp hrest).2
      rw [hkey, hkey'] at hne
      exact absurd hne (by simp)
  rw [handsOut] at h
  rw [after]
  rcases s.fetch_cases key with ⟨found, hfound, hfetch⟩ | ⟨f, -, -, hfetch⟩ | ⟨p, -, -, hfetch⟩
  · rw [hfetch] at h ⊢
    obtain rfl : found = e := Option.some.inj h
    obtain ⟨hmem, hkey⟩ := mem_and_key_of_find? hfound
    exact ⟨hkey, hs found hmem, only hkey⟩
  · rw [hfetch] at h
    exact absurd h (by simp [Except.toOption])
  · rw [hfetch] at h ⊢
    obtain rfl : (⟨key, p, s.nextStamp⟩ : Entry) = e := Option.some.inj h
    exact ⟨rfl, Nat.lt_succ_self _, only rfl⟩

/-! ## Reuse -/

/-- **A lookup after an earlier one** is given the same entry exactly if the key is still on the shelf. -/
theorem stamp_eq_iff {s : Shelf} (hs : s.Stamped) {key : String} {later : List Event}
    (hlookup : .lookup key ∉ later) {e₁ e₂ : Entry} (hfirst : s.handsOut (.lookup key) = some e₁)
    (hsecond : ((s.after (.lookup key)).afterAll later).handsOut (.lookup key) = some e₂) :
    e₁.stamp = e₂.stamp ↔ key ∈ ((s.after (.lookup key)).afterAll later).keys := by
  obtain ⟨-, hgiven, honly⟩ := handed_out hs hfirst
  obtain ⟨-, hgrown⟩ := (hs.after (.lookup key)).1.afterAll later
  rw [handsOut] at hsecond
  rcases fetch_cases ((s.after (.lookup key)).afterAll later) key with
    ⟨found, hfound, hfetch⟩ | ⟨f, -, -, hfetch⟩ | ⟨p, hgone, -, hfetch⟩
  · rw [hfetch] at hsecond
    obtain rfl : found = e₂ := Option.some.inj hsecond
    obtain ⟨hmem, rfl⟩ := mem_and_key_of_find? hfound
    obtain rfl : found = e₁ := honly found (mem_entries_of_not_lookup hlookup hmem) rfl
    exact iff_of_true rfl (mem_keys_of_find? hfound)
  · rw [hfetch] at hsecond
    exact absurd hsecond (by simp [Except.toOption])
  · rw [hfetch] at hsecond
    obtain rfl : (⟨key, p, _⟩ : Entry) = e₂ := Option.some.inj hsecond
    -- The new stamp is larger than any given before.
    refine iff_of_false (fun heq => ?_) (not_mem_keys_of_find? hgone)
    simp only at heq
    omega

/-- On a sound shelf a lookup is given an entry exactly if its text compiles. -/
theorem Sound.handsOut_key {s : Shelf} (hs : s.Sound) (event : Event) :
    (s.handsOut event).map (·.key) = event.success? := by
  cases event with
  | clear => rfl
  | lookup key =>
      rw [handsOut, Event.success?]
      rcases s.fetch_cases key with ⟨found, hfound, hfetch⟩ | ⟨f, -, hcompiled, hfetch⟩ | ⟨p, -, hcompiled, hfetch⟩
      · obtain ⟨hmem, rfl⟩ := mem_and_key_of_find? hfound
        rw [hfetch, hs found hmem]
        rfl
      · rw [hfetch, hcompiled]
        rfl
      · rw [hfetch, hcompiled]
        rfl

/-- A text for which an entry is handed out compiles. -/
theorem Sound.compile_of_handsOut {s : Shelf} (hs : s.Sound) {key : String} {e : Entry}
    (h : s.handsOut (.lookup key) = some e) : ∃ p, Pattern.compile key = .ok p := by
  have hsuccess := hs.handsOut_key (.lookup key)
  rw [h, Event.success?] at hsuccess
  cases hcompiled : Pattern.compile key with
  | ok p => exact ⟨p, rfl⟩
  | error f =>
      rw [hcompiled] at hsuccess
      exact absurd hsuccess (by simp [Except.isOk, Except.toBool])

/-- The keys that a log says were handed out are the texts of the lookups that succeed. -/
theorem Sound.filterMap_record {s : Shelf} (hs : s.Sound) (events : List Event) :
    (s.record events).filterMap (fun found => found.2.map (·.key)) = events.filterMap Event.success? := by
  induction events generalizing s with
  | nil => rfl
  | cons event events ih => simp only [record, List.filterMap_cons, hs.handsOut_key, ih (hs.after event)]

/-- A lookup of a text that compiles is logged with what it was given. -/
theorem Sound.exists_mem_record {s : Shelf} (hs : s.Sound) {key : String} {p : Pattern}
    (hcompiled : Pattern.compile key = .ok p) {events : List Event} (h : .lookup key ∈ events) :
    ∃ e, (.lookup key, some e) ∈ s.record events := by
  induction events generalizing s with
  | nil => exact absurd h List.not_mem_nil
  | cons event events ih =>
      rcases List.mem_cons.mp h with rfl | hrest
      · have hsuccess := hs.handsOut_key (.lookup key)
        rw [Event.success?, hcompiled] at hsuccess
        obtain ⟨e, he, -⟩ := Option.map_eq_some_iff.mp hsuccess
        exact ⟨e, List.mem_cons.mpr (Or.inl (by rw [he]))⟩
      · obtain ⟨e, he⟩ := ih (hs.after event) hrest
        exact ⟨e, List.mem_cons_of_mem _ he⟩

/-- As long as nothing is cleared, the distinct texts of the lookups that succeed are those that are recent; in which
    order they are taken does not matter for how many there are. -/
theorem length_recent {events : List Event} (h : Event.clear ∉ events) :
    (recent events).length = (events.filterMap Event.success?).eraseDups.length := by
  refine List.Perm.length_eq ((List.perm_ext_iff_of_nodup (nodup_recent events) (nodup_eraseDups _)).mpr fun key => ?_)
  rw [recent, successes, sinceClear_of_not_mem h, List.mem_eraseDups, List.mem_eraseDups, List.filterMap_reverse, List.mem_reverse]

/-- **Two lookups of one text,** with none that succeeds in between: the second is given the entry of the first exactly
    if nothing was cleared in between and few enough distinct texts were looked up with success. -/
theorem Holding.stamp_eq_iff {s : Shelf} {earlier later : List Event} (hs : s.Holding earlier) (hstamped : s.Stamped)
    {key : String} {e₁ e₂ : Entry} (hfirst : s.handsOut (.lookup key) = some e₁)
    (hbetween : ∀ e, (.lookup key, some e) ∉ (s.after (.lookup key)).record later)
    (hsecond : ((s.after (.lookup key)).afterAll later).handsOut (.lookup key) = some e₂) :
    e₁.stamp = e₂.stamp ↔
      Event.clear ∉ later ∧ (later.filterMap Event.success?).eraseDups.length < s.capacity := by
  have hsound : (s.after (.lookup key)).Sound := hs.sound.after (.lookup key)
  -- The text compiles, so that any lookup of it in between would have succeeded.
  obtain ⟨p, hcompiled⟩ := hs.sound.compile_of_handsOut hfirst
  have hlookup : .lookup key ∉ later := by
    intro hmem
    obtain ⟨e, he⟩ := hsound.exists_mem_record hcompiled hmem
    exact hbetween e he
  have hlast : ((s.after (.lookup key)).afterAll later).Holding (earlier ++ .lookup key :: later) := by
    have hall := (hs.after (.lookup key)).afterAll later
    rwa [List.append_assoc, List.singleton_append] at hall
  have hcapacity : ((s.after (.lookup key)).afterAll later).capacity = s.capacity := by
    rw [capacity_afterAll, capacity_after]
  rw [Shelf.stamp_eq_iff hstamped hlookup hfirst hsecond, mem_keys_iff hlast hcompiled hlookup, hcapacity]
  constructor
  · rintro ⟨hno, hlt⟩
    exact ⟨hno, by rwa [← length_recent hno]⟩
  · rintro ⟨hno, hlt⟩
    exact ⟨hno, by rwa [length_recent hno]⟩

/-- **When a lookup is given the pattern of an earlier one.** Take any session on a new shelf, with whatever room (none
    counts as room for one), and two lookups in it of one text that succeed, with no such lookup of the text in
    between; lookups that decisions make count like any other. The second is given the very pattern that the first was
    given if and only if nothing was cleared between them and fewer distinct texts than there is room for were looked
    up with success between them. -/
theorem reused_iff {capacity : Nat} {uses : List Use} {before between after : List Happening} {key : String}
    {e₁ e₂ : Entry}
    (h : history capacity uses =
      before ++ (.lookup key, some e₁) :: (between ++ (.lookup key, some e₂) :: after))
    (hbetween : ∀ e, (.lookup key, some e) ∉ between) :
    e₁.stamp = e₂.stamp ↔
      Event.clear ∉ between.map (·.1) ∧
        (between.filterMap fun found => found.2.map (·.key)).eraseDups.length < max capacity 1 := by
  rw [history_eq] at h
  obtain ⟨earlier, rest, -, -, hfirst, hrest⟩ := record_split h
  obtain ⟨later, last, -, rfl, hsecond, -⟩ := record_split hrest.symm
  have hnew : (ofCapacity capacity).Stamped := List.forall_mem_nil _
  have hholding := (holding_ofCapacity capacity).afterAll earlier
  have hcapacity : ((ofCapacity capacity).afterAll earlier).capacity = max capacity 1 := capacity_afterAll _ _
  rw [hholding.stamp_eq_iff (hnew.afterAll earlier).1 hfirst.symm hbetween hsecond.symm, record_events,
    (hholding.sound.after (.lookup key)).filterMap_record, hcapacity]

/-- The entry of a word without special characters. -/
def wordEntry (word : String) (stamp : Nat) : Entry :=
  ⟨word, ⟨word, [.exact word.toList]⟩, stamp⟩

/-- Two lookups of one text, with a decision in between that tries two other patterns. -/
def aroundDecision : List Use :=
  [.fetch "wiki",
    .decide ⟨.allow, ["read", "write"], ["docs"], none, by decide, by decide⟩ ⟨"read", "docs", none, none⟩,
    .fetch "wiki"]

/-- What the decision looks up: the action pattern that accepts, and the resource pattern. -/
def duringDecision : List Happening :=
  [(.lookup "read", some (wordEntry "read" 1)), (.lookup "docs", some (wordEntry "docs" 2))]

/-- With room for two, the two patterns of the decision push off the text, and it is compiled again. -/
theorem reused_iff_aroundDecision :
    history 2 aroundDecision = [] ++ (.lookup "wiki", some (wordEntry "wiki" 0)) ::
        (duringDecision ++ (.lookup "wiki", some (wordEntry "wiki" 3)) :: []) ∧
      (∀ e, (.lookup "wiki", some e) ∉ duringDecision) ∧
      ((wordEntry "wiki" 0).stamp = (wordEntry "wiki" 3).stamp ↔
        Event.clear ∉ duringDecision.map (·.1) ∧
          (duringDecision.filterMap fun found => found.2.map (·.key)).eraseDups.length < max 2 1) := by
  have hhistory : history 2 aroundDecision = [] ++ (.lookup "wiki", some (wordEntry "wiki" 0)) ::
      (duringDecision ++ (.lookup "wiki", some (wordEntry "wiki" 3)) :: []) := by decide +kernel
  have hbetween : ∀ e, (.lookup "wiki", some e) ∉ duringDecision := by simp [duringDecision]
  exact ⟨hhistory, hbetween, reused_iff hhistory hbetween⟩

/-- With room for three it is not. -/
example : (history 3 aroundDecision).map (fun found => found.2.map (·.stamp)) = [some 0, some 1, some 2, some 0] := by
  decide +kernel

end Shelf

end AccessPolicy
