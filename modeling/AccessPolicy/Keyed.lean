/-!
# Keyed tables

Tables from text keys to values, kept in increasing key order. The order of keys is by code point, which is also
the order of their UTF-8 bytes; whatever lists a table lists it in this order.

Contents:
* `insertEntry`, `sortEntries`, `lookup?`, `mapValues` on bare lists of entries, as record values hold them;
* `Keyed` — a list of entries with its order, and the operations on it.
-/

namespace AccessPolicy

variable {α : Type}

/-! ## Bare lists of entries -/

/-- Puts a value under a key, in key order, replacing what was there. -/
def insertEntry (key : String) (value : α) : List (String × α) → List (String × α)
  | [] => [(key, value)]
  | (k, v) :: rest =>
    if key < k then (key, value) :: (k, v) :: rest
    else if k < key then (k, v) :: insertEntry key value rest
    else (key, value) :: rest

/-- The entries in key order; of entries with one key, the last. -/
def sortEntries (entries : List (String × α)) : List (String × α) :=
  entries.foldl (fun sorted entry => insertEntry entry.1 entry.2 sorted) []

/-- The value of the first entry with a key. -/
def lookup? (key : String) : List (String × α) → Option α
  | [] => none
  | (k, v) :: rest => if k = key then some v else lookup? key rest

/-- What is put under a key is found there; under other keys nothing changes. -/
theorem lookup?_insertEntry (key wanted : String) (value : α) (entries : List (String × α)) :
    lookup? wanted (insertEntry key value entries) =
      if key = wanted then some value else lookup? wanted entries := by
  induction entries with
  | nil => rfl
  | cons first rest ih =>
    obtain ⟨k, v⟩ := first
    unfold insertEntry
    split
    · rfl
    · split
      · rename_i hlt
        have hne : k ≠ key := String.ne_of_lt hlt
        grind [lookup?]
      · rename_i hle hge
        have hkey : k = key := String.le_antisymm (String.not_lt.1 hle) (String.not_lt.1 hge)
        grind [lookup?]

/-- Keys strictly increase. -/
def Increasing (entries : List (String × α)) : Prop :=
  entries.Pairwise fun a b => a.1 < b.1

theorem mem_insertEntry {key : String} {value : α} {entries : List (String × α)} {e : String × α}
    (h : e ∈ insertEntry key value entries) : e = (key, value) ∨ e ∈ entries := by
  induction entries with
  | nil => simpa [insertEntry] using h
  | cons first rest ih =>
    unfold insertEntry at h
    split at h
    · simpa using h
    · split at h
      · rcases List.mem_cons.1 h with h | h
        · exact Or.inr (h ▸ List.mem_cons_self)
        · exact (ih h).imp id (List.mem_cons_of_mem _)
      · rcases List.mem_cons.1 h with h | h
        · exact Or.inl h
        · exact Or.inr (List.mem_cons_of_mem _ h)

theorem Increasing.insertEntry {entries : List (String × α)} (h : Increasing entries) (key : String) (value : α) :
    Increasing (insertEntry key value entries) := by
  induction entries with
  | nil => exact List.pairwise_singleton _ _
  | cons first rest ih =>
    obtain ⟨k, v⟩ := first
    obtain ⟨before, ordered⟩ := List.pairwise_cons.1 h
    unfold AccessPolicy.insertEntry
    split
    · rename_i hlt
      refine List.pairwise_cons.2 ⟨fun e he => ?_, h⟩
      rcases List.mem_cons.1 he with rfl | he
      · exact hlt
      · exact String.lt_trans hlt (before e he)
    · split
      · rename_i hlt
        refine List.pairwise_cons.2 ⟨fun e he => ?_, ih ordered⟩
        rcases mem_insertEntry he with rfl | he
        · exact hlt
        · exact before e he
      · rename_i hle hge
        have hkey : k = key := String.le_antisymm (String.not_lt.1 hle) (String.not_lt.1 hge)
        exact List.pairwise_cons.2 ⟨fun e he => hkey ▸ before e he, ordered⟩

theorem Increasing.sortEntries (entries : List (String × α)) : Increasing (sortEntries entries) := by
  have step : ∀ (entries sorted : List (String × α)), Increasing sorted →
      Increasing (entries.foldl (fun sorted entry => AccessPolicy.insertEntry entry.1 entry.2 sorted) sorted) := by
    intro entries
    induction entries with
    | nil => exact fun _ h => h
    | cons e entries ih => exact fun sorted h => ih _ (h.insertEntry e.1 e.2)
  exact step entries [] List.Pairwise.nil

/-- What is put under the largest key comes last. -/
theorem insertEntry_of_lt {key : String} {entries : List (String × α)} (h : ∀ e ∈ entries, e.1 < key) (value : α) :
    insertEntry key value entries = entries ++ [(key, value)] := by
  induction entries with
  | nil => rfl
  | cons first rest ih =>
    obtain ⟨k, v⟩ := first
    have hlt : k < key := h (k, v) List.mem_cons_self
    have hrest : insertEntry key value rest = rest ++ [(key, value)] :=
      ih fun e he => h e (List.mem_cons_of_mem _ he)
    rw [insertEntry, if_neg (String.lt_asymm hlt), if_pos hlt, hrest, List.cons_append]

/-- Entries in key order stay as they are. -/
theorem sortEntries_of_increasing {entries : List (String × α)} (h : Increasing entries) :
    sortEntries entries = entries := by
  have step : ∀ (entries sorted : List (String × α)), Increasing (sorted ++ entries) →
      entries.foldl (fun sorted entry => AccessPolicy.insertEntry entry.1 entry.2 sorted) sorted =
        sorted ++ entries := by
    intro entries
    induction entries with
    | nil => exact fun sorted _ => (List.append_nil sorted).symm
    | cons e entries ih =>
      intro sorted hsorted
      have hlt : ∀ earlier ∈ sorted, earlier.1 < e.1 := fun earlier hmem =>
        (List.pairwise_append.1 hsorted).2.2 earlier hmem e List.mem_cons_self
      rw [List.append_cons] at hsorted
      rw [List.foldl_cons, insertEntry_of_lt hlt, ih _ hsorted, List.append_assoc, List.singleton_append]
  exact step entries [] h

theorem mem_of_mem_sortEntries {entries : List (String × α)} {e : String × α} (h : e ∈ sortEntries entries) :
    e ∈ entries := by
  have step : ∀ (entries sorted : List (String × α)),
      e ∈ entries.foldl (fun sorted entry => AccessPolicy.insertEntry entry.1 entry.2 sorted) sorted →
        e ∈ sorted ∨ e ∈ entries := by
    intro entries
    induction entries with
    | nil => exact fun _ h => Or.inl h
    | cons entry entries ih =>
      intro sorted h
      rcases ih _ h with hsorted | hrest
      · rcases mem_insertEntry hsorted with rfl | hsorted
        · exact Or.inr List.mem_cons_self
        · exact Or.inl hsorted
      · exact Or.inr (List.mem_cons_of_mem _ hrest)
  exact (step entries [] h).resolve_left List.not_mem_nil

/-- A member of entries in key order stands behind those with smaller keys. -/
theorem Increasing.exists_split {entries : List (String × α)} (h : Increasing entries) {e : String × α}
    (he : e ∈ entries) :
    ∃ before after, entries = before ++ e :: after ∧ ∀ earlier ∈ before, earlier ∈ entries ∧ earlier.1 < e.1 := by
  obtain ⟨before, after, rfl⟩ := List.append_of_mem he
  refine ⟨before, after, rfl, ?_⟩
  intro earlier hearlier
  exact ⟨List.mem_append_left _ hearlier, (List.pairwise_append.mp h).2.2 earlier hearlier e List.mem_cons_self⟩

/-- In key order no key comes twice, so what is found under a key is all that stands there. -/
theorem Increasing.lookup?_eq_some_iff {entries : List (String × α)} (h : Increasing entries) {key : String}
    {value : α} : lookup? key entries = some value ↔ (key, value) ∈ entries := by
  induction entries with
  | nil => simp [lookup?]
  | cons first rest ih =>
    obtain ⟨k, v⟩ := first
    obtain ⟨before, ordered⟩ := List.pairwise_cons.1 h
    rw [lookup?, List.mem_cons, Prod.mk.injEq]
    by_cases hkey : k = key
    · have hlater : (key, value) ∉ rest := fun he => String.lt_irrefl key (hkey ▸ before (key, value) he)
      rw [if_pos hkey, Option.some.injEq, eq_comm]
      simp [hkey, hlater]
    · rw [if_neg hkey, ih ordered]
      simp [Ne.symm hkey]

/-! ### Changing values -/

variable {β : Type}

/-- The entries with a function applied to their values. -/
def mapValues (f : α → β) (entries : List (String × α)) : List (String × β) :=
  entries.map fun e => (e.1, f e.2)

@[simp] theorem mapValues_cons (f : α → β) (e : String × α) (entries : List (String × α)) :
    mapValues f (e :: entries) = (e.1, f e.2) :: mapValues f entries := rfl

theorem mem_mapValues {f : α → β} {entries : List (String × α)} {e : String × β} :
    e ∈ mapValues f entries ↔ ∃ e' ∈ entries, (e'.1, f e'.2) = e :=
  List.mem_map

theorem mapValues_mapValues {γ : Type} (g : β → γ) (f : α → β) (entries : List (String × α)) :
    mapValues g (mapValues f entries) = mapValues (fun v => g (f v)) entries :=
  List.map_map

/-- Only the values change, so keys that increase still do. -/
theorem Increasing.mapValues {entries : List (String × α)} (h : Increasing entries) (f : α → β) :
    Increasing (mapValues f entries) :=
  List.pairwise_map.2 h

theorem insertEntry_mapValues (f : α → β) (key : String) (value : α) (entries : List (String × α)) :
    insertEntry key (f value) (mapValues f entries) = mapValues f (insertEntry key value entries) := by
  induction entries with
  | nil => rfl
  | cons first rest ih =>
    obtain ⟨k, v⟩ := first
    rw [mapValues_cons, insertEntry, insertEntry]
    split
    · rfl
    · split
      · rw [ih]
        rfl
      · rfl

/-- Sorting looks at keys only. -/
theorem sortEntries_mapValues (f : α → β) (entries : List (String × α)) :
    sortEntries (mapValues f entries) = mapValues f (sortEntries entries) := by
  have step : ∀ (entries sorted : List (String × α)),
      (mapValues f entries).foldl (fun sorted entry => AccessPolicy.insertEntry entry.1 entry.2 sorted)
          (mapValues f sorted) =
        mapValues f (entries.foldl (fun sorted entry => AccessPolicy.insertEntry entry.1 entry.2 sorted) sorted) := by
    intro entries
    induction entries with
    | nil => exact fun _ => rfl
    | cons e entries ih =>
      intro sorted
      rw [mapValues_cons, List.foldl_cons, List.foldl_cons]
      simp only [insertEntry_mapValues, ih]
  exact step entries []

/-! ## Tables -/

/-- A table from texts to values, in increasing key order. -/
structure Keyed (α : Type) where
  entries : List (String × α)
  increasing : Increasing entries

namespace Keyed

/-- The table without entries. -/
def empty : Keyed α := ⟨[], List.Pairwise.nil⟩

instance : Inhabited (Keyed α) := ⟨empty⟩

/-- Puts a value under a key, replacing what was there. -/
def insert (t : Keyed α) (key : String) (value : α) : Keyed α :=
  ⟨insertEntry key value t.entries, t.increasing.insertEntry key value⟩

/-- The table of some entries; of entries with one key, the last counts. -/
def ofList (entries : List (String × α)) : Keyed α :=
  ⟨sortEntries entries, Increasing.sortEntries entries⟩

/-- The value under a key. -/
def get? (t : Keyed α) (key : String) : Option α :=
  lookup? key t.entries

theorem get?_insert (t : Keyed α) (key wanted : String) (value : α) :
    (t.insert key value).get? wanted = if key = wanted then some value else t.get? wanted :=
  lookup?_insertEntry key wanted value t.entries

/-- Whether there is a value under a key. -/
def contains (t : Keyed α) (key : String) : Bool :=
  (t.get? key).isSome

/-- The keys, in increasing order. -/
def keys (t : Keyed α) : List String :=
  t.entries.map (·.1)

theorem get?_eq_some_iff {t : Keyed α} {key : String} {value : α} :
    t.get? key = some value ↔ (key, value) ∈ t.entries :=
  t.increasing.lookup?_eq_some_iff

theorem contains_iff {t : Keyed α} {key : String} : t.contains key = true ↔ ∃ value, t.get? key = some value := by
  rw [contains, Option.isSome_iff_exists]

/-- A search through the keys finds the smallest one that passes the test. -/
theorem find?_keys_eq_some_iff {t : Keyed α} {p : String → Bool} {key : String} :
    t.keys.find? p = some key ↔ key ∈ t.keys ∧ p key = true ∧ ∀ earlier ∈ t.keys, earlier < key → p earlier = false := by
  have hincreasing : t.keys.Pairwise (· < ·) := List.pairwise_map.2 t.increasing
  constructor
  · intro h
    refine ⟨List.mem_of_find?_eq_some h, List.find?_some h, ?_⟩
    obtain ⟨-, before, after, hsplit, hbefore⟩ := List.find?_eq_some_iff_append.1 h
    rw [hsplit] at hincreasing ⊢
    intro earlier hmem hlt
    rcases List.mem_append.1 hmem with hmem | hmem
    · simpa using hbefore earlier hmem
    · rcases List.mem_cons.1 hmem with rfl | hmem
      · exact absurd hlt (String.lt_irrefl earlier)
      · have hgt : key < earlier := (List.pairwise_cons.1 (List.pairwise_append.1 hincreasing).2.1).1 earlier hmem
        exact absurd hlt (String.lt_asymm hgt)
  · rintro ⟨hmem, hkey, hearlier⟩
    obtain ⟨before, after, hsplit⟩ := List.append_of_mem hmem
    refine List.find?_eq_some_iff_append.2 ⟨hkey, before, after, hsplit, fun earlier hbefore => ?_⟩
    rw [hsplit] at hincreasing
    have hlt : earlier < key := (List.pairwise_append.1 hincreasing).2.2 earlier hbefore key List.mem_cons_self
    rw [hearlier earlier (hsplit ▸ List.mem_append_left _ hbefore) hlt]
    rfl

/-- How many entries there are. -/
def size (t : Keyed α) : Nat :=
  t.entries.length

/-- Whether there are no entries. -/
def isEmpty (t : Keyed α) : Bool :=
  t.entries.isEmpty

/-- A table is the table of its entries. -/
theorem ofList_entries {entries : List (String × α)} (h : Increasing entries) : ofList entries = ⟨entries, h⟩ := by
  simp only [ofList, sortEntries_of_increasing h]

theorem isEmpty_iff {t : Keyed α} : t.isEmpty = true ↔ t.entries = [] :=
  List.isEmpty_iff

/-- The table with a function applied to its values. -/
def map {β : Type} (f : α → β) (t : Keyed α) : Keyed β :=
  ⟨mapValues f t.entries, t.increasing.mapValues f⟩

@[ext] theorem ext {s t : Keyed α} (h : s.entries = t.entries) : s = t := by
  cases s; cases t; cases h; rfl

end Keyed

end AccessPolicy
