import AccessPolicy.Datum.Basic
import AccessPolicy.Proofs.Decimal.Finite
import Mathlib.Data.List.Forall2

/-!
# The shape of values

What a document keeps of a value and what it asks of it: the numbers in it, how deep lists and records are nested, and
the value itself with `null` in the place of every number that is not finite, `storable`, as documents have no way to
write such a number. A value equals the one that is kept of it exactly when all its numbers are finite
(`storable_beq_iff`).

Lists and records hold values in turn. `memberInduction` is the induction over that: what holds of a list or record when
it holds of its members holds of every value.

Contents:
* `memberInduction`;
* `numbers`, `nesting`, `storable`, each with what it is on a list and on a record;
* `Canonical` values: `Canonical.canonical_eq`, `canonical_canonical`, and what key order leaves of the above;
* **`storable_beq_iff`**.
-/

namespace AccessPolicy

namespace Datum

/-! ## Induction -/

/-- What holds of every list and record whose members have it, and of every other value, holds of every value. -/
@[elab_as_elim]
theorem memberInduction {motive : Datum → Prop} (null : motive .null) (bool : ∀ b, motive (.bool b))
    (number : ∀ x, motive (.number x)) (text : ∀ s, motive (.text s))
    (list : ∀ items, (∀ d ∈ items, motive d) → motive (.list items))
    (record : ∀ entries, (∀ e ∈ entries, motive e.2) → motive (.record entries)) (d : Datum) : motive d :=
  @Datum.rec motive (fun items => ∀ d ∈ items, motive d) (fun entries => ∀ e ∈ entries, motive e.2)
    (fun e => motive e.2) null bool number text list record
    (fun _ h => absurd h List.not_mem_nil) (fun _ _ hd hds => List.forall_mem_cons.mpr ⟨hd, hds⟩)
    (fun _ h => absurd h List.not_mem_nil) (fun _ _ he hes => List.forall_mem_cons.mpr ⟨he, hes⟩)
    (fun _ _ h => h) d

/-! ## Numbers -/

mutual

/-- The numbers in a value, in order. -/
def numbers : Datum → List Float
  | .number x => [x]
  | .list items => itemNumbers items
  | .record entries => entryNumbers entries
  | _ => []

/-- The numbers in values. -/
def itemNumbers : List Datum → List Float
  | [] => []
  | d :: ds => numbers d ++ itemNumbers ds

/-- The numbers in the values of entries. -/
def entryNumbers : List (String × Datum) → List Float
  | [] => []
  | (_, d) :: rest => numbers d ++ entryNumbers rest

end

theorem mem_numbers_list {x : Float} {items : List Datum} :
    x ∈ (Datum.list items).numbers ↔ ∃ d ∈ items, x ∈ d.numbers := by
  rw [numbers]
  induction items with
  | nil => simp [itemNumbers]
  | cons d ds ih => simp [itemNumbers, ih]

theorem mem_numbers_record {x : Float} {entries : List (String × Datum)} :
    x ∈ (Datum.record entries).numbers ↔ ∃ e ∈ entries, x ∈ e.2.numbers := by
  rw [numbers]
  induction entries with
  | nil => simp [entryNumbers]
  | cons e rest ih => simp [entryNumbers, ih]

/-! ## Nesting -/

mutual

/-- How many lists and records stand inside one another at the deepest place of a value. -/
def nesting : Datum → Nat
  | .list items => itemNesting items + 1
  | .record entries => entryNesting entries + 1
  | _ => 0

/-- The deepest nesting among values. -/
def itemNesting : List Datum → Nat
  | [] => 0
  | d :: ds => max (nesting d) (itemNesting ds)

/-- The deepest nesting among the values of entries. -/
def entryNesting : List (String × Datum) → Nat
  | [] => 0
  | (_, d) :: rest => max (nesting d) (entryNesting rest)

end

theorem nesting_list_le {n : Nat} {items : List Datum} :
    (Datum.list items).nesting ≤ n + 1 ↔ ∀ d ∈ items, d.nesting ≤ n := by
  rw [nesting, Nat.add_le_add_iff_right]
  induction items with
  | nil => simp [itemNesting]
  | cons d ds ih => rw [itemNesting, Nat.max_le, ih, List.forall_mem_cons]

theorem nesting_record_le {n : Nat} {entries : List (String × Datum)} :
    (Datum.record entries).nesting ≤ n + 1 ↔ ∀ e ∈ entries, e.2.nesting ≤ n := by
  rw [nesting, Nat.add_le_add_iff_right]
  induction entries with
  | nil => simp [entryNesting]
  | cons e rest ih => rw [entryNesting, Nat.max_le, ih, List.forall_mem_cons]

/-! ## What a document keeps -/

mutual

/-- The value with `null` for every number that is not finite. -/
def storable : Datum → Datum
  | .number x => if x.isFinite then .number x else .null
  | .list items => .list (storableItems items)
  | .record entries => .record (storableEntries entries)
  | d => d

/-- `storable` of each item. -/
def storableItems : List Datum → List Datum
  | [] => []
  | d :: ds => storable d :: storableItems ds

/-- `storable` of the value of each entry. -/
def storableEntries : List (String × Datum) → List (String × Datum)
  | [] => []
  | (k, d) :: rest => (k, storable d) :: storableEntries rest

end

theorem storable_list (items : List Datum) : (Datum.list items).storable = .list (items.map storable) := by
  rw [storable]
  congr 1
  induction items with
  | nil => rfl
  | cons d ds ih => rw [storableItems, ih, List.map_cons]

theorem storable_record (entries : List (String × Datum)) :
    (Datum.record entries).storable = .record (mapValues storable entries) := by
  rw [storable]
  congr 1
  induction entries with
  | nil => rfl
  | cons e rest ih => rw [storableEntries, ih, mapValues_cons]

/-- A value without numbers that are not finite is kept as it is. -/
theorem storable_eq_self {d : Datum} (h : ∀ x ∈ d.numbers, x.isFinite = true) : d.storable = d := by
  induction d using memberInduction with
  | null => rfl
  | bool b => rfl
  | number x => rw [storable, if_pos (h x (List.mem_singleton_self x))]
  | text s => rfl
  | list items ih =>
      have hitems : ∀ d ∈ items, d.storable = d :=
        fun d hd => ih d hd fun x hx => h x (mem_numbers_list.mpr ⟨d, hd, hx⟩)
      rw [storable_list, List.map_congr_left hitems, List.map_id']
  | record entries ih =>
      have hentries : ∀ e ∈ entries, (e.1, e.2.storable) = e := fun e he => by
        rw [ih e he fun x hx => h x (mem_numbers_record.mpr ⟨e, he, hx⟩)]
      rw [storable_record, mapValues, List.map_congr_left hentries, List.map_id']

/-! ## Key order -/

theorem canonical_list (items : List Datum) : (Datum.list items).canonical = .list (items.map canonical) := by
  rw [canonical]
  congr 1
  induction items with
  | nil => rfl
  | cons d ds ih => rw [canonicalItems, ih, List.map_cons]

theorem canonical_record (entries : List (String × Datum)) :
    (Datum.record entries).canonical = .record (sortEntries (mapValues canonical entries)) := by
  rw [canonical]
  congr 2
  induction entries with
  | nil => rfl
  | cons e rest ih => rw [canonicalEntries, ih, mapValues_cons]

/-- A value in key order stays as it is. -/
theorem Canonical.canonical_eq {d : Datum} (h : d.Canonical) : d.canonical = d := by
  induction h with
  | null => rfl
  | bool b => rfl
  | number x => rfl
  | text s => rfl
  | list _ ih => rw [canonical_list, List.map_congr_left ih, List.map_id']
  | @record entries hkeys _ ih =>
      have hentries : ∀ e ∈ entries, (e.1, e.2.canonical) = e := fun e he => by rw [ih e he]
      rw [canonical_record, mapValues, List.map_congr_left hentries, List.map_id', sortEntries_of_increasing hkeys]

/-- Putting keys in order does so at every depth. -/
theorem canonical_canonical (d : Datum) : d.canonical.Canonical := by
  induction d using memberInduction with
  | null => exact .null
  | bool b => exact .bool b
  | number x => exact .number x
  | text s => exact .text s
  | list items ih =>
      rw [canonical_list]
      refine .list fun d hd => ?_
      obtain ⟨item, hitem, rfl⟩ := List.mem_map.mp hd
      exact ih item hitem
  | record entries ih =>
      rw [canonical_record]
      refine .record (Increasing.sortEntries _) fun e he => ?_
      obtain ⟨entry, hentry, rfl⟩ := mem_mapValues.mp (mem_of_mem_sortEntries he)
      exact ih entry hentry

/-- What is kept of a value in key order is in key order. -/
theorem Canonical.storable {d : Datum} (h : d.Canonical) : d.storable.Canonical := by
  induction h with
  | null => exact .null
  | bool b => exact .bool b
  | number x =>
      rw [Datum.storable]
      split
      · exact .number x
      · exact .null
  | text s => exact .text s
  | list _ ih =>
      rw [storable_list]
      refine .list fun d hd => ?_
      obtain ⟨item, hitem, rfl⟩ := List.mem_map.mp hd
      exact ih item hitem
  | record hkeys _ ih =>
      rw [storable_record]
      refine .record (hkeys.mapValues Datum.storable) fun e he => ?_
      obtain ⟨entry, hentry, rfl⟩ := mem_mapValues.mp he
      exact ih entry hentry

/-- Putting keys in order drops entries and adds none, so no number is new. -/
theorem mem_numbers_of_canonical {d : Datum} {x : Float} (h : x ∈ d.canonical.numbers) : x ∈ d.numbers := by
  induction d using memberInduction with
  | null => exact h
  | bool b => exact h
  | number y => exact h
  | text s => exact h
  | list items ih =>
      rw [canonical_list, mem_numbers_list] at h
      obtain ⟨d, hd, hx⟩ := h
      obtain ⟨item, hitem, rfl⟩ := List.mem_map.mp hd
      exact mem_numbers_list.mpr ⟨item, hitem, ih item hitem hx⟩
  | record entries ih =>
      rw [canonical_record, mem_numbers_record] at h
      obtain ⟨e, he, hx⟩ := h
      obtain ⟨entry, hentry, rfl⟩ := mem_mapValues.mp (mem_of_mem_sortEntries he)
      exact mem_numbers_record.mpr ⟨entry, hentry, ih entry hentry hx⟩

theorem nesting_canonical_le {d : Datum} {n : Nat} (h : d.nesting ≤ n) : d.canonical.nesting ≤ n := by
  induction d using memberInduction generalizing n with
  | null => exact h
  | bool b => exact h
  | number x => exact h
  | text s => exact h
  | list items ih =>
      cases n with
      | zero => exact absurd h (by simp [nesting])
      | succ n =>
          rw [canonical_list, nesting_list_le]
          intro d hd
          obtain ⟨item, hitem, rfl⟩ := List.mem_map.mp hd
          exact ih item hitem (nesting_list_le.mp h item hitem)
  | record entries ih =>
      cases n with
      | zero => exact absurd h (by simp [nesting])
      | succ n =>
          rw [canonical_record, nesting_record_le]
          intro e he
          obtain ⟨entry, hentry, rfl⟩ := mem_mapValues.mp (mem_of_mem_sortEntries he)
          exact ih entry hentry (nesting_record_le.mp h entry hentry)

/-! ## Equality -/

theorem list_beq_iff (as bs : List Datum) :
    (Datum.list as == Datum.list bs) = true ↔ List.Forall₂ (fun a b => (a == b) = true) as bs := by
  show equalLists as bs = true ↔ _
  induction as generalizing bs with
  | nil =>
      cases bs with
      | nil => exact iff_of_true rfl .nil
      | cons b bs => exact iff_of_false (by simp [equalLists]) (fun h => by cases h)
  | cons a as ih =>
      cases bs with
      | nil => exact iff_of_false (by simp [equalLists]) (fun h => by cases h)
      | cons b bs =>
          rw [equalLists, Bool.and_eq_true, ih bs, List.forall₂_cons]
          rfl

theorem record_beq_iff (as bs : List (String × Datum)) :
    (Datum.record as == Datum.record bs) = true ↔
      List.Forall₂ (fun a b => a.1 = b.1 ∧ (a.2 == b.2) = true) as bs := by
  show equalEntries as bs = true ↔ _
  induction as generalizing bs with
  | nil =>
      cases bs with
      | nil => exact iff_of_true rfl .nil
      | cons b bs => exact iff_of_false (by simp [equalEntries]) (fun h => by cases h)
  | cons a as ih =>
      cases bs with
      | nil => exact iff_of_false (by simp [equalEntries]) (fun h => by cases h)
      | cons b bs =>
          rw [equalEntries, Bool.and_eq_true, Bool.and_eq_true, beq_iff_eq, ih bs, List.forall₂_cons]
          rfl

/-- **A value equals what is kept of it exactly when all its numbers are finite.** -/
theorem storable_beq_iff (d : Datum) : (d.storable == d) = true ↔ ∀ x ∈ d.numbers, x.isFinite = true := by
  induction d using memberInduction with
  | null => exact iff_of_true rfl (List.forall_mem_nil _)
  | bool b => exact iff_of_true (beq_self_eq_true b) (List.forall_mem_nil _)
  | number x =>
      rw [storable, numbers, List.forall_mem_singleton]
      split
      · rename_i hx
        exact iff_of_true (Decimal.beq_self_of_isFinite hx) hx
      · rename_i hx
        exact iff_of_false Bool.false_ne_true hx
  | text s => exact iff_of_true (beq_self_eq_true s) (List.forall_mem_nil _)
  | list items ih =>
      rw [storable_list, list_beq_iff, List.forall₂_map_left_iff, List.forall₂_same]
      constructor
      · intro h x hx
        obtain ⟨d, hd, hx⟩ := mem_numbers_list.mp hx
        exact (ih d hd).mp (h d hd) x hx
      · exact fun h d hd => (ih d hd).mpr fun x hx => h x (mem_numbers_list.mpr ⟨d, hd, hx⟩)
  | record entries ih =>
      rw [storable_record, record_beq_iff, mapValues, List.forall₂_map_left_iff, List.forall₂_same]
      constructor
      · intro h x hx
        obtain ⟨e, he, hx⟩ := mem_numbers_record.mp hx
        exact (ih e he).mp (h e he).2 x hx
      · exact fun h e he => ⟨rfl, (ih e he).mpr fun x hx => h x (mem_numbers_record.mpr ⟨e, he, hx⟩)⟩

end Datum

end AccessPolicy
