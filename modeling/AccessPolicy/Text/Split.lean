/-!
# Cutting lists

A list is cut at all members that a test picks out; these themselves are dropped. There is one stretch more than
there are cuts, and stretches may be empty.
-/

namespace AccessPolicy

variable {α : Type}

/-- The stretches between the members that pass the test. -/
def splitAll (p : α → Bool) (xs : List α) : List (List α) :=
  xs.foldr
    (fun x parts =>
      if p x then [] :: parts
      else
        match parts with
        | part :: rest => (x :: part) :: rest
        | [] => [[x]])
    [[]]

@[simp] theorem splitAll_nil (p : α → Bool) : splitAll p [] = [[]] := rfl

theorem splitAll_cons (p : α → Bool) (x : α) (xs : List α) :
    splitAll p (x :: xs) =
      if p x then [] :: splitAll p xs
      else
        match splitAll p xs with
        | part :: rest => (x :: part) :: rest
        | [] => [[x]] := rfl

theorem splitAll_ne_nil (p : α → Bool) (xs : List α) : splitAll p xs ≠ [] := by
  cases xs with
  | nil => simp
  | cons x xs =>
    rw [splitAll_cons]
    split
    · simp
    · split <;> simp

/-- There is one stretch more than there are cuts. -/
theorem length_splitAll (p : α → Bool) (xs : List α) : (splitAll p xs).length = xs.countP p + 1 := by
  induction xs with
  | nil => rfl
  | cons x xs ih =>
    rw [splitAll_cons, List.countP_cons]
    split
    · simp [*]
    · split <;> simp_all

/-- Where the test picks nothing, there is one stretch: the whole list. -/
theorem splitAll_eq_singleton {p : α → Bool} {xs : List α} (h : ∀ x ∈ xs, p x = false) :
    splitAll p xs = [xs] := by
  induction xs with
  | nil => rfl
  | cons x xs ih =>
    rw [splitAll_cons, ih fun y hy => h y (List.mem_cons_of_mem x hy)]
    simp [h x List.mem_cons_self]

/-- Cutting is the library's `List.splitOnP`. -/
theorem splitAll_eq_splitOnP (p : α → Bool) (xs : List α) : splitAll p xs = xs.splitOnP p := by
  induction xs with
  | nil => rfl
  | cons x xs ih =>
    rw [splitAll_cons, List.splitOnP_cons_eq_if_modifyHead, ih]
    split
    · rfl
    · have hne : xs.splitOnP p ≠ [] := List.splitOnP_ne_nil p xs
      split <;> simp_all

/-- The stretches with the cuts between them are the list again. -/
theorem intercalate_splitAll [BEq α] [LawfulBEq α] (x : α) (xs : List α) :
    [x].intercalate (splitAll (· == x) xs) = xs := by
  rw [splitAll_eq_splitOnP, ← List.splitOn_eq_splitOnP, List.intercalate_splitOn]

/-- A stretch without cuts, up to the first cut. -/
theorem splitAll_append_cons {p : α → Bool} {part : List α} (h : ∀ y ∈ part, p y = false) {x : α}
    (hx : p x = true) (rest : List α) : splitAll p (part ++ x :: rest) = part :: splitAll p rest := by
  rw [splitAll_eq_splitOnP, splitAll_eq_splitOnP]
  exact List.splitOnP_append_cons_of_forall_mem h x hx rest

/-- Two stretches of cuts, with a cut between them. -/
theorem splitAll_append {p : α → Bool} {x : α} (hx : p x = true) (xs ys : List α) :
    splitAll p (xs ++ x :: ys) = splitAll p xs ++ splitAll p ys := by
  rw [splitAll_eq_splitOnP, splitAll_eq_splitOnP, splitAll_eq_splitOnP, List.splitOnP_append_cons xs ys hx]

/-- Cutting the images is cutting by the image. -/
theorem splitAll_map {β : Type} (p : β → Bool) (f : α → β) (xs : List α) :
    splitAll p (xs.map f) = (splitAll (fun x => p (f x)) xs).map (List.map f) := by
  induction xs with
  | nil => rfl
  | cons x xs ih =>
    rw [List.map_cons, splitAll_cons, splitAll_cons, ih]
    obtain ⟨part, rest, hparts⟩ := List.exists_cons_of_ne_nil (splitAll_ne_nil (fun x => p (f x)) xs)
    rw [hparts]
    split
    · rfl
    · rfl

/-- The stretches hold members of the list that the test does not pick out. -/
theorem mem_of_mem_splitAll {p : α → Bool} {xs part : List α} (hpart : part ∈ splitAll p xs) {y : α}
    (hy : y ∈ part) : y ∈ xs ∧ p y = false := by
  induction xs generalizing part with
  | nil => simp_all
  | cons x xs ih =>
    rw [splitAll_cons] at hpart
    split at hpart
    · rcases List.mem_cons.mp hpart with rfl | hrest
      · exact absurd hy List.not_mem_nil
      · exact ⟨List.mem_cons_of_mem x (ih hrest hy).1, (ih hrest hy).2⟩
    · rename_i hx
      split at hpart
      · rename_i first rest hparts
        rw [hparts] at ih
        rcases List.mem_cons.mp hpart with rfl | hrest
        · rcases List.mem_cons.mp hy with rfl | hold
          · exact ⟨List.mem_cons_self, by simpa using hx⟩
          · have found := ih List.mem_cons_self hold
            exact ⟨List.mem_cons_of_mem x found.1, found.2⟩
        · have found := ih (List.mem_cons_of_mem first hrest) hy
          exact ⟨List.mem_cons_of_mem x found.1, found.2⟩
      · rename_i hparts
        exact absurd hparts (splitAll_ne_nil p xs)

end AccessPolicy
