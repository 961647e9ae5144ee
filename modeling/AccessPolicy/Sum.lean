/-!
# Sums over lists
-/

namespace AccessPolicy

variable {α β : Type}

/-- The sum of a quantity over the members of a list. -/
def sumOf (f : α → Nat) (xs : List α) : Nat :=
  xs.foldr (fun x n => f x + n) 0

@[simp] theorem sumOf_nil (f : α → Nat) : sumOf f [] = 0 := rfl

@[simp] theorem sumOf_cons (f : α → Nat) (x : α) (xs : List α) : sumOf f (x :: xs) = f x + sumOf f xs := rfl

@[simp] theorem sumOf_append (f : α → Nat) (xs ys : List α) : sumOf f (xs ++ ys) = sumOf f xs + sumOf f ys := by
  induction xs with
  | nil => simp
  | cons x xs ih => simp [ih, Nat.add_assoc]

@[simp] theorem sumOf_replicate (f : α → Nat) (n : Nat) (x : α) : sumOf f (List.replicate n x) = n * f x := by
  induction n with
  | zero => simp
  | succ n ih => rw [List.replicate_succ, sumOf_cons, ih, Nat.succ_mul, Nat.add_comm]

@[simp] theorem sumOf_map (f : β → Nat) (g : α → β) (xs : List α) :
    sumOf f (xs.map g) = sumOf (fun x => f (g x)) xs := by
  induction xs with
  | nil => rfl
  | cons x xs ih => simp [ih]

/-- Fewer members add up to no more. -/
theorem sumOf_le_of_sublist (f : α → Nat) {xs ys : List α} (h : xs.Sublist ys) : sumOf f xs ≤ sumOf f ys := by
  induction h with
  | slnil => exact Nat.le_refl _
  | cons y h ih => exact Nat.le_trans ih (Nat.le_add_left _ _)
  | cons_cons y h ih => exact Nat.add_le_add_left ih _

end AccessPolicy
