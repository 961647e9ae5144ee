/-!
# Positional notation

The whole number that digits of a base write. Most numbers have a few digits, but a text can hold hundreds of
thousands of them, and multiplying a number of that length by the base for each digit takes time with the square of
their count. So digits are gathered into numbers of one machine word, and only those are put together.

Main statement: `valueOf_eq_foldl` — the outcome is that of multiplying by the base at each digit.
-/

namespace AccessPolicy.Positional

/-- A number that is being read: `high` times `unit`, with `low` added. -/
structure Reading where
  high : Nat
  low : Nat
  unit : Nat

/-- The number read so far. -/
def Reading.value (r : Reading) : Nat :=
  r.high * r.unit + r.low

/-- Takes one more digit of a base: into `low` as long as that is short, then after putting `low` to the rest. -/
def Reading.push (base : Nat) (r : Reading) (d : Nat) : Reading :=
  if r.unit < 0x1000000000000 then ⟨r.high, base * r.low + d, base * r.unit⟩ else ⟨r.value, d, base⟩

/-- The whole number that digits of a base write, the first of them worth most. -/
def valueOf (base : Nat) (ds : List Nat) : Nat :=
  (ds.foldl (Reading.push base) ⟨0, 0, 1⟩).value

theorem Reading.value_push (base : Nat) (r : Reading) (d : Nat) :
    (r.push base d).value = base * r.value + d := by
  unfold Reading.push
  split
  · simp only [Reading.value, Nat.mul_add, Nat.mul_left_comm, Nat.add_assoc]
  · simp only [Reading.value, Nat.mul_comm]

theorem Reading.value_foldl_push (base : Nat) (ds : List Nat) (r : Reading) :
    (ds.foldl (Reading.push base) r).value = ds.foldl (fun n d => base * n + d) r.value := by
  induction ds generalizing r with
  | nil => rfl
  | cons d ds ih => rw [List.foldl_cons, List.foldl_cons, ih, value_push]

theorem valueOf_eq_foldl (base : Nat) (ds : List Nat) :
    valueOf base ds = ds.foldl (fun n d => base * n + d) 0 :=
  Reading.value_foldl_push base ds ⟨0, 0, 1⟩

end AccessPolicy.Positional
