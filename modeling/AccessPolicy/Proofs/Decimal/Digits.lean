import AccessPolicy.Decimal.Numeral
import Mathlib.Data.Nat.Digits.Defs
import Mathlib.Tactic.IntervalCases

/-!
# Digits written and read

Digits are read from the front of a text for as long as there are any. What was written as digits is read as those
digits, provided that no digit follows; and the digits of a number in a field that is wide enough for it write that
number.

Contents:
* `figures`, `takeDigits_figures_append` — digits as characters, and back;
* `ofDigits_append`, `ofDigits_lt` — the number that digits write;
* `padded`, `ofDigits_padded` — the digits of a number in a field.
-/

namespace AccessPolicy.Decimal

/-! ## Digits as characters -/

/-- Digits as they are written. -/
def figures (ds : List Nat) : List Char :=
  ds.map Nat.digitChar

theorem digit?_digitChar {d : Nat} (h : d < 10) : digit? (Nat.digitChar d) = some d := by
  interval_cases d <;> rfl

theorem takeDigits_of_digit {c : Char} {d : Nat} (h : digit? c = some d) (cs : List Char) :
    takeDigits (c :: cs) = (d :: (takeDigits cs).1, (takeDigits cs).2) := by
  simp [takeDigits, h]

theorem takeDigits_of_first {cs : List Char} (h : ∀ c ∈ cs.head?, digit? c = none) : takeDigits cs = ([], cs) := by
  cases cs with
  | nil => rfl
  | cons c cs => simp [takeDigits, h c rfl]

theorem takeDigits_figures_append {ds : List Nat} (hds : ∀ d ∈ ds, d < 10) {rest : List Char}
    (hrest : ∀ c ∈ rest.head?, digit? c = none) : takeDigits (figures ds ++ rest) = (ds, rest) := by
  induction ds with
  | nil => exact takeDigits_of_first hrest
  | cons d ds ih =>
      rw [List.forall_mem_cons] at hds
      rw [figures, List.map_cons, List.cons_append, takeDigits_of_digit (digit?_digitChar hds.1), ← figures, ih hds.2]

theorem takeDigits_figures {ds : List Nat} (hds : ∀ d ∈ ds, d < 10) : takeDigits (figures ds) = (ds, []) := by
  have hend : ∀ c ∈ ([] : List Char).head?, digit? c = none := by simp
  simpa using takeDigits_figures_append hds hend

@[simp] theorem length_figures (ds : List Nat) : (figures ds).length = ds.length :=
  List.length_map _

/-! ## The number that digits write -/

/-- The digits worth least are the last here, and the first in the library. -/
theorem ofDigits_eq_ofDigits_reverse (ds : List Nat) : ofDigits ds = Nat.ofDigits 10 ds.reverse := by
  rw [ofDigits, Positional.valueOf_eq_foldl, Nat.ofDigits_eq_foldr, List.foldr_reverse]
  simp only [Nat.cast_id, Nat.add_comm]

theorem ofDigits_append (as bs : List Nat) : ofDigits (as ++ bs) = ofDigits as * 10 ^ bs.length + ofDigits bs := by
  simp only [ofDigits_eq_ofDigits_reverse, List.reverse_append, Nat.ofDigits_append, List.length_reverse]
  rw [Nat.add_comm, Nat.mul_comm]

theorem ofDigits_lt {ds : List Nat} (h : ∀ d ∈ ds, d < 10) : ofDigits ds < 10 ^ ds.length := by
  rw [ofDigits_eq_ofDigits_reverse, ← List.length_reverse]
  exact Nat.ofDigits_lt_base_pow_length (by decide) (by simpa using h)

/-! ## Fields -/

/-- The digits of a number in a field of some width, zeros in front where it has fewer. -/
def padded : (width n : Nat) → List Nat
  | 0, _ => []
  | width + 1, n => n / 10 ^ width % 10 :: padded width n

@[simp] theorem length_padded (width n : Nat) : (padded width n).length = width := by
  induction width with
  | zero => rfl
  | succ width ih => rw [padded, List.length_cons, ih]

theorem padded_lt (width n : Nat) : ∀ d ∈ padded width n, d < 10 := by
  induction width with
  | zero => exact List.forall_mem_nil _
  | succ width ih => exact List.forall_mem_cons.mpr ⟨Nat.mod_lt _ (by decide), ih⟩

/-- A field holds what fits it, and the last digits of what does not. -/
theorem ofDigits_padded_eq_mod (width n : Nat) : ofDigits (padded width n) = n % 10 ^ width := by
  induction width with
  | zero => simp [padded, ofDigits, Positional.valueOf_eq_foldl, Nat.mod_one]
  | succ width ih =>
      rw [padded, ← List.singleton_append, ofDigits_append, length_padded, ih, Nat.mod_pow_succ]
      simp [ofDigits, Positional.valueOf_eq_foldl, Nat.mul_comm, Nat.add_comm]

theorem ofDigits_padded {width n : Nat} (h : n < 10 ^ width) : ofDigits (padded width n) = n := by
  rw [ofDigits_padded_eq_mod, Nat.mod_eq_of_lt h]

end AccessPolicy.Decimal
