import AccessPolicy.Text.Blank
import Mathlib.Data.List.Chain

/-!
# Texts that are tidy already

Tidying a text cuts the blanks off its ends and then reduces each run of blanks. Both are done where there is something to
be done: a text without blanks at its ends is its own trimming, so that trimming twice is trimming once (`trim_trim`); and
a text in which no two blanks stand side by side has no run to be reduced (`squeeze_of_noBlankPair`).

Contents:
* `Trimmed`, `trimmed_trim`, `Trimmed.trim_eq`, `trim_trim`;
* `Trimmed.trim_append`, `trim_append_singleton` — more blanks in front, and at the end;
* `NoBlankPair`, `squeeze_of_noBlankPair`, `tidy_of_noBlankPair`;
* `trim_of_forall`, `tidy_of_forall` — texts without blanks.
-/

namespace AccessPolicy.Text

variable {cs : List Char}

/-! ## The ends of a text -/

/-- There is no blank at either end. -/
structure Trimmed (cs : List Char) : Prop where
  first : ∀ c ∈ cs.head?, isBlank c = false
  last : ∀ c ∈ cs.getLast?, isBlank c = false

theorem dropWhile_of_first (h : ∀ c ∈ cs.head?, isBlank c = false) : cs.dropWhile isBlank = cs := by
  cases cs with
  | nil => rfl
  | cons c cs => rw [List.dropWhile_cons, h c rfl, if_neg Bool.false_ne_true]

theorem first_dropWhile (cs : List Char) : ∀ c ∈ (cs.dropWhile isBlank).head?, isBlank c = false := by
  intro c hc
  have hfirst := List.head?_dropWhile_not isBlank cs
  rw [Option.mem_def.mp hc] at hfirst
  exact hfirst

/-- A text without blanks at its ends is its own trimming. -/
theorem Trimmed.trim_eq (h : Trimmed cs) : trim cs = cs := by
  have hlast : ∀ c ∈ cs.reverse.head?, isBlank c = false := by
    rw [List.head?_reverse]
    exact h.last
  rw [trim, trimStart, dropWhile_of_first h.first, trimEnd, dropWhile_of_first hlast, List.reverse_reverse]

/-- What is cut off at the end leaves the start as it is. -/
theorem exists_trimEnd_append (cs : List Char) : ∃ cut, trimEnd cs ++ cut = cs := by
  refine ⟨(cs.reverse.takeWhile isBlank).reverse, ?_⟩
  rw [trimEnd, ← List.reverse_append, List.takeWhile_append_dropWhile, List.reverse_reverse]

theorem trimmed_trim (cs : List Char) : Trimmed (trim cs) := by
  constructor
  · intro c hc
    -- The first character of what is left is the first after the blanks at the start.
    obtain ⟨rest, hrest⟩ := List.head?_eq_some_iff.mp hc
    obtain ⟨cut, hcut⟩ := exists_trimEnd_append (trimStart cs)
    have hfirst : (trimStart cs).head? = some c := by
      rw [← hcut, ← trim, hrest]
      rfl
    exact first_dropWhile cs c hfirst
  · intro c hc
    rw [trim, trimEnd, List.getLast?_reverse] at hc
    exact first_dropWhile _ c hc

/-- Trimming twice is trimming once. -/
theorem trim_trim (cs : List Char) : trim (trim cs) = trim cs :=
  (trimmed_trim cs).trim_eq

/-- Blanks in front of a text without blanks at its ends are cut off, and nothing else. -/
theorem Trimmed.trim_append {blanks : List Char} (hblanks : ∀ c ∈ blanks, isBlank c = true) (h : Trimmed cs) :
    trim (blanks ++ cs) = cs := by
  have hstart : trimStart (blanks ++ cs) = trimStart cs := List.dropWhile_append_of_pos hblanks
  rw [trim, hstart]
  exact h.trim_eq

/-- A blank at the end is cut off, whatever stands before it. -/
theorem trim_append_singleton {c : Char} (hc : isBlank c = true) (cs : List Char) : trim (cs ++ [c]) = trim cs := by
  have hend (kept : List Char) : trimEnd (kept ++ [c]) = trimEnd kept := by
    rw [trimEnd, List.reverse_concat, List.dropWhile_cons, if_pos hc]
    rfl
  rw [trim, trim, trimStart, List.dropWhile_append]
  split
  · rename_i hnone
    have hblank : [c].dropWhile isBlank = [] := List.dropWhile_cons_of_pos hc
    rw [hblank, trimStart, List.isEmpty_iff.mp hnone]
  · exact hend _

/-! ## Runs of blanks -/

/-- No two blanks stand side by side. -/
def NoBlankPair (cs : List Char) : Prop :=
  cs.IsChain fun c d => ¬ (isBlank c = true ∧ isBlank d = true)

instance (cs : List Char) : Decidable (NoBlankPair cs) :=
  inferInstanceAs (Decidable (cs.IsChain fun c d => ¬ (isBlank c = true ∧ isBlank d = true)))

/-- Where no two blanks stand side by side, there is no run to be reduced. -/
theorem squeeze_of_noBlankPair (h : NoBlankPair cs) : squeeze cs = cs := by
  induction cs with
  | nil => rfl
  | cons c cs ih =>
      rw [squeeze_cons, ih (List.isChain_cons.mp h).2]
      cases cs with
      | nil => rfl
      | cons d cs =>
          -- A blank would be dropped before another blank only.
          have hpair : ¬ (isBlank c && isBlank d) = true := by
            rw [Bool.and_eq_true]
            exact (List.isChain_cons_cons.mp h).1
          exact if_neg hpair

/-- Tidying is trimming where no two blanks stand side by side in what is left. -/
theorem tidy_of_noBlankPair (h : NoBlankPair (trim cs)) : tidy cs = trim cs :=
  squeeze_of_noBlankPair h

/-! ## Texts without blanks -/

theorem trim_of_forall (h : ∀ c ∈ cs, isBlank c = false) : trim cs = cs :=
  Trimmed.trim_eq ⟨fun c hc => h c (List.mem_of_mem_head? hc), fun c hc => h c (List.mem_of_mem_getLast? hc)⟩

/-- A text without blanks is tidy. -/
theorem tidy_of_forall (h : ∀ c ∈ cs, isBlank c = false) : tidy cs = cs := by
  have hpair : NoBlankPair cs := by
    refine (List.pairwise_of_forall_mem_list fun c hc d _ => ?_).isChain
    rw [h c hc]
    exact fun hboth => Bool.false_ne_true hboth.1
  rw [tidy, trim_of_forall h, squeeze_of_noBlankPair hpair]

end AccessPolicy.Text
