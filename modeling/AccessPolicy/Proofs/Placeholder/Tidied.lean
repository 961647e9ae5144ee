import AccessPolicy.Pattern.Placeholder
import AccessPolicy.Proofs.Pattern.Acceptance
import AccessPolicy.Proofs.Text.Squeeze

/-!
# Filled patterns are tidy

A pattern that is filled from a context is tidied, whatever was put in, so that an empty filling between two blanks leaves
one of them. What tidying leaves is a normal form: it is determined by the characters that are not blank and by the blanks
that are left between them, and there is nothing more to tidy. Compiling trims a pattern once more, which finds nothing to
cut off; a compiled pattern reports the filled text as its own.

Contents:
* `trim_fill`, `Pattern.text_of_compile`;
* **`fill_normalForm`**.
-/

namespace AccessPolicy

open Text

/-- There is nothing to trim in a filled pattern. -/
theorem trim_fill (d : Datum) (pattern : String) :
    trim (fill (some d) pattern).toList = (fill (some d) pattern).toList := by
  rw [fill, String.toList_ofList]
  exact (trimmed_tidy _).trim_eq

/-- A compiled pattern reports the text that it was compiled from, trimmed. -/
theorem Pattern.text_of_compile {pattern : String} {p : Pattern} (h : compile pattern = .ok p) :
    p.text = String.ofList (trim pattern.toList) := by
  by_cases hne : trim pattern.toList = []
  · rw [compile, hne] at h
    obtain rfl : ⟨"", []⟩ = p := Except.ok.inj h
    rw [hne]
  · obtain ⟨alternatives, globs, -, -, rfl⟩ := (compile_eq_ok_iff hne).mp h
    rfl

/-- **Tidying gives a normal form.** What is left of a text has no blank at either end and no two blanks side by side. The
    characters that are not blank are left as they are, in order; between two of them there is one blank, if there were any,
    and it is the last of those that were there. Tidying again changes nothing. So a filled pattern is trimmed, and what it
    compiles to reports it unchanged. -/
theorem fill_normalForm :
    (∀ text, Trimmed (tidy text) ∧ NoBlankPair (tidy text) ∧ nonBlanks (tidy text) = nonBlanks text ∧
        tidy (tidy text) = tidy text) ∧
      (∀ left c run d right, isBlank c = false → isBlank d = false → (∀ b ∈ run, isBlank b = true) →
        ∃ before after, tidy (left ++ c :: (run ++ d :: right)) = before ++ c :: (run.getLast?.toList ++ d :: after) ∧
          nonBlanks before = nonBlanks left ∧ nonBlanks after = nonBlanks right) ∧
      ∀ d pattern, trim (fill (some d) pattern).toList = (fill (some d) pattern).toList ∧
        ∀ p, Pattern.compile (fill (some d) pattern) = .ok p → p.text = fill (some d) pattern := by
  refine ⟨fun text => ?_, fun left c run d right hc hd hrun => ?_, fun d pattern => ⟨trim_fill d pattern, fun p hp => ?_⟩⟩
  · exact ⟨trimmed_tidy text, noBlankPair_tidy text, nonBlanks_tidy text, tidy_tidy text⟩
  · exact exists_tidy_of_run hc hd hrun left right
  · rw [Pattern.text_of_compile hp, trim_fill, String.ofList_toList]

/-- A blank of two bytes is left of three, and an empty filling leaves the second of the blanks around it. -/
theorem fill_normalForm_emptyFilling :
    (∃ before after, tidy (" \n".toList ++ 'a' :: (" \t\u00a0".toList ++ 'b' :: "c ".toList)) =
        before ++ 'a' :: ('\u00a0' :: 'b' :: after) ∧ nonBlanks before = [] ∧ nonBlanks after = ['c']) ∧
      fill (some (.record [("who", .text "")])) " read\t$\x7bwho\x7d all " = "read all" ∧
      ∃ p, Pattern.compile (fill (some (.record [("who", .text "")])) " read\t$\x7bwho\x7d all ") = .ok p ∧
        p.text = "read all" := by
  obtain ⟨-, hrun, hfill⟩ := fill_normalForm
  have hfilled : fill (some (.record [("who", .text "")])) " read\t$\x7bwho\x7d all " = "read all" := by decide
  obtain ⟨p, hp⟩ : ∃ p, Pattern.compile (fill (some (.record [("who", .text "")])) " read\t$\x7bwho\x7d all ") = .ok p :=
    ⟨_, rfl⟩
  have hblank : ∀ b ∈ " \t\u00a0".toList, isBlank b = true := List.all_eq_true.mp rfl
  refine ⟨hrun _ 'a' _ 'b' _ rfl rfl hblank, hfilled, p, hp, ?_⟩
  rw [(hfill _ _).2 p hp, hfilled]

end AccessPolicy
