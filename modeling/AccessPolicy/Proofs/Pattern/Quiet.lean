import AccessPolicy.Proofs.Choice.Expansion
import AccessPolicy.Proofs.Pattern.Acceptance
import AccessPolicy.Proofs.Text.Tidy

/-!
# Quiet texts

A text is *quiet* if it opens no choice, quotes nothing and has no blanks. All that it can have besides characters
for themselves are stars and slashes. As a pattern it is left as it is at every step: there is nothing to tidy or to
trim, it is its own single alternative, and each of its characters is a token.

Quiet texts are what the text around a placeholder is made of, and what a placeholder may be filled with if its
filling is to stay in one piece.

Contents:
* `Quiet`, `Quiet.expand_eq`, **`Quiet.matches?_iff`**.
-/

namespace AccessPolicy

/-! ## Quiet texts -/

/-- No choice is opened, nothing is quoted, and there are no blanks. -/
def Quiet (cs : List Char) : Prop :=
  ∀ c ∈ cs, c ≠ '\x7b' ∧ c ≠ '\\' ∧ Text.isBlank c = false

instance (cs : List Char) : Decidable (Quiet cs) :=
  List.decidableBAll (fun c => c ≠ '\x7b' ∧ c ≠ '\\' ∧ Text.isBlank c = false) cs

namespace Quiet

variable {cs : List Char}

theorem not_mem_brace (h : Quiet cs) : '\x7b' ∉ cs :=
  fun hmem => (h _ hmem).1 rfl

theorem not_mem_backslash (h : Quiet cs) : '\\' ∉ cs :=
  fun hmem => (h _ hmem).2.1 rfl

theorem isBlank_eq_false (h : Quiet cs) : ∀ c ∈ cs, Text.isBlank c = false :=
  fun c hc => (h c hc).2.2

theorem firstChoice?_eq_none (h : Quiet cs) : firstChoice? cs = none := by
  rw [firstChoice?, cutAt?_of_not_mem h.not_mem_brace]

theorem quoteLeadingPair_eq (h : Quiet cs) : quoteLeadingPair cs = cs := by
  unfold quoteLeadingPair
  split
  · exact absurd List.mem_cons_self h.not_mem_brace
  · rfl

/-- A quiet text is its own single alternative. -/
theorem expand_eq (h : Quiet cs) : expand cs = .ok [cs] := by
  have hnone : firstChoice? (quoteLeadingPair cs) = none := by
    rw [h.quoteLeadingPair_eq]
    exact h.firstChoice?_eq_none
  rw [expand_of_no_choice hnone, h.quoteLeadingPair_eq]

theorem trim_eq (h : Quiet cs) : Text.trim (String.ofList cs).toList = cs := by
  rw [String.toList_ofList, Text.trim_of_forall h.isBlank_eq_false]

/-- A quiet text compiles as a pattern if it compiles as an alternative. -/
theorem exists_compile_iff (h : Quiet cs) (hne : cs ≠ []) :
    (∃ p, Pattern.compile (String.ofList cs) = .ok p) ↔ ∃ found, Glob.compile cs = .ok found := by
  have hfull : Text.trim (String.ofList cs).toList ≠ [] := by
    rw [h.trim_eq]
    exact hne
  have hexpand : expand (Text.trim (String.ofList cs).toList) = .ok [cs] := by
    rw [h.trim_eq, h.expand_eq]
  exact Pattern.exists_compile_iff_of_single hfull hexpand

/-- **A quiet text as a pattern** accepts what it admits as an alternative. -/
theorem matches?_iff (h : Quiet cs) (hne : cs ≠ []) {candidate : String} :
    Pattern.matches? (String.ofList cs) candidate = .ok true ↔ Glob.Admits cs candidate.toList := by
  have hfull : Text.trim (String.ofList cs).toList ≠ [] := by
    rw [h.trim_eq]
    exact hne
  have hexpand : expand (Text.trim (String.ofList cs).toList) = .ok [cs] := by
    rw [h.trim_eq, h.expand_eq]
  rw [Pattern.matches?_eq_ok_iff]
  constructor
  · rintro ⟨p, hp, haccepts⟩
    exact (Pattern.accepts_iff_of_single hfull hexpand hp candidate).mp haccepts
  · intro hadmits
    have hfound : ∃ found, Glob.compile cs = .ok found := by
      obtain ⟨glob, hglob, -⟩ := hadmits
      exact ⟨some glob, hglob⟩
    obtain ⟨p, hp⟩ := (h.exists_compile_iff hne).mpr hfound
    exact ⟨p, hp, (Pattern.accepts_iff_of_single hfull hexpand hp candidate).mpr hadmits⟩

end Quiet

end AccessPolicy
