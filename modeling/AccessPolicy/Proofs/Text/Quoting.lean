import AccessPolicy.Text.Glyph
import Mathlib.Data.List.Induction

/-!
# Quoting, where texts are put together

Writing undoes reading for every text. Reading undoes writing only for glyphs that reading can give: a plain backslash
among them would quote whatever is written after it, so it can stand at the end only (`read_write`).

For the same reason a text cannot be read piece by piece in general. It can if no piece but the last ends in a backslash
that is left over. A piece in which every backslash quotes a character of the piece is *complete*, and is read apart from
what comes after it (`read_append`).

Contents:
* `AsRead`, `asRead_read`, `asRead_of_forall`, **`read_write`**;
* `Complete`, `complete_nil`, `complete_of_getLast?`, **`read_append`**, `Complete.append`, `read_flatten_append`.
-/

namespace AccessPolicy.Glyph

/-! ## Glyphs as reading gives them -/

/-- A backslash stands for itself only at the end, where there is nothing that it could quote. -/
def AsRead : List Glyph → Prop
  | [] => True
  | g :: gs => (g = .plain '\\' → gs = []) ∧ AsRead gs

theorem asRead_read (cs : List Char) : AsRead (read cs) := by
  induction cs using List.twoStepInduction with
  | nil => trivial
  | singleton c =>
      have hread : read [c] = [.plain c] := read_plain fun _ => rfl
      rw [hread]
      exact ⟨fun _ => rfl, trivial⟩
  | cons_cons c d cs ihTwo ihOne =>
      by_cases hc : c = '\\'
      · subst hc
        rw [read_quoted]
        exact ⟨fun h => absurd h (by simp), ihTwo⟩
      · rw [read_plain fun h => absurd h hc]
        exact ⟨fun h => absurd (Glyph.plain.inj h) hc, ihOne d⟩

/-- Glyphs among which every backslash is quoted are such. -/
theorem asRead_of_forall {gs : List Glyph} (h : ∀ g ∈ gs, g ≠ .plain '\\') : AsRead gs := by
  induction gs with
  | nil => trivial
  | cons g gs ih =>
      obtain ⟨hg, hgs⟩ := List.forall_mem_cons.mp h
      exact ⟨fun heq => absurd heq hg, ih hgs⟩

/-- A backslash that stands for itself is the last glyph. -/
theorem AsRead.exists_concat {gs : List Glyph} (h : AsRead gs) (hmem : .plain '\\' ∈ gs) :
    ∃ before, gs = before ++ [.plain '\\'] := by
  induction gs with
  | nil => exact absurd hmem List.not_mem_nil
  | cons g gs ih =>
      rcases List.mem_cons.mp hmem with rfl | hlater
      · exact ⟨[], by rw [h.1 rfl, List.nil_append]⟩
      · obtain ⟨before, hbefore⟩ := ih h.2 hlater
        exact ⟨g :: before, by rw [hbefore, List.cons_append]⟩

/-- Before another glyph, no backslash stands for itself. -/
theorem AsRead.not_mem_left {gs hs : List Glyph} {g : Glyph} (h : AsRead (gs ++ g :: hs)) : .plain '\\' ∉ gs := by
  induction gs with
  | nil => exact List.not_mem_nil
  | cons f gs ih =>
      rw [List.mem_cons, not_or]
      refine ⟨fun hf => ?_, ih h.2⟩
      exact absurd (h.1 hf.symm) (by simp)

/-- **Glyphs that reading can give are read as they were written.** -/
theorem read_write {gs : List Glyph} (h : AsRead gs) : read (write gs) = gs := by
  induction gs with
  | nil => rfl
  | cons g gs ih =>
      obtain ⟨hend, hrest⟩ := h
      cases g with
      | plain c =>
          have hplain : c = '\\' → write gs = [] := by
            rintro rfl
            rw [hend rfl]
            rfl
          have hread : read (c :: write gs) = .plain c :: read (write gs) := read_plain hplain
          exact hread.trans (by rw [ih hrest])
      | quoted c =>
          have hread : read ('\\' :: c :: write gs) = .quoted c :: read (write gs) := read_quoted c (write gs)
          exact hread.trans (by rw [ih hrest])

/-! ## Complete texts -/

/-- Every backslash in the text quotes a character of it, so that none is left at its end. -/
def Complete (cs : List Char) : Prop :=
  .plain '\\' ∉ read cs

instance (cs : List Char) : Decidable (Complete cs) :=
  inferInstanceAs (Decidable (.plain '\\' ∉ read cs))

theorem complete_nil : Complete [] :=
  List.not_mem_nil

theorem complete_of_getLast? {cs : List Char} (h : cs.getLast? ≠ some '\\') : Complete cs := by
  intro hmem
  obtain ⟨before, hread⟩ := (asRead_read cs).exists_concat hmem
  apply h
  rw [← write_read cs, hread, write_append]
  exact List.getLast?_concat

/-- **A complete text is read apart** from what comes after it. -/
theorem read_append {lead : List Char} (h : Complete lead) (rest : List Char) :
    read (lead ++ rest) = read lead ++ read rest := by
  induction lead using List.twoStepInduction with
  | nil => rfl
  | singleton c =>
      have hc : c ≠ '\\' := by
        rintro rfl
        exact h (List.mem_singleton_self _)
      rw [List.singleton_append, read_plain fun heq => absurd heq hc, read_plain fun heq => absurd heq hc]
      rfl
  | cons_cons c d lead ihTwo ihOne =>
      by_cases hc : c = '\\'
      · subst hc
        rw [Complete, read_quoted, List.mem_cons, not_or] at h
        rw [List.cons_append, List.cons_append, read_quoted, read_quoted, ihTwo h.2]
        rfl
      · have hplain (cs : List Char) : read (c :: cs) = .plain c :: read cs := read_plain fun heq => absurd heq hc
        rw [Complete, hplain, List.mem_cons, not_or] at h
        have hrest := ihOne d h.2
        rw [List.cons_append, hplain, hplain, hrest]
        rfl

theorem Complete.append {cs ds : List Char} (hcs : Complete cs) (hds : Complete ds) : Complete (cs ++ ds) := by
  rw [Complete, read_append hcs, List.mem_append, not_or]
  exact ⟨hcs, hds⟩

/-- Complete texts, and one more that need not be, are read one by one. -/
theorem read_flatten_append {texts : List (List Char)} (h : ∀ text ∈ texts, Complete text) (last : List Char) :
    read (texts.flatten ++ last) = texts.flatMap read ++ read last := by
  induction texts with
  | nil => rfl
  | cons text texts ih =>
      obtain ⟨hfirst, hrest⟩ := List.forall_mem_cons.mp h
      rw [List.flatten_cons, List.append_assoc, read_append hfirst, ih hrest, List.flatMap_cons, List.append_assoc]

end AccessPolicy.Glyph
