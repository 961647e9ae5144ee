import AccessPolicy.Proofs.Glob.Expression
import AccessPolicy.Proofs.Text.Quoting
import Mathlib.Data.List.Flatten

/-!
# Runs of stars

A star stands for any run of characters, so a second one beside it adds nothing: what the two take together, one of them
takes alone. A segment of stars asks for one character however many stars it has. In an alternative any run of stars may
therefore be written as one star (`Glob.accepts_eq_of_merged`). A quoted star is a character; it belongs to no run and ends
those beside it.

What has fewer stars also has the shorter expression (`Merged.expression_sublist`). There may be room for it where there was
none for the other, and then it accepts what the other should have accepted, but did not
(`Glob.accepts_ne_of_merged_starred`).

`Merged` says which lists come from a list by merging runs of a member, each as a whole or in parts. It passes through every
step of compiling: from glyphs to tokens, from tokens to segments, and from segments to the texts they fit.

Contents:
* `Merged`, `Merged.sublist`, `Merged.mem_iff`, `Merged.map`, `Merged.splitAll`;
* `Merged.asRead`, `Merged.tokens` — glyphs and tokens;
* `reads_star_star`, `Merged.reads_iff`, `Merged.fits_iff`, `Merged.forall₂_fits_iff`;
* `Merged.expression_sublist`, `Merged.built`;
* `Glob.any_accepts_iff`;
* **`Glob.accepts_eq_of_merged`**;
* `Glob.starred`, `Glob.built_starred_iff`, `Glob.accepts_ne_of_merged_starred`.
-/

namespace AccessPolicy

/-- Members that the test does not pick out, put in front, belong to the first stretch. -/
theorem splitAll_append_of_forall {α : Type} {p : α → Bool} {before : List α} (h : ∀ y ∈ before, p y = false)
    {ys part : List α} {parts : List (List α)} (hparts : splitAll p ys = part :: parts) :
    splitAll p (before ++ ys) = (before ++ part) :: parts := by
  induction before with
  | nil => exact hparts
  | cons y before ih =>
      obtain ⟨hy, hbefore⟩ := List.forall_mem_cons.mp h
      rw [List.cons_append, splitAll_cons, hy, ih hbefore]
      rfl

/-! ## Merging runs -/

/-- The second list is the first with runs of `x` written as one `x` each, some runs or all of them. -/
inductive Merged {α : Type} (x : α) : List α → List α → Prop where
  | nil : Merged x [] []
  | keep (y : α) {ys zs : List α} (rest : Merged x ys zs) : Merged x (y :: ys) (y :: zs)
  | run (n : Nat) {ys zs : List α} (rest : Merged x ys zs) : Merged x (List.replicate (n + 1) x ++ ys) (x :: zs)

namespace Merged

variable {α : Type} {x : α} {ys zs : List α}

theorem refl (ys : List α) : Merged x ys ys := by
  induction ys with
  | nil => exact .nil
  | cons y ys ih => exact .keep y ih

theorem sublist (h : Merged x ys zs) : zs.Sublist ys := by
  induction h with
  | nil => exact List.Sublist.slnil
  | keep y rest ih => exact ih.cons_cons y
  | run n rest ih =>
      rw [List.replicate_succ, List.cons_append]
      exact (ih.trans (List.sublist_append_right _ _)).cons_cons x

/-- Members are repeated less often, but none is lost. -/
theorem mem_iff (h : Merged x ys zs) (y : α) : y ∈ ys ↔ y ∈ zs := by
  induction h with
  | nil => exact Iff.rfl
  | keep z rest ih => rw [List.mem_cons, List.mem_cons, ih]
  | run n rest ih =>
      rw [List.mem_append, List.mem_replicate, List.mem_cons, ih]
      simp

theorem eq_nil_iff (h : Merged x ys zs) : ys = [] ↔ zs = [] := by
  simp only [List.eq_nil_iff_forall_not_mem, h.mem_iff]

theorem map {β : Type} (f : α → β) (h : Merged x ys zs) : Merged (f x) (ys.map f) (zs.map f) := by
  induction h with
  | nil => exact .nil
  | keep y rest ih => exact .keep (f y) ih
  | run n rest ih =>
      rw [List.map_append, List.map_replicate]
      exact .run n ih

/-- **Runs stay together** where a list is cut at other members. -/
theorem splitAll {p : α → Bool} (hx : p x = false) (h : Merged x ys zs) :
    List.Forall₂ (Merged x) (AccessPolicy.splitAll p ys) (AccessPolicy.splitAll p zs) := by
  induction h with
  | nil => exact .cons .nil .nil
  | @keep y ys zs rest ih =>
      rw [splitAll_cons, splitAll_cons]
      by_cases hy : p y = true
      · rw [if_pos hy, if_pos hy]
        exact .cons .nil ih
      · rw [if_neg hy, if_neg hy]
        obtain ⟨part, parts, hparts⟩ := List.exists_cons_of_ne_nil (splitAll_ne_nil p ys)
        obtain ⟨part', parts', hparts'⟩ := List.exists_cons_of_ne_nil (splitAll_ne_nil p zs)
        rw [hparts, hparts'] at ih ⊢
        cases ih with
        | cons hfirst hrest => exact .cons (.keep y hfirst) hrest
  | @run n ys zs rest ih =>
      obtain ⟨part, parts, hparts⟩ := List.exists_cons_of_ne_nil (splitAll_ne_nil p ys)
      obtain ⟨part', parts', hparts'⟩ := List.exists_cons_of_ne_nil (splitAll_ne_nil p zs)
      have hrun : ∀ y ∈ List.replicate (n + 1) x, p y = false := by
        intro y hy
        rw [List.eq_of_mem_replicate hy, hx]
      have hone : ∀ y ∈ [x], p y = false := List.forall_mem_singleton.mpr hx
      have hleft := splitAll_append_of_forall hrun hparts
      have hright := splitAll_append_of_forall hone hparts'
      rw [List.singleton_append] at hright
      rw [hparts, hparts'] at ih
      rw [hleft, hright]
      cases ih with
      | cons hfirst hrest => exact .cons (.run n hfirst) hrest

end Merged

/-! ## Glyphs and tokens -/

namespace Merged

variable {gs hs : List Glyph}

/-- Merging runs of stars leaves glyphs that reading can give. -/
theorem asRead (h : Merged (.plain '*') gs hs) (hread : Glyph.AsRead gs) : Glyph.AsRead hs := by
  induction h with
  | nil => trivial
  | keep g rest ih => exact ⟨fun hg => rest.eq_nil_iff.mp (hread.1 hg), ih hread.2⟩
  | @run n gs hs rest ih =>
      refine ⟨fun hg => absurd hg (by decide), ih ?_⟩
      have hrest (k : Nat) (h : Glyph.AsRead (List.replicate k (.plain '*') ++ gs)) : Glyph.AsRead gs := by
        induction k with
        | zero => exact h
        | succ k ih => exact ih h.2
      exact hrest (n + 1) hread

/-- The text with fewer stars has the tokens of the other, with runs of stars merged. -/
theorem tokens {alternative : List Char} (h : Merged (.plain '*') (Glyph.read alternative) gs) :
    Merged .star (AccessPolicy.tokens alternative) (AccessPolicy.tokens (Glyph.write gs)) := by
  have hread : Glyph.read (Glyph.write gs) = gs := Glyph.read_write (h.asRead (Glyph.asRead_read alternative))
  rw [AccessPolicy.tokens, AccessPolicy.tokens, hread]
  exact h.map Token.ofGlyph

/-- The text with fewer stars is no longer than the other. -/
theorem length_write_le {alternative : List Char} (h : Merged (.plain '*') (Glyph.read alternative) gs) :
    (Glyph.write gs).length ≤ alternative.length := by
  have hsublist : (Glyph.write gs).Sublist (Glyph.write (Glyph.read alternative)) := h.sublist.flatMap Glyph.spell
  rw [Glyph.write_read] at hsublist
  exact hsublist.length_le

theorem write_eq_nil_iff {alternative : List Char} (h : Merged (.plain '*') (Glyph.read alternative) gs) :
    alternative = [] ↔ Glyph.write gs = [] := by
  have hwritten (gs : List Glyph) : Glyph.write gs = [] ↔ gs = [] := by
    rw [← List.isEmpty_iff, Glyph.isEmpty_write, List.isEmpty_iff]
  rw [hwritten, ← h.eq_nil_iff, ← hwritten, Glyph.write_read]

end Merged

/-! ## Segments -/

/-- Two stars side by side read what one of them reads. -/
theorem reads_star_star (ts : List Token) (cs : List Char) :
    Reads Token.Consumes (.star :: .star :: ts) cs ↔ Reads Token.Consumes (.star :: ts) cs := by
  constructor
  · intro h
    obtain ⟨first, after, rfl, -, hafter⟩ := Reads.cons_iff.mp h
    obtain ⟨second, rest, rfl, -, hrest⟩ := Reads.cons_iff.mp hafter
    rw [← List.append_assoc]
    exact .cons trivial hrest
  · intro h
    have hnothing : Reads Token.Consumes (.star :: .star :: ts) ([] ++ cs) := .cons trivial h
    exact hnothing

theorem reads_replicate_star (n : Nat) (ts : List Token) (cs : List Char) :
    Reads Token.Consumes (List.replicate (n + 1) .star ++ ts) cs ↔ Reads Token.Consumes (.star :: ts) cs := by
  induction n with
  | zero => exact Iff.rfl
  | succ n ih =>
      rw [← ih, List.replicate_succ, List.replicate_succ]
      exact reads_star_star _ cs

namespace Merged

variable {ts us : List Token}

theorem reads_iff (h : Merged .star ts us) (cs : List Char) :
    Reads Token.Consumes ts cs ↔ Reads Token.Consumes us cs := by
  induction h generalizing cs with
  | nil => exact Iff.rfl
  | keep t rest ih => simp only [Reads.cons_iff, ih]
  | run n rest ih => simp only [reads_replicate_star, Reads.cons_iff, ih]

theorem allStars_iff (h : Merged .star ts us) : AllStars ts ↔ AllStars us := by
  simp only [AllStars, ne_eq, h.eq_nil_iff, h.mem_iff]

/-- **One segment** fits the same texts when runs of stars are merged. -/
theorem fits_iff (h : Merged .star ts us) (cs : List Char) : Fits ts cs ↔ Fits us cs := by
  unfold Fits
  by_cases hstars : AllStars ts
  · rw [if_pos hstars, if_pos (h.allStars_iff.mp hstars)]
  · rw [if_neg hstars, if_neg (mt h.allStars_iff.mpr hstars), h.reads_iff]

/-- **All segments** fit the same texts one for one. -/
theorem forall₂_fits_iff (h : Merged .star ts us) (texts : List (List Char)) :
    List.Forall₂ Fits (tokenSegments ts) texts ↔ List.Forall₂ Fits (tokenSegments us) texts := by
  have hsegments : List.Forall₂ (Merged .star) (tokenSegments ts) (tokenSegments us) := h.splitAll rfl
  generalize tokenSegments ts = parts, tokenSegments us = parts' at hsegments
  induction hsegments generalizing texts with
  | nil => exact Iff.rfl
  | cons hfirst hrest ih =>
      cases texts with
      | nil => simp
      | cons text texts =>
          rw [List.forall₂_cons, List.forall₂_cons]
          exact and_congr (hfirst.fits_iff text) (ih texts)

/-! ## Expressions -/

theorem segmentParts_sublist (h : Merged .star ts us) : (segmentParts us).Sublist (segmentParts ts) := by
  unfold segmentParts
  by_cases hstars : AllStars ts
  · rw [if_pos (onlyStars_iff.mpr hstars), if_pos (onlyStars_iff.mpr (h.allStars_iff.mp hstars))]
  · rw [if_neg (mt onlyStars_iff.mp hstars), if_neg (mt onlyStars_iff.mp (mt h.allStars_iff.mpr hstars))]
    exact h.sublist.map Token.part

/-- The expression loses the runs that are merged, and nothing else. -/
theorem expression_sublist (h : Merged .star ts us) : (expression us).Sublist (expression ts) := by
  have hsegments : List.Forall₂ (Merged .star) (tokenSegments ts) (tokenSegments us) := h.splitAll rfl
  unfold expression
  generalize tokenSegments ts = parts, tokenSegments us = parts' at hsegments
  induction hsegments with
  | nil => exact List.Sublist.refl _
  | cons hfirst hrest ih =>
      cases hrest with
      | nil =>
          simp only [List.map_cons, List.map_nil, List.intercalate_singleton]
          exact hfirst.segmentParts_sublist
      | cons _ _ =>
          simp only [List.map_cons, List.intercalate_cons_cons] at ih ⊢
          exact (hfirst.segmentParts_sublist.append (List.Sublist.refl _)).append ih

/-- **Merging makes room:** if the expression can be built, so can the one that has fewer runs. -/
theorem built (h : Merged .star ts us) (hbuilt : Built Expression.builds ts) : Built Expression.builds us := by
  intro hstar
  have hroom : Expression.bytes (expression ts) ≤ Expression.maxBytes :=
    of_decide_eq_true (hbuilt ((h.mem_iff .star).mpr hstar))
  have hbytes : Expression.bytes (expression us) ≤ Expression.bytes (expression ts) :=
    Nat.add_le_add_left (sumOf_le_of_sublist _ h.expression_sublist) _
  exact decide_eq_true (Nat.le_trans hbytes hroom)

end Merged

/-! ## Compiled alternatives -/

namespace Glob

variable {builds : List Expression.Part → Bool} {alternative : List Char}

/-- An alternative that is not too long compiles to a glob, or to none if it is empty. -/
theorem exists_compileWith_of_length_le (builds : List Expression.Part → Bool)
    (h : alternative.length ≤ Pattern.maxLength) :
    ∃ found, compileWith builds alternative = .ok found ∧ (found = none ↔ alternative = []) := by
  by_cases hne : alternative = []
  · subst hne
    exact ⟨none, rfl, iff_of_true rfl rfl⟩
  · obtain ⟨glob, hglob⟩ := exists_compileWith builds hne h
    exact ⟨some glob, hglob, iff_of_false (Option.some_ne_none glob) hne⟩

/-- What an alternative compiles to accepts a candidate if the expression was built and the segments fit. -/
theorem any_accepts_iff (hne : alternative ≠ []) {found : Option Glob}
    (h : compileWith builds alternative = .ok found) (candidate : List Char) :
    found.any (·.accepts candidate) = true ↔
      Built builds (tokens alternative) ∧
        List.Forall₂ Fits (tokenSegments (tokens alternative)) (textSegments candidate) := by
  obtain ⟨glob, hglob⟩ := exists_compileWith builds hne (length_le_of_compileWith h)
  obtain rfl := Except.ok.inj (h.symm.trans hglob)
  rw [Option.any_some]
  exact accepts_iff hglob candidate

/-- **A run of stars means one star.** Let an alternative be not too long, and let runs of unquoted stars in it be written
    as one star each, some runs or all. Both texts compile. If what they need can be built for both, or for neither, the
    same candidates are accepted. A text for which it cannot be built accepts nothing. As there is less to build for the
    text with fewer stars, there is room for it whenever there is for the other. -/
theorem accepts_eq_of_merged {alternative : List Char} (hlength : alternative.length ≤ 65536) {gs : List Glyph}
    (h : Merged (.plain '*') (Glyph.read alternative) gs) :
    (∀ builds, ∃ found merged, compileWith builds alternative = .ok found ∧
      compileWith builds (Glyph.write gs) = .ok merged ∧
      ((Built builds (tokens alternative) ↔ Built builds (tokens (Glyph.write gs))) →
        ∀ candidate, found.any (·.accepts candidate) = merged.any (·.accepts candidate)) ∧
      (¬ Built builds (tokens alternative) → ∀ candidate, found.any (·.accepts candidate) = false)) ∧
    (Built Expression.builds (tokens alternative) → Built Expression.builds (tokens (Glyph.write gs))) := by
  refine ⟨fun builds => ?_, h.tokens.built⟩
  obtain ⟨found, hfound, hnone⟩ := exists_compileWith_of_length_le builds hlength
  obtain ⟨merged, hmerged, hnone'⟩ :=
    exists_compileWith_of_length_le builds (Nat.le_trans h.length_write_le hlength)
  refine ⟨found, merged, hfound, hmerged, ?_, ?_⟩
  · intro hbuilt candidate
    by_cases hempty : alternative = []
    · rw [hnone.mpr hempty, hnone'.mpr (h.write_eq_nil_iff.mp hempty)]
    · rw [Bool.eq_iff_iff, any_accepts_iff hempty hfound,
        any_accepts_iff (mt h.write_eq_nil_iff.mpr hempty) hmerged, hbuilt, h.tokens.forall₂_fits_iff]
  · intro hunbuilt candidate
    have hempty : alternative ≠ [] := by
      rintro rfl
      exact hunbuilt fun hstar => absurd hstar List.not_mem_nil
    rw [Bool.eq_false_iff, ne_eq, any_accepts_iff hempty hfound]
    exact fun haccepts => hunbuilt haccepts.1

/-- A run beside a character and before a quoted star, a run that is a whole segment, and one at the end that is left as it
    is. The quoted star is asked for as before. -/
theorem accepts_eq_of_merged_quotedStar :
    ∃ found merged, compile "a***\\**b/**/c**".toList = .ok found ∧ compile "a*\\**b/*/c**".toList = .ok merged ∧
      (∀ candidate, found.any (·.accepts candidate) = merged.any (·.accepts candidate)) ∧
      merged.any (·.accepts "a*b/x/c".toList) = true ∧ merged.any (·.accepts "ab/x/c".toList) = false := by
  have hread : Glyph.read "a***\\**b/**/c**".toList =
      [.plain 'a', .plain '*', .plain '*', .plain '*', .quoted '*', .plain '*', .plain 'b', .plain '/', .plain '*',
        .plain '*', .plain '/', .plain 'c', .plain '*', .plain '*'] := by decide
  have hmerged : Merged (.plain '*') (Glyph.read "a***\\**b/**/c**".toList) (Glyph.read "a*\\**b/*/c**".toList) := by
    rw [hread]
    exact .keep _ (.run 2 (.keep _ (.keep _ (.keep _ (.keep _ (.run 1 (.keep _ (.keep _ (.keep _ (.keep _ .nil))))))))))
  obtain ⟨hcompile, hroom⟩ := accepts_eq_of_merged (by decide) hmerged
  have hbuilt : Built Expression.builds (tokens "a***\\**b/**/c**".toList) := by decide
  obtain ⟨found, merged, hfound, hcompile, haccepts, -⟩ := hcompile Expression.builds
  rw [Glyph.write_read] at hcompile
  refine ⟨found, merged, hfound, hcompile, haccepts (iff_of_true hbuilt (hroom hbuilt)), ?_⟩
  obtain rfl := Except.ok.inj hcompile
  exact ⟨rfl, rfl⟩

/-! ## A run before a long text -/

/-- A letter, stars, and letters. -/
def starred (stars letters : Nat) : List Char :=
  'a' :: (List.replicate stars '*' ++ List.replicate letters 'b')

theorem mem_starred {m n : Nat} {c : Char} (h : c ∈ starred m n) : c = 'a' ∨ c = '*' ∨ c = 'b' := by
  rcases List.mem_cons.mp h with rfl | h
  · exact Or.inl rfl
  · rcases List.mem_append.mp h with h | h
    · exact Or.inr (Or.inl (List.eq_of_mem_replicate h))
    · exact Or.inr (Or.inr (List.eq_of_mem_replicate h))

theorem singleSegment_starred (m n : Nat) : SingleSegment (starred m n) :=
  { backslash_not_mem := fun hmem => absurd (mem_starred hmem) (by decide)
    slash_not_mem := fun hmem => absurd (mem_starred hmem) (by decide)
    exists_mem_ne := ⟨'a', List.mem_cons_self, by decide⟩ }

theorem count_starred (m n : Nat) : (starred m n).count '*' = m := by
  simp [starred, List.count_append, List.count_replicate]

/-- With stars in it, it can be built as long as there is room for all stars and letters. -/
theorem built_starred_iff {m : Nat} (hm : m ≠ 0) (n : Nat) :
    Built Expression.builds (tokens (starred m n)) ↔ 160 + 1040 * m + 32 * n ≤ 2097152 := by
  have hstar : '*' ∈ starred m n :=
    List.mem_cons_of_mem _ (List.mem_append_left _ (List.mem_replicate.mpr ⟨hm, rfl⟩))
  have hletters : (starred m n).filter (· ≠ '*') = 'a' :: List.replicate n 'b' := by
    simp [starred, List.filter_append]
  have ha : Char.utf8Size 'a' = 1 := by decide
  have hb : Char.utf8Size 'b' = 1 := by decide
  rw [(singleSegment_starred m n).built_iff, imp_iff_right hstar, count_starred, hletters, sumOf_cons, sumOf_replicate, ha, hb]
  omega

/-- However many stars there are, the letters fit. -/
theorem fits_starred (m n : Nat) :
    List.Forall₂ Fits (tokenSegments (tokens (starred m n))) (textSegments (starred 0 n)) := by
  rw [(singleSegment_starred m n).fits_iff fun hmem => absurd (mem_starred hmem) (by decide),
    (singleSegment_starred m n).tokens_eq, starred, starred, List.map_cons, List.map_append]
  -- The letters on either side read themselves, and the stars read nothing.
  have hstars : Reads Token.Consumes ((List.replicate m '*').map fun c => Token.ofGlyph (.plain c)) [] := by
    rw [reads_nil_iff, List.map_replicate]
    exact fun t => List.eq_of_mem_replicate
  have hrest := Reads.append_iff.mpr ⟨[], List.replicate n 'b', rfl, hstars, reads_self _⟩
  exact Reads.cons_iff.mpr ⟨['a'], List.replicate n 'b', rfl, rfl, hrest⟩

theorem merged_starred (m n : Nat) :
    Merged (.plain '*') (Glyph.read (starred (m + 1) n)) (Glyph.read (starred 1 n)) := by
  rw [Glyph.read_of_not_mem (singleSegment_starred (m + 1) n).backslash_not_mem,
    Glyph.read_of_not_mem (singleSegment_starred 1 n).backslash_not_mem]
  have hrun : Merged '*' (starred (m + 1) n) (starred 1 n) := .keep 'a' (.run m (.refl _))
  exact hrun.map Glyph.plain

/-- Of 1,000 stars between a letter and 64,000 more, in no more than 65,536 characters, one star is left. There is room
    for the one, but not for all of them, so the letters are accepted only afterwards. -/
theorem accepts_ne_of_merged_starred :
    (starred 1000 64000).length ≤ 65536 ∧ wildcards (tokens (starred 1000 64000)) ≤ 1000 ∧
      Merged (.plain '*') (Glyph.read (starred 1000 64000)) (Glyph.read (starred 1 64000)) ∧
      ∃ found merged, compile (starred 1000 64000) = .ok (some found) ∧
        compile (starred 1 64000) = .ok (some merged) ∧
        ¬ found.accepts (starred 0 64000) = true ∧ merged.accepts (starred 0 64000) = true := by
  have hlength (m n : Nat) : (starred m n).length = m + n + 1 := by
    rw [starred, List.length_cons, List.length_append, List.length_replicate, List.length_replicate]
  have hcount : wildcards (tokens (starred 1000 64000)) = 1000 := by
    rw [(singleSegment_starred 1000 64000).wildcards_eq, count_starred]
  have hlong : (starred 1000 64000).length ≤ 65536 := by
    rw [hlength]
    decide
  have hshort : (starred 1 64000).length ≤ 65536 := by
    rw [hlength]
    decide
  obtain ⟨found, hfound⟩ := exists_compileWith Expression.builds (singleSegment_starred _ _).ne_nil hlong
  obtain ⟨merged, hmerged⟩ := exists_compileWith Expression.builds (singleSegment_starred _ _).ne_nil hshort
  refine ⟨hlong, Nat.le_of_eq hcount, merged_starred 999 64000, found, merged, hfound, hmerged, ?_, ?_⟩
  · rw [accepts_iff hfound, built_starred_iff (by decide)]
    exact fun h => absurd h.1 (by decide)
  · rw [accepts_iff hmerged, built_starred_iff (by decide)]
    exact ⟨by decide, fits_starred _ _⟩

end Glob

end AccessPolicy
