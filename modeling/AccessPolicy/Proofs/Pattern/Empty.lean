import AccessPolicy.Proofs.Glob.Expression
import AccessPolicy.Proofs.Pattern.Acceptance
import AccessPolicy.Proofs.Statement.Outcome

/-!
# The empty candidate

Empty texts come up everywhere on the way from a pattern to what it accepts. A choice may have empty parts, what it
spells out may be empty as a whole, segments are empty beside a slash, and a star stands for no characters as well as
for some. None of this makes a pattern accept the empty candidate.

The reason is the same whatever an alternative compiles to. The empty candidate has one segment, and that is empty. A
segment that fits it has no token that asks for a character, so it could only be stars, which alone ask for one after
all; and as an only segment without any tokens it would be the whole of an alternative that is empty
(`tokens_eq_nil_of_fits`). Such an alternative compiles to nothing.

What is left is the blank pattern (`Pattern.accepts_empty_iff`). A statement may come to have one by filling: a
placeholder alone, for a path that leads to the empty text, is blank once it is filled
(`Statement.exists_blank_of_decide`).

Contents:
* `tokens_eq_nil_of_fits`, `Glob.not_admits_nil`;
* `Pattern.matches?_empty_iff`, **`Pattern.accepts_empty_iff`**;
* `Statement.exists_blank_of_decide`.
-/

namespace AccessPolicy

/-! ## Alternatives -/

/-- Only where there are no tokens do the segments fit those of the empty candidate. -/
theorem tokens_eq_nil_of_fits {ts : List Token} (h : List.Forall₂ Fits (tokenSegments ts) (textSegments [])) :
    ts = [] := by
  obtain ⟨segment, rest, hfits, hrest, hsegments⟩ := List.forall₂_cons_right_iff.mp h
  obtain rfl := Fits.nil_iff.mp hfits
  obtain rfl := List.forall₂_nil_right_iff.mp hrest
  rw [← intercalate_splitAll .separator ts, ← tokenSegments, hsegments]
  rfl

/-- **No alternative admits the empty candidate.** -/
theorem Glob.not_admits_nil (alternative : List Char) : ¬ Admits alternative [] := by
  rintro ⟨glob, hcompile, haccepts⟩
  have htokens := tokens_eq_nil_of_fits (fits_of_accepts hcompile haccepts)
  by_cases hne : alternative = []
  · subst hne
    have hnothing : compile [] = .ok none := rfl
    exact absurd (hnothing.symm.trans hcompile) (by simp)
  · exact tokens_ne_nil hne htokens

/-! ## Patterns and statements -/

namespace Pattern

/-- The blank pattern accepts the empty candidate, and no other pattern does. -/
theorem matches?_empty_iff {pattern : String} :
    matches? pattern "" = .ok true ↔ Text.trim pattern.toList = [] := by
  constructor
  · intro h
    by_contra hne
    obtain ⟨p, hp, haccepts⟩ := matches?_eq_ok_iff.mp h
    obtain ⟨alternatives, hexpand, -⟩ := (exists_compile_iff hne).mp ⟨p, hp⟩
    obtain ⟨alternative, -, hadmits⟩ := (accepts_iff hne hexpand hp "").mp haccepts
    exact Glob.not_admits_nil alternative hadmits
  · intro hblank
    exact matches?_of_blank hblank ""

/-- **The empty candidate is accepted by the blank pattern only.** Of the patterns that compile, with whatever choices,
    empty parts, stars and quoted characters, those accept the empty candidate that are empty once they are trimmed. -/
theorem accepts_empty_iff {pattern : String} {p : Pattern} (h : compile pattern = .ok p) :
    p.accepts "" = true ↔ Text.trim pattern.toList = [] := by
  rw [← matches?_empty_iff, matches?_eq_ok_iff]
  constructor
  · intro haccepts
    exact ⟨p, h, haccepts⟩
  · rintro ⟨q, hq, haccepts⟩
    obtain rfl := Except.ok.inj (h.symm.trans hq)
    exact haccepts

/-- Of the twelve texts that these choices spell out one is empty; of the others two are stars alone, and a slash stands
    between an empty segment and a quoted blank. Then a pattern of which nothing is left. -/
theorem accepts_empty_iff_emptyParts :
    (∃ p, compile " \x7b,*\x7d\x7b*,\x7d\x7b,/\\ ,b*\x7d\t" = .ok p ∧ p.globs.length = 11 ∧
        (p.accepts "" = true ↔ Text.trim " \x7b,*\x7d\x7b*,\x7d\x7b,/\\ ,b*\x7d\t".toList = [])) ∧
      ∃ p, compile "\u2003 \n" = .ok p ∧ (p.accepts "" = true ↔ Text.trim "\u2003 \n".toList = []) := by
  constructor
  · obtain ⟨p, hp, hglobs⟩ : ∃ p, compile " \x7b,*\x7d\x7b*,\x7d\x7b,/\\ ,b*\x7d\t" = .ok p ∧ p.globs.length = 11 :=
      ⟨_, rfl, rfl⟩
    exact ⟨p, hp, hglobs, accepts_empty_iff hp⟩
  · obtain ⟨p, hp⟩ : ∃ p, compile "\u2003 \n" = .ok p := ⟨_, rfl⟩
    exact ⟨p, hp, accepts_empty_iff hp⟩

end Pattern

/-- **A statement that matches an empty action or resource** has a pattern for it that is blank once it is filled. -/
theorem Statement.exists_blank_of_decide (s : Statement) {r : Request} (h : s.decide r = .ok true) :
    (r.action = "" → ∃ pattern ∈ s.actions, Text.trim (fill r.context pattern).toList = []) ∧
      (r.resource = "" → ∃ pattern ∈ s.resources, Text.trim (fill r.context pattern).toList = []) := by
  obtain ⟨haction, hresource, -⟩ := justified_of_decide h
  constructor
  · intro hempty
    obtain ⟨pattern, hmem, haccepts⟩ := haction.exists_mem
    rw [hempty] at haccepts
    exact ⟨pattern, hmem, Pattern.matches?_empty_iff.mp haccepts⟩
  · intro hempty
    obtain ⟨pattern, hmem, haccepts⟩ := hresource.exists_mem
    rw [hempty] at haccepts
    exact ⟨pattern, hmem, Pattern.matches?_empty_iff.mp haccepts⟩

end AccessPolicy
