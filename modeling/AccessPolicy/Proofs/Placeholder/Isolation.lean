import AccessPolicy.Proofs.Glob.Expression
import AccessPolicy.Proofs.Placeholder.Template
import AccessPolicy.Proofs.Statement.Outcome

/-!
# Isolation by a placeholder

A placeholder that takes up a whole segment of its template pins that segment. Whatever wildcards stand around it,
stars cross no slash, so as many slashes come before it in every accepted candidate as in the template itself; and
where it is filled with a *word*, a quiet text without stars or slashes, the segment there is that word
(`Template.Aligned.segment_of_matches?`).

Candidates that are accepted under two fillings would have two different segments in one place. No resource is
therefore within reach of both, and no statement that names its resources by such a template only matches under both
(`Template.Aligned.not_both_match`).

Contents:
* `Word`, `Word.fits_iff` — a text that fits itself only;
* `Template.Aligned`, `Template.place`, `Template.Aligned.segment_of_matches?`;
* `Template.Aligned.not_both_accept`, **`Template.Aligned.not_both_match`**.
-/

namespace AccessPolicy

/-! ## Words -/

/-- A quiet text that stands for itself and stays within one segment. -/
structure Word (cs : List Char) : Prop where
  quiet : Quiet cs
  not_mem_star : '*' ∉ cs
  not_mem_slash : '/' ∉ cs

instance (cs : List Char) : Decidable (Word cs) :=
  decidable_of_iff (Quiet cs ∧ '*' ∉ cs ∧ '/' ∉ cs)
    ⟨fun ⟨hquiet, hstar, hslash⟩ => ⟨hquiet, hstar, hslash⟩, fun ⟨hquiet, hstar, hslash⟩ => ⟨hquiet, hstar, hslash⟩⟩

namespace Token

/-- Characters read the text that they spell. -/
theorem reads_char_iff (word cs : List Char) : Reads Consumes (word.map .char) cs ↔ cs = word := by
  induction word generalizing cs with
  | nil => simp
  | cons c word ih =>
      rw [List.map_cons, Reads.cons_iff]
      constructor
      · rintro ⟨piece, rest, rfl, rfl, hrest⟩
        rw [(ih rest).mp hrest]
        rfl
      · rintro rfl
        exact ⟨[c], word, rfl, rfl, (ih word).mpr rfl⟩

end Token

/-- **A word fits itself** and nothing else. -/
theorem Word.fits_iff {word : List Char} (h : Word word) (text : List Char) :
    Fits (word.map fun c => Token.ofGlyph (.plain c)) text ↔ text = word := by
  obtain ⟨-, hstar, hslash⟩ := h
  have htokens : (word.map fun c => Token.ofGlyph (.plain c)) = word.map .char := by
    apply List.map_congr_left
    intro c hc
    exact Token.ofGlyph_plain (fun heq => hstar (heq ▸ hc)) (fun heq => hslash (heq ▸ hc))
  have hstars : ¬ AllStars (word.map Token.char) := by
    rintro ⟨hne, hall⟩
    obtain ⟨t, rest, ht⟩ := List.exists_cons_of_ne_nil hne
    have hmem : t ∈ word.map Token.char := by
      rw [ht]
      exact List.mem_cons_self
    obtain ⟨c, -, rfl⟩ := List.mem_map.mp hmem
    exact absurd (hall _ hmem) (by simp)
  rw [htokens, Fits, if_neg hstars, Token.reads_char_iff]

/-! ## One place among segments -/

/-- In lists that are related one for one, a member is related to what is in its place. -/
theorem exists_of_forall₂_append_cons {α β : Type} {R : α → β → Prop} {before after : List α} {x : α} {ys : List β}
    (h : List.Forall₂ R (before ++ x :: after) ys) : ∃ y, ys[before.length]? = some y ∧ R x y := by
  have hfrom := List.forall₂_drop before.length h
  rw [List.drop_left] at hfrom
  obtain ⟨y, rest, hrelated, -, hdrop⟩ := List.forall₂_cons_left_iff.mp hfrom
  refine ⟨y, ?_, hrelated⟩
  rw [← List.head?_drop, hdrop]
  rfl

namespace Template

/-- The placeholder takes up a whole segment: a slash stands before it, or nothing, and a slash stands after it, or
    nothing. -/
structure Aligned (t : Template) : Prop where
  lead : t.lead = [] ∨ t.lead.getLast? = some '/'
  tail : t.tail = [] ∨ t.tail.head? = some '/'

/-- Which segment the placeholder takes up, counted from zero. -/
def place (t : Template) : Nat :=
  t.lead.count '/'

/-- What fills the placeholder is the first segment from there on, and those after it do not depend on it. -/
theorem Aligned.textSegments_tail {t : Template} (h : t.Aligned) :
    ∃ after, ∀ filling, '/' ∉ filling → textSegments (filling ++ t.tail) = filling :: after := by
  rcases h.tail with hnil | hhead
  · refine ⟨[], fun filling hslash => ?_⟩
    rw [hnil, List.append_nil]
    exact textSegments_of_not_mem hslash
  · obtain ⟨tail, htail⟩ := List.head?_eq_some_iff.mp hhead
    refine ⟨textSegments tail, fun filling hslash => ?_⟩
    rw [htail]
    exact textSegments_append hslash tail

/-- The segments before the placeholder, and those after it, are the same whatever it is filled with. -/
theorem Aligned.textSegments_around {t : Template} (h : t.Aligned) :
    ∃ before after, before.length = t.place ∧
      ∀ filling, '/' ∉ filling → textSegments (t.around filling) = before ++ filling :: after := by
  obtain ⟨after, hafter⟩ := h.textSegments_tail
  rcases h.lead with hnil | hlast
  · refine ⟨[], after, ?_, fun filling hslash => ?_⟩
    · rw [place, hnil]
      rfl
    · rw [around, hnil, List.nil_append]
      exact hafter filling hslash
  · obtain ⟨lead, hlead⟩ := List.getLast?_eq_some_iff.mp hlast
    refine ⟨textSegments lead, after, ?_, fun filling hslash => ?_⟩
    · rw [place, hlead, List.count_append, textSegments, length_splitAll]
      rfl
    · have hcut : textSegments (lead ++ '/' :: (filling ++ t.tail)) =
          textSegments lead ++ textSegments (filling ++ t.tail) := splitAll_append (by decide) lead _
      rw [around, hlead, List.append_assoc, List.append_assoc, List.singleton_append, hcut, hafter filling hslash]

/-- **The placeholder pins its segment:** every candidate that the template accepts around a word has that word in the
    place of the placeholder. -/
theorem Aligned.segment_of_matches? {t : Template} (h : t.Aligned) {word : List Char} (hword : Word word)
    {candidate : String} (haccepts : Pattern.matches? (String.ofList (t.around word)) candidate = .ok true) :
    (textSegments candidate.toList)[t.place]? = some word := by
  have hquiet : Quiet (t.around word) := t.quiet_around hword.quiet
  obtain ⟨before, after, hplace, hsegments⟩ := h.textSegments_around
  by_cases hne : t.around word = []
  · -- The whole pattern is blank, and so is the candidate.
    have hblank : Text.trim (String.ofList (t.around word)).toList = [] := by rw [hquiet.trim_eq, hne]
    rw [Pattern.matches?_of_blank hblank] at haccepts
    have hcandidate : candidate.toList = t.around word := by
      rw [hne, String.toList_eq_nil_iff, ← String.isEmpty_iff]
      exact Except.ok.inj haccepts
    rw [hcandidate, hsegments word hword.not_mem_slash, ← hplace]
    simp
  · -- Segments fit one for one, so the word meets what the candidate has in its place.
    obtain ⟨glob, hglob, hcandidate⟩ := (hquiet.matches?_iff hne).mp haccepts
    have hfits := Glob.fits_of_accepts hglob hcandidate
    rw [tokenSegments_of_not_mem hquiet.not_mem_backslash, hsegments word hword.not_mem_slash, List.map_append,
      List.map_cons] at hfits
    obtain ⟨segment, hsegment, hfit⟩ := exists_of_forall₂_append_cons hfits
    rw [List.length_map, hplace] at hsegment
    rw [hsegment, (hword.fits_iff segment).mp hfit]

/-- Filled from a context, the template shows in its place what the context fills it with. -/
theorem Aligned.segment_of_fill {t : Template} (h : t.Aligned) {c : Datum} (hword : Word (Piece.filling c t.path))
    {candidate : String} (haccepts : Pattern.matches? (fill (some c) t.text) candidate = .ok true) :
    (textSegments candidate.toList)[t.place]? = some (Piece.filling c t.path) := by
  rw [t.fill_text hword.quiet.isBlank_eq_false] at haccepts
  exact h.segment_of_matches? hword haccepts

/-- One segment cannot show two different words. -/
theorem Aligned.not_both_accept {t : Template} (h : t.Aligned) {c₁ c₂ : Datum}
    (hword₁ : Word (Piece.filling c₁ t.path)) (hword₂ : Word (Piece.filling c₂ t.path))
    (hne : Piece.filling c₁ t.path ≠ Piece.filling c₂ t.path) (candidate : String) :
    ¬ (Pattern.matches? (fill (some c₁) t.text) candidate = .ok true ∧
      Pattern.matches? (fill (some c₂) t.text) candidate = .ok true) := by
  rintro ⟨haccepts₁, haccepts₂⟩
  have hsegment₁ := h.segment_of_fill hword₁ haccepts₁
  have hsegment₂ := h.segment_of_fill hword₂ haccepts₂
  exact hne (Option.some.inj (hsegment₁.symm.trans hsegment₂))

/-- **Isolation.** Filled from two contexts with two different words, a template whose placeholder takes up a whole
    segment accepts no candidate under both. A statement that names its resources by this template alone does
    therefore not match under both contexts, as long as the resource is the same. -/
theorem Aligned.not_both_match {t : Template} (h : t.Aligned) {c₁ c₂ : Datum}
    (hword₁ : Word (Piece.filling c₁ t.path)) (hword₂ : Word (Piece.filling c₂ t.path))
    (hne : Piece.filling c₁ t.path ≠ Piece.filling c₂ t.path) :
    (∀ candidate, ¬ (Pattern.matches? (fill (some c₁) t.text) candidate = .ok true ∧
      Pattern.matches? (fill (some c₂) t.text) candidate = .ok true)) ∧
    ∀ (s : Statement) (r₁ r₂ : Request), s.resources = [t.text] → r₁.context = some c₁ → r₂.context = some c₂ →
      r₁.resource = r₂.resource → ¬ (s.decide r₁ = .ok true ∧ s.decide r₂ = .ok true) := by
  have hpatterns := h.not_both_accept hword₁ hword₂ hne
  refine ⟨hpatterns, fun s r₁ r₂ hresources hcontext₁ hcontext₂ hresource => ?_⟩
  rintro ⟨hmatch₁, hmatch₂⟩
  have haccepts₁ := s.accepts_of_decide hmatch₁
  have haccepts₂ := s.accepts_of_decide hmatch₂
  rw [hresources, hcontext₁] at haccepts₁
  rw [hresources, hcontext₂, ← hresource] at haccepts₂
  simp only [List.mem_singleton, exists_eq_left] at haccepts₁ haccepts₂
  exact hpatterns r₁.resource ⟨haccepts₁, haccepts₂⟩

/-- The documents of one user, whatever comes after. -/
def userDocuments : Template where
  lead := "docs/".toList
  path := "user.id".toList
  tail := "/*".toList
  lead_quiet := by decide
  tail_quiet := by decide
  path_readable := by decide

/-- What user 42 may read is out of reach where no user is known. -/
theorem Aligned.not_both_match_userDocuments :
    Pattern.matches? (fill (some (.record [("user", .record [("id", .text "42")])])) userDocuments.text)
        "docs/42/plan" = .ok true ∧
      ¬ (Pattern.matches? (fill (some (.record [("user", .record [("id", .text "42")])])) userDocuments.text)
          "docs/42/plan" = .ok true ∧
        Pattern.matches? (fill (some (.record [])) userDocuments.text) "docs/42/plan" = .ok true) := by
  have haligned : userDocuments.Aligned := ⟨Or.inr rfl, Or.inr rfl⟩
  have hknown : Piece.filling (.record [("user", .record [("id", .text "42")])]) userDocuments.path = ['4', '2'] := rfl
  have hunknown : Piece.filling (.record []) userDocuments.path = Piece.undefined.toList := rfl
  have hboth := haligned.not_both_match (by rw [hknown]; decide) (by rw [hunknown]; decide)
    (by rw [hknown, hunknown]; decide)
  exact ⟨by decide, hboth.1 "docs/42/plan"⟩

end Template

end AccessPolicy
