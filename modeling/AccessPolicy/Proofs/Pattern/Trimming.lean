import AccessPolicy.Proofs.Glob.Expression
import AccessPolicy.Proofs.Pattern.Quiet
import AccessPolicy.Proofs.Pattern.Verbatim

/-!
# Trimming comes before quoting

Blanks are cut off the ends of a pattern before it is read into glyphs, so that trimming knows nothing of quoting. At
the start this makes no difference: a quoted blank stands behind its backslash there. At the end it does. A text *ends
quoted* if an odd number of backslashes stand before its last character; if that character is a blank, it is cut off all
the same, and the backslash that quoted it is left at the very end, where a backslash stands for itself
(`EndsQuoted.exists_trim`).

Such a pattern is therefore the pattern without its last character. If it opens no choice, what it accepts ends in a
backslash, and not in the blank that was quoted (`Pattern.accepts_torn`).

Contents:
* `Glyph.read_replicate_append`;
* `EndsQuoted`, `EndsQuoted.exists_trim`;
* `Glob.Admits.getLast?_eq` — what an alternative ends in, so does what it admits;
* **`Pattern.accepts_torn`**, `Pattern.accepts_backslash_for_quotedBlank`.
-/

namespace AccessPolicy

/-! ## Runs of backslashes -/

namespace Glyph

/-- Of an even number of backslashes every other one quotes the one after it. -/
theorem read_replicate_append (k : Nat) (cs : List Char) :
    read (List.replicate (2 * k) '\\' ++ cs) = List.replicate k (.quoted '\\') ++ read cs := by
  induction k with
  | zero => rfl
  | succ k ih =>
      have htwo : List.replicate (2 * (k + 1)) '\\' = '\\' :: '\\' :: List.replicate (2 * k) '\\' := rfl
      rw [htwo, List.cons_append, List.cons_append, read_quoted, ih]
      rfl

end Glyph

/-! ## A quoted character at the end -/

/-- The text ends in a quoted character: an odd number of backslashes stand before it. -/
def EndsQuoted (cs : List Char) (c : Char) : Prop :=
  ∃ before k, before.getLast? ≠ some '\\' ∧ cs = before ++ (List.replicate (2 * k + 1) '\\' ++ [c])

/-- There is nothing to trim where no blank stands in front and backslashes stand at the end. -/
theorem trimmed_append_backslashes {lead : List Char} (h : ∀ b ∈ lead.head?, Text.isBlank b = false) (k : Nat) :
    Text.Trimmed (lead ++ List.replicate (2 * k + 1) '\\') where
  first := by
    intro b hb
    cases lead with
    | nil =>
        obtain rfl : '\\' = b := Option.some.inj hb
        rfl
    | cons d lead => exact h b hb
  last := by
    intro b hb
    rw [List.replicate_succ', ← List.append_assoc, List.getLast?_concat] at hb
    obtain rfl : '\\' = b := Option.some.inj hb
    rfl

/-- **A quoted blank at the end is torn.** Of the glyphs of a text that ends in one, trimming leaves all but blanks in
    front, and in place of the last its backslash. -/
theorem EndsQuoted.exists_trim {cs : List Char} {c : Char} (h : EndsQuoted cs c) (hc : Text.isBlank c = true) :
    ∃ (blanks : List Char) (gs : List Glyph), Glyph.read cs = blanks.map .plain ++ (gs ++ [.quoted c]) ∧
      Glyph.read (Text.trim cs) = gs ++ [.plain '\\'] := by
  obtain ⟨before, k, hbefore, rfl⟩ := h
  obtain ⟨blanks, lead, rfl, hblanks, hfirst⟩ : ∃ blanks lead, before = blanks ++ lead ∧
      (∀ b ∈ blanks, Text.isBlank b = true) ∧ ∀ b ∈ lead.head?, Text.isBlank b = false :=
    ⟨before.takeWhile Text.isBlank, before.dropWhile Text.isBlank, List.takeWhile_append_dropWhile.symm,
      List.all_eq_true.mp List.all_takeWhile, Text.first_dropWhile before⟩
  -- No backslash stands right before the blanks, the lead or the backslashes at the end.
  have hquote : '\\' ∉ blanks := fun hmem => absurd (hblanks _ hmem) (by decide)
  have hblanksLast : blanks.getLast? ≠ some '\\' := fun hlast => hquote (List.mem_of_getLast? hlast)
  have hleadLast : lead.getLast? ≠ some '\\' := by
    intro hlast
    rw [List.getLast?_append, hlast] at hbefore
    exact hbefore rfl
  have hread (rest : List Char) : Glyph.read (lead ++ (List.replicate (2 * k + 1) '\\' ++ rest)) =
      Glyph.read lead ++ (List.replicate k (.quoted '\\') ++ Glyph.read ('\\' :: rest)) := by
    rw [Glyph.read_append (Glyph.complete_of_getLast? hleadLast), List.replicate_succ', List.append_assoc,
      Glyph.read_replicate_append]
    rfl
  refine ⟨blanks, Glyph.read lead ++ List.replicate k (.quoted '\\'), ?_, ?_⟩
  · rw [List.append_assoc, Glyph.read_append (Glyph.complete_of_getLast? hblanksLast), Glyph.read_of_not_mem hquote,
      hread, List.append_assoc]
    rfl
  · have htrim : Text.trim (blanks ++ lead ++ (List.replicate (2 * k + 1) '\\' ++ [c])) =
        lead ++ List.replicate (2 * k + 1) '\\' := by
      rw [← List.append_assoc, Text.trim_append_singleton hc, List.append_assoc]
      exact (trimmed_append_backslashes hfirst k).trim_append hblanks
    have hend := hread []
    rw [List.append_nil] at hend
    rw [htrim, hend, List.append_assoc]
    rfl

/-! ## What alternatives end in -/

/-- What an alternative admits ends in the character that the alternative ends in, if that is not a star. -/
theorem Glob.Admits.getLast?_eq {alternative candidate : List Char} (h : Admits alternative candidate) {ts : List Token}
    {c : Char} (hts : tokens alternative = ts ++ [.char c]) : candidate.getLast? = some c := by
  obtain ⟨glob, hcompile, haccepts⟩ := h
  have hreads := reads_of_fits (fits_of_accepts hcompile haccepts)
  rw [hts, Reads.append_iff] at hreads
  obtain ⟨left, right, rfl, -, hlast⟩ := hreads
  have hpiece : Token.Consumes (.char c) right := Reads.singleton_iff.mp hlast
  obtain rfl : right = [c] := hpiece
  exact List.getLast?_concat

/-! ## Patterns -/

namespace Pattern

/-- **A quoted blank at the end of a pattern** is trimmed off with the blanks that are not quoted. What is compiled is
    the pattern without it, and if no choice is opened, every candidate that is accepted ends in the backslash that is
    left. -/
theorem accepts_torn {pattern : String} {c : Char} (hends : EndsQuoted pattern.toList c) (hc : Text.isBlank c = true)
    (hopen : Glyph.plain '\x7b' ∉ Glyph.read pattern.toList) {p : Pattern} (hp : compile pattern = .ok p) :
    compile (String.ofList pattern.toList.dropLast) = .ok p ∧
      ∀ candidate, p.accepts candidate = true → candidate.toList.getLast? = some '\\' := by
  obtain ⟨blanks, gs, hread, htorn⟩ := hends.exists_trim hc
  constructor
  · obtain ⟨before, k, -, hsplit⟩ := hends
    have hlast : pattern.toList = pattern.toList.dropLast ++ [c] := by
      rw [hsplit, ← List.append_assoc, List.dropLast_concat]
    have htrim : Text.trim (String.ofList pattern.toList.dropLast).toList = Text.trim pattern.toList := by
      rw [String.toList_ofList]
      conv => rhs; rw [hlast, Text.trim_append_singleton hc]
    rw [← hp, compile, compile, htrim]
  · intro candidate haccepts
    -- What is left opens no choice either, so it is its own single alternative.
    have hkept : Glyph.plain '\x7b' ∉ gs ++ [.plain '\\'] := by
      rw [hread] at hopen
      simp only [List.mem_append, List.mem_singleton, not_or] at hopen ⊢
      exact ⟨hopen.2.1, by decide⟩
    have hwrite : Glyph.write (gs ++ [.plain '\\']) = Text.trim pattern.toList := by
      rw [← htorn, Glyph.write_read]
    have hexpand : expand (Text.trim pattern.toList) = .ok [Text.trim pattern.toList] := by
      rw [← hwrite]
      exact expand_write hkept (by rw [hwrite, htorn])
    have hne : Text.trim pattern.toList ≠ [] := by
      intro hnil
      rw [hnil] at htorn
      exact absurd htorn (by simp)
    have htokens : tokens (Text.trim pattern.toList) = gs.map Token.ofGlyph ++ [.char '\\'] := by
      rw [tokens, htorn, List.map_append]
      rfl
    exact ((accepts_iff_of_single hne hexpand hp candidate).mp haccepts).getLast?_eq htokens

/-- A wide blank behind three backslashes, of which the third would quote it, with blanks and a star before them: two
    backslashes are asked for, the second of them for being left at the end. -/
theorem accepts_torn_wideBlank :
    EndsQuoted "\t a*\\\\\\\u2003".toList '\u2003' ∧
      ∃ p, compile "\t a*\\\\\\\u2003" = .ok p ∧ compile "\t a*\\\\\\" = .ok p ∧
        (∀ candidate, p.accepts candidate = true → candidate.toList.getLast? = some '\\') ∧
        p.accepts "a b\\\\" = true := by
  have hends : EndsQuoted "\t a*\\\\\\\u2003".toList '\u2003' := ⟨"\t a*".toList, 1, by decide, rfl⟩
  obtain ⟨p, hp, haccepts⟩ : ∃ p, compile "\t a*\\\\\\\u2003" = .ok p ∧ p.accepts "a b\\\\" = true := ⟨_, rfl, rfl⟩
  obtain ⟨hsame, hlast⟩ := accepts_torn hends rfl (by decide) hp
  exact ⟨hends, p, hp, hsame, hlast, haccepts⟩

/-- A quoted blank at the end is not asked for: what is accepted has a backslash in its place, and the blank is
    refused. -/
theorem accepts_backslash_for_quotedBlank :
    EndsQuoted "a\\ ".toList ' ' ∧ Text.isBlank ' ' = true ∧ Glyph.plain '\x7b' ∉ Glyph.read "a\\ ".toList ∧
      ∃ p, compile "a\\ " = .ok p ∧ p.accepts "a\\" = true ∧ "a\\".toList.getLast? ≠ some ' ' ∧
        p.accepts "a " = false :=
  ⟨⟨['a'], 0, by decide, rfl⟩, rfl, by decide, _, rfl, rfl, by decide, rfl⟩

end Pattern

end AccessPolicy
