import AccessPolicy.Proofs.Choice.Expansion
import AccessPolicy.Proofs.Glob.Expression
import AccessPolicy.Proofs.Pattern.Acceptance
import AccessPolicy.Proofs.Text.Quoting
import AccessPolicy.Proofs.Text.Tidy
import Mathlib.Data.Finset.Insert

/-!
# Patterns that stand for one text

Quoting is read twice: choices are looked for in the glyphs of a pattern, and what is spelled out is read into glyphs
again to be compiled. In between it is text, with its backslashes in place. Before both, blanks are cut off the ends, and
that pass knows nothing of quoting.

A *spelling* is a list of glyphs that goes through all of this unchanged: no glyph of it opens a choice, is a star or
quotes what comes next, and neither end is a blank that would be cut off. Its characters may be quoted or not, one by
one; a slash separates segments either way, and as there is no star nothing depends on that. As a pattern a spelling
accepts the text of its characters and no other (`Spelling.exists_compile`).

To quote a text it is therefore enough to put a backslash before every character that means something, and before a blank
in front. Quoting more than that does no harm (`Pattern.accepts_quoteAt_iff`).

Contents:
* `Glyph.char`, `Glyph.Verbatim`;
* `quoteEmptyPair_of_not_mem`, `expand_write`, `Token.char?_ofGlyph` — each pass on its own;
* `Spelling`, `Spelling.trimmed_write`, `Spelling.exists_compile`;
* `quotedAt`, `quoteAt`, `NeedsQuoting`, **`Pattern.accepts_quoteAt_iff`**.
-/

namespace AccessPolicy

/-! ## Glyphs and their characters -/

namespace Glyph

/-- The character that a glyph stands for. -/
def char : Glyph → Char
  | .plain c => c
  | .quoted c => c

/-- The glyph is taken for its character and nothing else: it opens no choice, is no star and quotes nothing. -/
def Verbatim (g : Glyph) : Prop :=
  g ≠ .plain '\x7b' ∧ g ≠ .plain '*' ∧ g ≠ .plain '\\'

theorem write_cons (g : Glyph) (gs : List Glyph) : write (g :: gs) = g.spell ++ write gs := rfl

theorem write_map_plain (cs : List Char) : write (cs.map .plain) = cs := by
  induction cs with
  | nil => rfl
  | cons c cs ih =>
      rw [List.map_cons, write_cons, ih]
      rfl

/-- What glyphs spell ends in the character of the last of them. -/
theorem getLast?_write (gs : List Glyph) : (write gs).getLast? = gs.getLast?.map char := by
  rcases List.eq_nil_or_concat gs with rfl | ⟨before, g, rfl⟩
  · rfl
  · rw [List.concat_eq_append, write_append, List.getLast?_concat]
    cases g with
    | plain c => exact List.getLast?_concat
    | quoted c =>
        have hspell : write [.quoted c] = ['\\'] ++ [c] := rfl
        rw [hspell, ← List.append_assoc]
        exact List.getLast?_concat

end Glyph

/-! ## The passes, one by one -/

/-- Where no glyph opens a choice, no leading pair of braces is there to be quoted. -/
theorem quoteEmptyPair_of_not_mem {gs : List Glyph} (h : Glyph.plain '\x7b' ∉ gs) : quoteEmptyPair gs = gs := by
  unfold quoteEmptyPair
  split
  · exact absurd List.mem_cons_self h
  · rfl

/-- **Spelling out:** glyphs of which none opens a choice are their own single alternative. -/
theorem expand_write {gs : List Glyph} (hopen : Glyph.plain '\x7b' ∉ gs) (hread : Glyph.read (Glyph.write gs) = gs) :
    expand (Glyph.write gs) = .ok [Glyph.write gs] := by
  rw [expand, hread, expandGlyphs, quoteEmptyPair_of_not_mem hopen, Choice.read_of_not_mem hopen]
  rfl

/-- Every glyph but a star asks for its character, a quoted slash included. -/
theorem Token.char?_ofGlyph {g : Glyph} (h : g ≠ .plain '*') : (ofGlyph g).char? = some g.char := by
  unfold ofGlyph
  split
  · exact absurd rfl h
  · rfl
  · rfl
  · rfl
  · rfl

/-! ## Spellings -/

/-- Glyphs that every pass leaves as they are, and of which none is a star. -/
structure Spelling (gs : List Glyph) : Prop where
  verbatim : ∀ g ∈ gs, g.Verbatim
  /-- A blank in front is quoted, so that the text starts with a backslash. -/
  first : ∀ c, gs.head? = some (.plain c) → Text.isBlank c = false
  /-- At the end quoting would not help: a blank there is cut off behind its backslash. -/
  last : ∀ g ∈ gs.getLast?, Text.isBlank g.char = false

namespace Spelling

variable {gs : List Glyph}

theorem brace_not_mem (h : Spelling gs) : Glyph.plain '\x7b' ∉ gs :=
  fun hmem => (h.verbatim _ hmem).1 rfl

theorem read_write (h : Spelling gs) : Glyph.read (Glyph.write gs) = gs :=
  Glyph.read_write (Glyph.asRead_of_forall fun g hg => (h.verbatim g hg).2.2)

/-- There is nothing to trim. -/
theorem trimmed_write (h : Spelling gs) : Text.Trimmed (Glyph.write gs) where
  first := by
    intro c hc
    cases gs with
    | nil => exact absurd hc (by simp [Glyph.write])
    | cons g gs =>
        cases g with
        | plain d =>
            obtain rfl : d = c := Option.some.inj hc
            exact h.first d rfl
        | quoted d =>
            obtain rfl : '\\' = c := Option.some.inj hc
            rfl
  last := by
    intro c hc
    rw [Glyph.getLast?_write] at hc
    obtain ⟨g, hg, rfl⟩ := Option.map_eq_some_iff.mp hc
    exact h.last g hg

/-- What a spelling asks for, token by token, are its characters. -/
theorem filterMap_tokens (h : Spelling gs) : (tokens (Glyph.write gs)).filterMap Token.char? = gs.map Glyph.char := by
  have hchars : ∀ g ∈ gs, Token.char? (Token.ofGlyph g) = some g.char :=
    fun g hg => Token.char?_ofGlyph (h.verbatim g hg).2.1
  rw [tokens, h.read_write, List.filterMap_map, ← List.filterMap_eq_map]
  exact List.filterMap_congr hchars

theorem star_not_mem (h : Spelling gs) : Token.star ∉ tokens (Glyph.write gs) := by
  rw [tokens, h.read_write]
  intro hmem
  obtain ⟨g, hg, hstar⟩ := List.mem_map.mp hmem
  have hchar := Token.char?_ofGlyph (h.verbatim g hg).2.1
  rw [hstar] at hchar
  exact absurd hchar (by simp [Token.char?])

/-- As an alternative a spelling admits its own characters. -/
theorem admits_iff (h : Spelling gs) (hne : gs ≠ []) (hlength : (Glyph.write gs).length ≤ Pattern.maxLength)
    (candidate : List Char) : Glob.Admits (Glyph.write gs) candidate ↔ candidate = gs.map Glyph.char := by
  have hwrite : Glyph.write gs ≠ [] := by
    rw [ne_eq, ← List.isEmpty_iff, Glyph.isEmpty_write, List.isEmpty_iff]
    exact hne
  have hcompile : Glob.compile (Glyph.write gs) = .ok (some (.exact (gs.map Glyph.char))) := by
    rw [← h.filterMap_tokens]
    exact Glob.compileWith_of_star_not_mem hwrite hlength h.star_not_mem
  constructor
  · rintro ⟨glob, hglob, haccepts⟩
    obtain rfl := Option.some.inj (Except.ok.inj (hcompile.symm.trans hglob))
    exact (beq_iff_eq.mp haccepts).symm
  · rintro rfl
    exact ⟨_, hcompile, beq_self_eq_true _⟩

/-- **A spelling as a pattern** compiles, unless it is too long, and accepts the text of its characters only. -/
theorem exists_compile (h : Spelling gs) (hlength : (Glyph.write gs).length ≤ Pattern.maxLength) :
    ∃ p, Pattern.compile (String.ofList (Glyph.write gs)) = .ok p ∧
      ∀ candidate, p.accepts candidate = true ↔ candidate = String.ofList (gs.map Glyph.char) := by
  by_cases hne : gs = []
  · subst hne
    refine ⟨⟨"", []⟩, rfl, fun candidate => ?_⟩
    show candidate.isEmpty = true ↔ candidate = ""
    exact String.isEmpty_iff
  · have htrim : Text.trim (String.ofList (Glyph.write gs)).toList = Glyph.write gs := by
      rw [String.toList_ofList, h.trimmed_write.trim_eq]
    have hfull : Text.trim (String.ofList (Glyph.write gs)).toList ≠ [] := by
      rw [htrim, ne_eq, ← List.isEmpty_iff, Glyph.isEmpty_write, List.isEmpty_iff]
      exact hne
    have hexpand : expand (Text.trim (String.ofList (Glyph.write gs)).toList) = .ok [Glyph.write gs] := by
      rw [htrim, expand_write h.brace_not_mem h.read_write]
    have hadmits := h.admits_iff hne hlength
    obtain ⟨glob, hglob, -⟩ := (hadmits _).mpr rfl
    obtain ⟨p, hp⟩ := (Pattern.exists_compile_iff_of_single hfull hexpand).mpr ⟨some glob, hglob⟩
    refine ⟨p, hp, fun candidate => ?_⟩
    rw [Pattern.accepts_iff_of_single hfull hexpand hp, ← String.toList_inj, String.toList_ofList, ← hadmits]

end Spelling

/-! ## Quoting a text -/

/-- The glyphs of a text, with the characters at the given places quoted. -/
def quotedAt (places : Finset Nat) (cs : List Char) : List Glyph :=
  cs.mapIdx fun i c => if i ∈ places then .quoted c else .plain c

/-- A text with a backslash before each character that stands at one of the given places. -/
def quoteAt (places : Finset Nat) (s : String) : String :=
  String.ofList (Glyph.write (quotedAt places s.toList))

/-- A character has to be quoted if it means something wherever it stands, or if it is a blank in front. -/
def NeedsQuoting (i : Nat) (c : Char) : Prop :=
  c = '\x7b' ∨ c = '*' ∨ c = '\\' ∨ i = 0 ∧ Text.isBlank c = true

instance (i : Nat) (c : Char) : Decidable (NeedsQuoting i c) :=
  inferInstanceAs (Decidable (c = '\x7b' ∨ c = '*' ∨ c = '\\' ∨ i = 0 ∧ Text.isBlank c = true))

theorem char_quotedGlyph (places : Finset Nat) (i : Nat) (c : Char) :
    Glyph.char (if i ∈ places then .quoted c else .plain c) = c := by
  split
  · rfl
  · rfl

theorem map_char_quotedAt (places : Finset Nat) (cs : List Char) : (quotedAt places cs).map Glyph.char = cs := by
  apply List.ext_getElem?
  intro i
  rw [List.getElem?_map, quotedAt, List.getElem?_mapIdx, Option.map_map]
  cases cs[i]? with
  | none => rfl
  | some c => exact congrArg some (char_quotedGlyph places i c)

/-- Where no place is chosen, the text is left as it is. -/
theorem quoteAt_empty (s : String) : quoteAt ∅ s = s := by
  have hplain : quotedAt ∅ s.toList = s.toList.map .plain := by
    apply List.ext_getElem?
    intro i
    rw [List.getElem?_map, quotedAt, List.getElem?_mapIdx]
    rfl
  rw [quoteAt, hplain, Glyph.write_map_plain, String.ofList_toList]

/-- An unquoted glyph stands at a place that was not chosen. -/
theorem not_mem_of_getElem?_quotedAt {places : Finset Nat} {cs : List Char} {i : Nat} {c : Char}
    (h : (quotedAt places cs)[i]? = some (.plain c)) : cs[i]? = some c ∧ i ∉ places := by
  rw [quotedAt, List.getElem?_mapIdx] at h
  obtain ⟨d, hd, hglyph⟩ := Option.map_eq_some_iff.mp h
  by_cases hi : i ∈ places
  · rw [if_pos hi] at hglyph
    exact absurd hglyph (by simp)
  · rw [if_neg hi] at hglyph
    obtain rfl := Glyph.plain.inj hglyph
    exact ⟨hd, hi⟩

/-- A text that does not end in a blank is spelled by quoting it wherever that is needed. -/
theorem spelling_quotedAt {places : Finset Nat} {cs : List Char}
    (hplaces : ∀ i (hi : i < cs.length), NeedsQuoting i cs[i] → i ∈ places)
    (hlast : ∀ c ∈ cs.getLast?, Text.isBlank c = false) : Spelling (quotedAt places cs) := by
  -- What stands unquoted needs no quoting.
  have hplain : ∀ i c, (quotedAt places cs)[i]? = some (.plain c) → ¬ NeedsQuoting i c := by
    intro i c h hneeds
    obtain ⟨hc, hi⟩ := not_mem_of_getElem?_quotedAt h
    obtain ⟨hlt, rfl⟩ := List.getElem?_eq_some_iff.mp hc
    exact hi (hplaces i hlt hneeds)
  constructor
  · intro g hg
    obtain ⟨i, hi⟩ := List.mem_iff_getElem?.mp hg
    refine ⟨?_, ?_, ?_⟩
    · rintro rfl
      exact hplain i _ hi (Or.inl rfl)
    · rintro rfl
      exact hplain i _ hi (Or.inr (Or.inl rfl))
    · rintro rfl
      exact hplain i _ hi (Or.inr (Or.inr (Or.inl rfl)))
  · intro c hc
    rw [List.head?_eq_getElem?] at hc
    rw [Bool.eq_false_iff]
    intro hblank
    exact hplain 0 c hc (Or.inr (Or.inr (Or.inr ⟨rfl, hblank⟩)))
  · intro g hg
    apply hlast
    rw [← map_char_quotedAt places cs, List.getLast?_map]
    exact Option.mem_map_of_mem Glyph.char hg

/-- **Quoting is exact.** Let a text not end in a blank, and let backslashes be put before any of its characters, but at
    least before each opening brace, star and backslash, and before a blank in front. If what comes of it is not too long,
    it compiles as a pattern, and the one candidate that it accepts is the text. -/
theorem Pattern.accepts_quoteAt_iff {s : String} {places : Finset Nat}
    (hlast : ∀ c ∈ s.toList.getLast?, Text.isBlank c = false)
    (hplaces : ∀ i (hi : i < s.toList.length), NeedsQuoting i s.toList[i] → i ∈ places)
    (hlength : (quoteAt places s).length ≤ 65536) :
    ∃ p, compile (quoteAt places s) = .ok p ∧ ∀ candidate, p.accepts candidate = true ↔ candidate = s := by
  have hspelling : Spelling (quotedAt places s.toList) := spelling_quotedAt hplaces hlast
  have hshort : (Glyph.write (quotedAt places s.toList)).length ≤ maxLength := by
    rw [quoteAt, String.length_ofList] at hlength
    exact hlength
  have hcompile := hspelling.exists_compile hshort
  rwa [map_char_quotedAt, String.ofList_toList] at hcompile

/-- Everything that has to be quoted, a blank in front among it, and a slash, a comma and a letter that need not be; then
    a text in which there is nothing to quote. -/
theorem Pattern.accepts_quoteAt_iff_mixed :
    (∃ p, compile "\\ \\\x7ba\x7d\\*\\\\\\é\\/\\, b" = .ok p ∧
        ∀ candidate, p.accepts candidate = true ↔ candidate = " \x7ba\x7d*\\é/, b") ∧
      ∃ p, compile "é/a\x7d, b" = .ok p ∧ ∀ candidate, p.accepts candidate = true ↔ candidate = "é/a\x7d, b" := by
  -- Both texts end in the same letter.
  have hlast : ∀ c ∈ some 'b', Text.isBlank c = false := by
    intro c hc
    obtain rfl := Option.mem_some_iff.mp hc
    rfl
  constructor
  · have hquoted : quoteAt {0, 1, 4, 5, 6, 7, 8} " \x7ba\x7d*\\é/, b" =
        "\\ \\\x7ba\x7d\\*\\\\\\é\\/\\, b" := by decide
    rw [← hquoted]
    exact accepts_quoteAt_iff hlast (by decide) (by decide)
  · have hexact := @accepts_quoteAt_iff "é/a\x7d, b" ∅ hlast (by decide) (by decide)
    rwa [quoteAt_empty] at hexact

end AccessPolicy
