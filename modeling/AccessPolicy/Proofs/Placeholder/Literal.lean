import AccessPolicy.Proofs.Pattern.Verbatim
import AccessPolicy.Proofs.Placeholder.Template

/-!
# Literal text with placeholders

A text is *literal* if it has neither opening braces nor stars, backslashes or blanks. As a pattern it stands for itself.
It may have dollars, closing braces, commas and slashes.

Pieces whose characters are literal are read back as they were written, so each placeholder among them is found, and
nothing else is taken for one (`Piece.read_write`). Each is filled where it stands. What is put in is not read again: if
it looks like a placeholder itself, it is left as it is (`Piece.fill_write`).

If what is put in is literal too, the whole is, however the characters of neighbouring pieces come to stand beside each
other. There is then nothing to tidy, and as a pattern it stands for itself again (`exists_compile_fill`).

Contents:
* `Literal`, `Literal.spelling`, `Literal.exists_compile`;
* `Piece.Literal`, `Piece.fill_write`, `Piece.literal_flatMap_fill`;
* **`exists_compile_fill`**.
-/

namespace AccessPolicy

/-! ## Literal texts -/

/-- No choice is opened, there are no stars, nothing is quoted, and there are no blanks. -/
def Literal (cs : List Char) : Prop :=
  ∀ c ∈ cs, c ≠ '\x7b' ∧ c ≠ '*' ∧ c ≠ '\\' ∧ Text.isBlank c = false

instance (cs : List Char) : Decidable (Literal cs) :=
  List.decidableBAll (fun c => c ≠ '\x7b' ∧ c ≠ '*' ∧ c ≠ '\\' ∧ Text.isBlank c = false) cs

namespace Literal

variable {cs : List Char}

theorem isBlank_eq_false (h : Literal cs) : ∀ c ∈ cs, Text.isBlank c = false :=
  fun c hc => (h c hc).2.2.2

/-- A literal text is spelled by its characters, none of them quoted. -/
theorem spelling (h : Literal cs) : Spelling (cs.map .plain) where
  verbatim := by
    intro g hg
    obtain ⟨c, hc, rfl⟩ := List.mem_map.mp hg
    obtain ⟨hbrace, hstar, hquote, -⟩ := h c hc
    exact ⟨fun heq => hbrace (Glyph.plain.inj heq), fun heq => hstar (Glyph.plain.inj heq),
      fun heq => hquote (Glyph.plain.inj heq)⟩
  first := by
    intro c hc
    rw [List.head?_map] at hc
    obtain ⟨d, hd, heq⟩ := Option.map_eq_some_iff.mp hc
    obtain rfl := Glyph.plain.inj heq
    exact h.isBlank_eq_false d (List.mem_of_head? hd)
  last := by
    intro g hg
    rw [List.getLast?_map] at hg
    obtain ⟨c, hc, rfl⟩ := Option.map_eq_some_iff.mp hg
    exact h.isBlank_eq_false c (List.mem_of_getLast? hc)

/-- **A literal text as a pattern** compiles, unless it is too long, and accepts itself only. -/
theorem exists_compile (h : Literal cs) (hlength : cs.length ≤ Pattern.maxLength) :
    ∃ p, Pattern.compile (String.ofList cs) = .ok p ∧
      ∀ candidate, p.accepts candidate = true ↔ candidate = String.ofList cs := by
  have hchars : (cs.map Glyph.plain).map Glyph.char = cs := by
    rw [List.map_map]
    exact List.map_id cs
  have hwrite : Glyph.write (cs.map .plain) = cs := Glyph.write_map_plain cs
  have hcompile := h.spelling.exists_compile (by rwa [hwrite])
  rwa [hwrite, hchars] at hcompile

end Literal

/-! ## Literal pieces -/

namespace Piece

/-- A character that stands for itself, or a placeholder whose path ends where it is closed. A chunk of literal text is a
    piece for each of its characters. -/
def Literal : Piece → Prop
  | .char c => AccessPolicy.Literal [c]
  | .placeholder path => '\x7d' ∉ path ∧ '\n' ∉ path

instance : (piece : Piece) → Decidable piece.Literal
  | .char c => inferInstanceAs (Decidable (AccessPolicy.Literal [c]))
  | .placeholder path => inferInstanceAs (Decidable ('\x7d' ∉ path ∧ '\n' ∉ path))

theorem Literal.readable {piece : Piece} (h : piece.Literal) : piece.Readable := by
  cases piece with
  | char c => exact (h c (List.mem_singleton_self c)).1
  | placeholder path => exact h

/-- Literal pieces filled with literal texts are literal, all together. -/
theorem literal_flatMap_fill {ps : List Piece} (h : ∀ piece ∈ ps, piece.Literal) {d : Datum}
    (hfillings : ∀ path, .placeholder path ∈ ps → AccessPolicy.Literal (filling d path)) :
    AccessPolicy.Literal (ps.flatMap (fill d)) := by
  intro c hc
  obtain ⟨piece, hpiece, hmem⟩ := List.mem_flatMap.mp hc
  cases piece with
  | char x => exact h _ hpiece c hmem
  | placeholder path => exact hfillings path hpiece c hmem

end Piece

/-! ## Templates of literal text -/

/-- **Every placeholder is filled where it stands,** and what it is filled with is not read again. -/
theorem Piece.fill_write {ps : List Piece} (h : ∀ piece ∈ ps, piece.Readable) (d : Datum) :
    AccessPolicy.fill (some d) (String.ofList (write ps)) = String.ofList (Text.tidy (ps.flatMap (fill d))) := by
  rw [AccessPolicy.fill, String.toList_ofList, read_write h]

/-- **A template of literal text is matched literally.** Let a pattern be written by literal pieces: chunks of literal
    text, and placeholders between them. From every context each placeholder is filled where it stands, and what it is
    filled with is not looked at again before the whole is tidied. If the fillings are literal, and the whole is not too
    long, it compiles, and the one candidate that it accepts is the text of the chunks and the fillings. -/
theorem exists_compile_fill {ps : List Piece} (h : ∀ piece ∈ ps, piece.Literal) :
    (∀ d, fill (some d) (String.ofList (Piece.write ps)) = String.ofList (Text.tidy (ps.flatMap (Piece.fill d)))) ∧
      ∀ d, (∀ path, .placeholder path ∈ ps → Literal (Piece.filling d path)) →
        (ps.flatMap (Piece.fill d)).length ≤ 65536 →
        ∃ p, Pattern.compile (fill (some d) (String.ofList (Piece.write ps))) = .ok p ∧
          ∀ candidate, p.accepts candidate = true ↔ candidate = String.ofList (ps.flatMap (Piece.fill d)) := by
  have hfill := Piece.fill_write fun piece hpiece => (h piece hpiece).readable
  refine ⟨hfill, fun d hfillings hlength => ?_⟩
  have hliteral := Piece.literal_flatMap_fill h hfillings
  rw [hfill, Text.tidy_of_forall hliteral.isBlank_eq_false]
  exact hliteral.exists_compile hlength

/-- What each team has paid, with a dollar before it and a closing brace after it. -/
def teamFees : List Piece :=
  [.char '\x7d', .char ':', .char '$', .placeholder "fee.paid".toList, .char '\x7d', .char '/',
    .placeholder "team *".toList]

/-- A fee has been paid, by no team that is known. -/
def feePaid : Datum :=
  .record [("fee", .record [("paid", .text "$\x7d,")])]

/-- A fee that looks like a placeholder is put in as it is. The dollar and the brace stay in any case, and a team that is
    not known is undefined. -/
theorem exists_compile_fill_teamFees :
    (∀ piece ∈ teamFees, piece.Literal) ∧
      fill (some (.record [("fee", .record [("paid", .text "$\x7bteam *\x7d")]), ("team *", .text "red")]))
        "\x7d:$$\x7bfee.paid\x7d\x7d/$\x7bteam *\x7d" = "\x7d:$$\x7bteam *\x7d\x7d/red" ∧
      ∃ p, Pattern.compile (fill (some feePaid) "\x7d:$$\x7bfee.paid\x7d\x7d/$\x7bteam *\x7d") = .ok p ∧
        ∀ candidate, p.accepts candidate = true ↔ candidate = "\x7d:$$\x7d,\x7d/undefined" := by
  have hliteral : ∀ piece ∈ teamFees, piece.Literal := by decide
  obtain ⟨hfill, hcompile⟩ := exists_compile_fill hliteral
  have hpaid : Piece.filling feePaid "fee.paid".toList = ['$', '\x7d', ','] := rfl
  have hteam : Piece.filling feePaid "team *".toList = Piece.undefined.toList := rfl
  have htext : teamFees.flatMap (Piece.fill feePaid) = "\x7d:$$\x7d,\x7d/undefined".toList := rfl
  have hfillings : ∀ path, .placeholder path ∈ teamFees → Literal (Piece.filling feePaid path) := by
    intro path hpath
    have hcases : path = "fee.paid".toList ∨ path = "team *".toList := by simpa [teamFees] using hpath
    rcases hcases with rfl | rfl
    · rw [hpaid]
      decide
    · rw [hteam]
      decide
  have hlength : (teamFees.flatMap (Piece.fill feePaid)).length ≤ 65536 := by
    rw [htext]
    decide
  exact ⟨hliteral, hfill _, hcompile feePaid hfillings hlength⟩

end AccessPolicy
