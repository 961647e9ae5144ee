import AccessPolicy.Sum

/-!
# Glyphs: characters with their quoting

In a pattern a backslash quotes the character after it. A *glyph* is a character together with whether it is
quoted; reading a text into glyphs settles, once for all later passes, which characters may act as delimiters.

Contents:
* `Glyph`, `Glyph.read`, `Glyph.write`;
* `Glyph.width` — the bytes a glyph takes in UTF-8, backslash included, and `Glyph.utf8ByteSize_write`, which says so;
* `Glyph.write_read` — nothing is lost by reading;
* `Glyph.read_quoted`, `Glyph.read_plain` — reading from the front; `Glyph.read_of_not_mem`.
-/

namespace AccessPolicy

/-- A character of a pattern: standing for itself, or quoted by a backslash. -/
inductive Glyph where
  | plain (c : Char)
  | quoted (c : Char)
  deriving DecidableEq, Repr, Inhabited

namespace Glyph

/-- Reading with the glyphs found so far, last first. -/
def readOnto : List Glyph → List Char → List Glyph
  | found, '\\' :: c :: rest => readOnto (.quoted c :: found) rest
  | found, c :: rest => readOnto (.plain c :: found) rest
  | found, [] => found.reverse

/-- A backslash quotes the next character; at the very end it stands for itself. -/
def read (cs : List Char) : List Glyph :=
  readOnto [] cs

/-- The characters that spell a glyph. -/
def spell : Glyph → List Char
  | .plain c => [c]
  | .quoted c => ['\\', c]

/-- The text that glyphs spell. -/
def write (gs : List Glyph) : List Char :=
  gs.flatMap spell

/-- How many bytes a glyph takes in UTF-8. -/
def width : Glyph → Nat
  | .plain c => c.utf8Size
  | .quoted c => 1 + c.utf8Size

/-- How many bytes glyphs take in UTF-8. -/
def widths (gs : List Glyph) : Nat :=
  sumOf width gs

theorem sumOf_spell (g : Glyph) : sumOf Char.utf8Size g.spell = g.width := by
  cases g with
  | plain c => simp [spell, width]
  | quoted c =>
    simp only [spell, width, sumOf_cons, sumOf_nil]
    rfl

/-- The bytes of a text are those of its characters. -/
theorem utf8ByteSize_ofList (cs : List Char) : (String.ofList cs).utf8ByteSize = sumOf Char.utf8Size cs := by
  induction cs with
  | nil => simp
  | cons c cs ih =>
    have cut : String.ofList (c :: cs) = String.singleton c ++ String.ofList cs := by
      rw [String.singleton_eq_ofList, ← String.ofList_append]
      rfl
    rw [cut, String.utf8ByteSize_append, ih, String.utf8ByteSize_singleton, sumOf_cons]

/-- **Widths count bytes:** what glyphs spell takes as many bytes in UTF-8 as the glyphs are wide. -/
theorem utf8ByteSize_write (gs : List Glyph) : (String.ofList (write gs)).utf8ByteSize = widths gs := by
  rw [utf8ByteSize_ofList]
  induction gs with
  | nil => rfl
  | cons g gs ih => simp_all [write, widths, sumOf_spell]

theorem write_readOnto (found : List Glyph) (cs : List Char) :
    write (readOnto found cs) = write found.reverse ++ cs := by
  fun_induction readOnto found cs with
  | case1 found c rest ih => rw [ih]; simp [write, spell]
  | case2 found c rest _ ih => rw [ih]; simp [write, spell]
  | case3 found => simp

/-- **Reading loses nothing:** the glyphs of a text spell that text. -/
theorem write_read (cs : List Char) : write (read cs) = cs := by
  simpa [read, write] using write_readOnto [] cs

theorem write_append (gs hs : List Glyph) : write (gs ++ hs) = write gs ++ write hs := by
  simp [write]

/-- Every glyph spells something. -/
theorem isEmpty_write (gs : List Glyph) : (write gs).isEmpty = gs.isEmpty := by
  cases gs with
  | nil => rfl
  | cons g gs => cases g <;> rfl

/-- What was found before reading started stays in front. -/
theorem readOnto_append (found before : List Glyph) (cs : List Char) :
    readOnto (found ++ before) cs = before.reverse ++ readOnto found cs := by
  fun_induction readOnto found cs with
  | case1 found c rest ih => rw [← ih]; rfl
  | case2 found c rest hplain ih =>
    rw [← ih]
    exact readOnto.eq_2 (found ++ before) c rest hplain
  | case3 found => simp [readOnto]

@[simp] theorem read_nil : read [] = [] := rfl

/-- A backslash and the character it quotes are one glyph. -/
@[simp] theorem read_quoted (c : Char) (rest : List Char) : read ('\\' :: c :: rest) = .quoted c :: read rest :=
  readOnto_append [] [.quoted c] rest

/-- Any other character is a glyph of its own, a backslash at the very end included. -/
theorem read_plain {c : Char} {rest : List Char} (h : c = '\\' → rest = []) :
    read (c :: rest) = .plain c :: read rest := by
  have hplain : ∀ (d : Char) (after : List Char), c = '\\' → rest = d :: after → False := by
    intro d after hc hrest
    exact absurd (hrest.symm.trans (h hc)) (List.cons_ne_nil d after)
  rw [read, readOnto.eq_2 [] c rest hplain]
  exact readOnto_append [] [.plain c] rest

/-- Without a backslash every character stands for itself. -/
theorem read_of_not_mem {cs : List Char} (h : '\\' ∉ cs) : read cs = cs.map .plain := by
  induction cs with
  | nil => rfl
  | cons c cs ih =>
    rw [List.mem_cons, not_or] at h
    rw [read_plain fun hc => absurd hc.symm h.1, ih h.2, List.map_cons]

end Glyph

end AccessPolicy
