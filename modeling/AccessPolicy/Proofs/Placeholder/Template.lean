import AccessPolicy.Pattern.Placeholder
import AccessPolicy.Proofs.Pattern.Quiet

/-!
# Templates: a placeholder in quiet text

What is read of a pattern and written again is the pattern. The other way round this fails: the pieces `$` and `{`
are read as the start of a placeholder, and a path with a `}` in it ends early. It holds where no character opens
braces and no path closes them or runs into the next line (`Piece.read_write`); such pieces are read back one by one,
whatever stands around them.

A *template* is a placeholder with quiet text on both sides. Filled from a context, it is that text around the
filling, unless the filling itself has blanks to tidy (`Template.fill_text`).

Contents:
* `Piece.Readable`, `Piece.read_write` — pieces that are read as they were written;
* `Template`, `Template.text`, `Template.around`;
* `Template.fill_text`.
-/

namespace AccessPolicy

/-! ## Pieces that are read back -/

namespace Piece

/-- Nothing in the piece is read as the start or the end of a placeholder, save its own braces. -/
def Readable : Piece → Prop
  | .char c => c ≠ '\x7b'
  | .placeholder path => '\x7d' ∉ path ∧ '\n' ∉ path

instance : (piece : Piece) → Decidable piece.Readable
  | .char c => inferInstanceAs (Decidable (c ≠ '\x7b'))
  | .placeholder path => inferInstanceAs (Decidable ('\x7d' ∉ path ∧ '\n' ∉ path))

theorem write_cons (piece : Piece) (ps : List Piece) : write (piece :: ps) = piece.spell ++ write ps := rfl

/-- A readable piece does not start with an opening brace. -/
theorem write_ne_cons_brace {ps : List Piece} (h : ∀ piece ∈ ps, piece.Readable) (rest : List Char) :
    write ps ≠ '\x7b' :: rest := by
  cases ps with
  | nil => exact (List.cons_ne_nil _ rest).symm
  | cons piece ps =>
      cases piece with
      | char c =>
          intro heq
          exact h (.char c) List.mem_cons_self (List.cons.inj heq).1
      | placeholder path =>
          intro heq
          exact absurd (List.cons.inj heq).1 (by decide)

/-- A character that does not open a placeholder is a piece of its own. -/
theorem readOnto_char (found : List Piece) (c : Char) {cs : List Char}
    (h : ∀ rest, c = '$' → cs ≠ '\x7b' :: rest) :
    readOnto found none (c :: cs) = readOnto (.char c :: found) none cs :=
  readOnto.eq_2 found c cs fun rest hc hcs => h rest hc hcs

/-- Up to the closing brace everything is path. -/
theorem readOnto_path {path : List Char} (h : (placeholder path).Readable) (found : List Piece) (before : List Char)
    (cs : List Char) :
    readOnto found (some before) (path ++ '\x7d' :: cs) =
      readOnto (.placeholder (before.reverse ++ path) :: found) none cs := by
  induction path generalizing before with
  | nil => rw [List.nil_append, readOnto, if_pos rfl, List.append_nil]
  | cons c path ih =>
      obtain ⟨hclose, hline⟩ := h
      rw [List.mem_cons, not_or] at hclose hline
      rw [List.cons_append, readOnto, if_neg (Ne.symm hclose.1), if_neg (Ne.symm hline.1),
        ih ⟨hclose.2, hline.2⟩, List.reverse_cons, List.append_assoc]
      rfl

theorem readOnto_write {ps : List Piece} (h : ∀ piece ∈ ps, piece.Readable) (found : List Piece) :
    readOnto found none (write ps) = found.reverse ++ ps := by
  induction ps generalizing found with
  | nil => simp [write, readOnto]
  | cons piece ps ih =>
      obtain ⟨hpiece, hrest⟩ := List.forall_mem_cons.mp h
      cases piece with
      | char c =>
          have hopen : ∀ rest, c = '$' → write ps ≠ '\x7b' :: rest :=
            fun rest _ => write_ne_cons_brace hrest rest
          rw [write_cons, spell, List.singleton_append, readOnto_char found c hopen, ih hrest, List.reverse_cons,
            List.append_assoc]
          rfl
      | placeholder path =>
          have hspell : write (.placeholder path :: ps) = '$' :: '\x7b' :: (path ++ '\x7d' :: write ps) := by
            simp [write_cons, spell]
          rw [hspell, readOnto, readOnto_path hpiece, ih hrest, List.reverse_cons, List.append_assoc]
          rfl

/-- **Readable pieces are read as they were written.** -/
theorem read_write {ps : List Piece} (h : ∀ piece ∈ ps, piece.Readable) : read (write ps) = ps :=
  readOnto_write h []

theorem flatMap_fill_char (d : Datum) (cs : List Char) : (cs.map Piece.char).flatMap (fill d) = cs := by
  induction cs with
  | nil => rfl
  | cons c cs ih => simp [fill, ih]

end Piece

/-! ## Templates -/

/-- A placeholder with quiet text before and after it. -/
structure Template where
  lead : List Char
  path : List Char
  tail : List Char
  lead_quiet : Quiet lead
  tail_quiet : Quiet tail
  path_readable : (Piece.placeholder path).Readable

namespace Template

/-- The template as a pattern. -/
def text (t : Template) : String :=
  String.ofList (t.lead ++ '$' :: '\x7b' :: (t.path ++ '\x7d' :: t.tail))

/-- The text of the template around another one. -/
def around (t : Template) (filling : List Char) : List Char :=
  t.lead ++ filling ++ t.tail

/-- The pieces of the template. -/
def pieces (t : Template) : List Piece :=
  t.lead.map .char ++ .placeholder t.path :: t.tail.map .char

theorem readable_of_mem_pieces (t : Template) : ∀ piece ∈ t.pieces, piece.Readable := by
  have hchars {cs : List Char} (h : Quiet cs) : ∀ piece ∈ cs.map Piece.char, piece.Readable := by
    intro piece hpiece
    obtain ⟨c, hc, rfl⟩ := List.mem_map.mp hpiece
    exact (h c hc).1
  exact List.forall_mem_append.mpr
    ⟨hchars t.lead_quiet, List.forall_mem_cons.mpr ⟨t.path_readable, hchars t.tail_quiet⟩⟩

/-- The placeholder of a template is the only one in it. -/
theorem read_text (t : Template) : Piece.read t.text.toList = t.pieces := by
  have hwrite : t.text.toList = Piece.write t.pieces := by
    rw [text, String.toList_ofList, pieces, Piece.write, List.flatMap_append, List.flatMap_cons,
      Piece.flatMap_spell_char, Piece.flatMap_spell_char]
    simp [Piece.spell]
  rw [hwrite, Piece.read_write t.readable_of_mem_pieces]

theorem forall_around {p : Char → Prop} (t : Template) (hlead : ∀ c ∈ t.lead, p c) (htail : ∀ c ∈ t.tail, p c)
    {filling : List Char} (h : ∀ c ∈ filling, p c) : ∀ c ∈ t.around filling, p c :=
  List.forall_mem_append.mpr ⟨List.forall_mem_append.mpr ⟨hlead, h⟩, htail⟩

theorem isBlank_around (t : Template) {filling : List Char} (h : ∀ c ∈ filling, Text.isBlank c = false) :
    ∀ c ∈ t.around filling, Text.isBlank c = false :=
  t.forall_around t.lead_quiet.isBlank_eq_false t.tail_quiet.isBlank_eq_false h

theorem quiet_around (t : Template) {filling : List Char} (h : Quiet filling) : Quiet (t.around filling) :=
  t.forall_around t.lead_quiet t.tail_quiet h

/-- **A template is filled** by putting its text around what its path is filled with. -/
theorem fill_text (t : Template) {d : Datum} (h : ∀ c ∈ Piece.filling d t.path, Text.isBlank c = false) :
    fill (some d) t.text = String.ofList (t.around (Piece.filling d t.path)) := by
  have hfilled : t.pieces.flatMap (Piece.fill d) = t.around (Piece.filling d t.path) := by
    rw [pieces, List.flatMap_append, List.flatMap_cons, Piece.flatMap_fill_char, Piece.flatMap_fill_char, around,
      List.append_assoc]
    rfl
  rw [fill, t.read_text, hfilled, Text.tidy_of_forall (t.isBlank_around h)]

end Template

end AccessPolicy
