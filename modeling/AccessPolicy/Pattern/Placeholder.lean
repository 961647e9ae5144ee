import AccessPolicy.Datum.Path
import AccessPolicy.Text.Blank

/-!
# Placeholders

`$` and a path in braces stand in a pattern for what the path leads to in the context of a request. A placeholder
runs to the first closing brace after it and does not span lines; an opening that is not closed on its line stands
for itself, with all that follows it on the line.

A pattern is read into pieces once, from left to right. Filling replaces each placeholder by a text, which is not
looked at again, and tidies the whole.

Contents:
* `Piece`, `Piece.read`, `Piece.write`;
* `Piece.write_read` — nothing is lost by reading;
* `Piece.fill`, `fill` — pieces, and patterns, with their placeholders filled.
-/

namespace AccessPolicy

/-- A piece of a pattern: a character, or a placeholder with its path. -/
inductive Piece where
  | char (c : Char)
  | placeholder (path : List Char)
  deriving DecidableEq, Repr

namespace Piece

/-- The characters that write a piece. -/
def spell : Piece → List Char
  | .char c => [c]
  | .placeholder path => '$' :: '\x7b' :: (path ++ ['\x7d'])

/-- The text that pieces write. -/
def write (ps : List Piece) : List Char :=
  ps.flatMap spell

/-- The pieces of an opening that is not closed, and of the path read behind it; everything last first. -/
def unclosed (path : List Char) : List Piece :=
  path.map .char ++ [.char '\x7b', .char '$']

/-- Reading with the pieces found so far, last first. Inside a placeholder, `path` holds the part of its path read
    so far, last character first. -/
def readOnto : (found : List Piece) → (path : Option (List Char)) → List Char → List Piece
  | found, none, '$' :: '\x7b' :: cs => readOnto found (some []) cs
  | found, none, c :: cs => readOnto (.char c :: found) none cs
  | found, none, [] => found.reverse
  | found, some path, c :: cs =>
    if c = '\x7d' then readOnto (.placeholder path.reverse :: found) none cs
    else if c = '\n' then readOnto (.char c :: (unclosed path ++ found)) none cs
    else readOnto found (some (c :: path)) cs
  | found, some path, [] => (unclosed path ++ found).reverse

/-- The pieces of a pattern. -/
def read (cs : List Char) : List Piece :=
  readOnto [] none cs

theorem flatMap_spell_char (cs : List Char) : (cs.map Piece.char).flatMap spell = cs := by
  induction cs with
  | nil => rfl
  | cons c cs ih => simp [spell, ih]

/-- What has been read of an open placeholder, as it stands in the text. -/
theorem write_reverse_unclosed (path : List Char) (found : List Piece) :
    write (unclosed path ++ found).reverse = write found.reverse ++ '$' :: '\x7b' :: path.reverse := by
  simp only [write, unclosed, List.append_assoc, List.reverse_append, List.reverse_cons, List.reverse_nil,
    List.nil_append, List.flatMap_append, List.flatMap_cons, List.flatMap_nil, ← List.map_reverse,
    flatMap_spell_char]
  simp [spell]

theorem write_readOnto (found : List Piece) (path : Option (List Char)) (cs : List Char) :
    write (readOnto found path cs) =
      write found.reverse ++ (path.elim [] fun p => '$' :: '\x7b' :: p.reverse) ++ cs := by
  fun_induction readOnto found path cs with
  | case1 found cs ih => rw [ih]; simp
  | case2 found c cs _ ih => rw [ih]; simp [write, spell]
  | case3 found => simp
  | case4 found path cs ih => rw [ih]; simp [write, spell]
  | case5 found path cs _ ih =>
    rw [ih, List.reverse_cons]
    have h := write_reverse_unclosed path found
    simp only [write, List.flatMap_append] at h ⊢
    rw [h]
    simp [spell]
  | case6 found path c cs _ _ ih => rw [ih]; simp
  | case7 found path => rw [write_reverse_unclosed]; simp

/-- **Reading loses nothing:** the pieces of a pattern write that pattern. -/
theorem write_read (cs : List Char) : write (read cs) = cs := by
  simpa [read, write] using write_readOnto [] none cs

/-! ## Filling -/

/-- What stands for a path that leads nowhere. -/
def undefined : String := "undefined"

/-- What a path is filled with. -/
def filling (context : Datum) (path : List Char) : List Char :=
  match context.at? (String.ofList path) with
  | some d => d.render.toList
  | none => undefined.toList

/-- A piece with its path filled. -/
def fill (context : Datum) : Piece → List Char
  | .char c => [c]
  | .placeholder path => filling context path

end Piece

/-- A pattern with its placeholders filled from a context, tidied; without a context, as it is. -/
def fill (context : Option Datum) (pattern : String) : String :=
  match context with
  | none => pattern
  | some d => String.ofList (Text.tidy ((Piece.read pattern.toList).flatMap (Piece.fill d)))

end AccessPolicy
