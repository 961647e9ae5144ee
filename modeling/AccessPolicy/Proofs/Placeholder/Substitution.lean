import AccessPolicy.Proofs.Placeholder.Search

/-!
# Filling as substitution from the left

Filling a pattern reads it as pieces, and each piece that is a placeholder gives way to what its path leads to. Here the
same is said by recursion on the text: the leftmost placeholder is found, the text before it is copied, the placeholder
is filled, and then the same is done with the text after it (`substitute`). What was filled in is never part of that
text, so it is not read again.

Contents:
* `substitute`, with what it does where nothing is found, and what from the leftmost placeholder on;
* `Piece.flatMap_fill_read`;
* **`fill_eq_substitute`**.
-/

namespace AccessPolicy

/-! ## Substitution -/

/-- **Substitution from the left.** A text without a placeholder is left as it is. Otherwise what stands before the
    leftmost is copied, its path is filled, and substitution goes on in the text after it only. -/
def substitute (d : Datum) (text : List Char) : List Char :=
  match h : leftmost? text with
  | none => text
  | some (lead, path, after) =>
    have := length_lt_of_leftmost? h
    lead ++ Piece.filling d path ++ substitute d after
termination_by text.length

theorem substitute_of_noPlaceholder (d : Datum) {text : List Char} (h : Piece.NoPlaceholder text) :
    substitute d text = text := by
  have hnone := leftmost?_eq_none_iff.mpr h
  rw [substitute]
  split <;> simp_all

theorem substitute_of_leftmost (d : Datum) {lead path after : List Char} (h : Leftmost lead path after) :
    substitute d (opened lead path after) = lead ++ Piece.filling d path ++ substitute d after := by
  have hfound := leftmost?_eq_some_iff.mpr ⟨rfl, h⟩
  rw [substitute]
  split <;> simp_all

namespace Piece

/-- **Filling what is read is substitution from the left.** -/
theorem flatMap_fill_read (d : Datum) (text : List Char) : (read text).flatMap (fill d) = substitute d text := by
  fun_induction substitute d text with
  | case1 text h =>
      rw [read_of_leftmost?_eq_none h, flatMap_fill_char]
  | case2 text lead path after h _ ih =>
      rw [read_of_leftmost? h, List.flatMap_append, flatMap_fill_char, List.flatMap_cons, ih, List.append_assoc]
      rfl

end Piece

/-! ## Filling -/

/-- **Filling is substitution from the left, tidied.** Where no opening is closed on its line, substitution changes
    nothing. Otherwise it copies what stands before the leftmost opening that is, puts what the path leads to, or the
    word for undefined, in the place of the placeholder, and goes on in the text after it. -/
theorem fill_eq_substitute (d : Datum) :
    (∀ pattern, fill (some d) pattern = String.ofList (Text.tidy (substitute d pattern.toList))) ∧
      (∀ text, Piece.NoPlaceholder text → substitute d text = text) ∧
      ∀ lead path after, Leftmost lead path after →
        substitute d (lead ++ '$' :: '\x7b' :: (path ++ '\x7d' :: after)) =
          lead ++ Piece.filling d path ++ substitute d after := by
  refine ⟨fun pattern => ?_, fun _ => substitute_of_noPlaceholder d, fun _ _ _ => substitute_of_leftmost d⟩
  rw [fill, Piece.flatMap_fill_read]

/-- A path with an opening in it, which leads to what looks like a placeholder. -/
def nestedPaths : Datum :=
  .record [("a$\x7bb", .text "$\x7bx\x7d"), ("x", .text "no")]

/-- The first opening ends with its line, the second is closed with a third in its path, and the last is not closed.
    What is put in is not read again. -/
theorem fill_eq_substitute_nestedPaths :
    Leftmost " $$\x7bu\n\x7d  ".toList "a$\x7bb".toList "\x7d$\x7bx".toList ∧
      Piece.NoPlaceholder "\x7d$\x7bx".toList ∧
      fill (some nestedPaths) " $$\x7bu\n\x7d  $\x7ba$\x7bb\x7d\x7d$\x7bx" =
        "$$\x7bu\n\x7d $\x7bx\x7d\x7d$\x7bx" := by
  obtain ⟨hfill, hrest, hstep⟩ := fill_eq_substitute nestedPaths
  have hfound : leftmost? " $$\x7bu\n\x7d  $\x7ba$\x7bb\x7d\x7d$\x7bx".toList =
      some (" $$\x7bu\n\x7d  ".toList, "a$\x7bb".toList, "\x7d$\x7bx".toList) := by decide
  obtain ⟨-, hleftmost⟩ := leftmost?_eq_some_iff.mp hfound
  have hnone : Piece.NoPlaceholder "\x7d$\x7bx".toList := by decide
  refine ⟨hleftmost, hnone, ?_⟩
  have hsubstitute := hstep _ _ _ hleftmost
  rw [hrest _ hnone] at hsubstitute
  rw [hfill]
  exact congrArg (fun text => String.ofList (Text.tidy text)) hsubstitute

end AccessPolicy
