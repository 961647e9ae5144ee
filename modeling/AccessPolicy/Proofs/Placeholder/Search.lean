import AccessPolicy.Proofs.Placeholder.Template
import Mathlib.Data.List.Induction

/-!
# Finding placeholders

Pieces are read in one pass that goes on where it stands. An opening that turns out not to be closed is put back, with
all that was read behind it, and other openings may be among that. Here the same is said without a pass, by searching for
the *leftmost* placeholder of a text: the first opening that is closed on its line, up to the brace that closes it.

The two agree because nothing is lost by putting back: an opening behind one that is not closed would be closed by the
same brace, so reading on is as good as reading once more (`Piece.readOnto_of_not_closed`). It follows that reading
finds the leftmost placeholder first, whatever the openings before it are (`Piece.read_of_leftmost?`), and that it finds
none exactly where no opening is closed on its line (`Piece.read_eq_map_char_iff`).

Contents:
* `closing?`, `placeholder?`, `leftmost?` — searching in a text;
* `Piece.NoPlaceholder`, `Leftmost`, `leftmost?_eq_some_iff`, `leftmost?_eq_none_iff` — what is found, and when nothing is;
* **`Piece.read_of_leftmost?`**, **`Piece.read_eq_map_char_iff`**.
-/

namespace AccessPolicy

/-! ## Searching in a text -/

/-- The path behind an opening and the text after the placeholder. The path ends at the first closing brace; if a line
    ends before it, there is none. -/
def closing? : List Char → Option (List Char × List Char)
  | [] => none
  | c :: cs =>
    if c = '\x7d' then some ([], cs)
    else if c = '\n' then none
    else (closing? cs).map fun (path, after) => (c :: path, after)

/-- The path of the placeholder that a text starts with, and the text after it. -/
def placeholder? : List Char → Option (List Char × List Char)
  | '$' :: '\x7b' :: cs => closing? cs
  | _ => none

/-- The text before the leftmost placeholder, its path, and the text after it. -/
def leftmost? : List Char → Option (List Char × List Char × List Char)
  | [] => none
  | c :: cs =>
    match placeholder? (c :: cs) with
    | some (path, after) => some ([], path, after)
    | none => (leftmost? cs).map fun (lead, path, after) => (c :: lead, path, after)

namespace Piece

/-- Wherever an opening is closed, a line ends in between. -/
def NoPlaceholder (cs : List Char) : Prop :=
  ∀ path after, ('$' :: '\x7b' :: (path ++ '\x7d' :: after)) <:+ cs → '\n' ∈ path

end Piece

/-- A text with a placeholder in it. -/
def opened (lead path after : List Char) : List Char :=
  lead ++ '$' :: '\x7b' :: (path ++ '\x7d' :: after)

/-- The placeholder between two texts is the leftmost: its brace is the first behind the opening, on the same line, and
    no opening before this one is closed on its line. -/
structure Leftmost (lead path after : List Char) : Prop where
  readable : (Piece.placeholder path).Readable
  le : ∀ lead' path' after', opened lead' path' after' = opened lead path after → '\n' ∉ path' →
    lead.length ≤ lead'.length

theorem closing?_append {path : List Char} (h : (Piece.placeholder path).Readable) (after : List Char) :
    closing? (path ++ '\x7d' :: after) = some (path, after) := by
  induction path with
  | nil => rfl
  | cons c path ih =>
      obtain ⟨hclose, hline⟩ := h
      rw [List.mem_cons, not_or] at hclose hline
      rw [List.cons_append, closing?, if_neg (Ne.symm hclose.1), if_neg (Ne.symm hline.1), ih ⟨hclose.2, hline.2⟩]
      rfl

theorem eq_of_closing? {cs path after : List Char} (h : closing? cs = some (path, after)) :
    cs = path ++ '\x7d' :: after ∧ (Piece.placeholder path).Readable := by
  fun_induction closing? cs generalizing path with
  | case1 => exact absurd h (by simp)
  | case2 cs =>
      obtain ⟨rfl, rfl⟩ := Prod.mk.inj (Option.some.inj h)
      exact ⟨rfl, List.not_mem_nil, List.not_mem_nil⟩
  | case3 cs _ => exact absurd h (by simp)
  | case4 c cs hclose hline ih =>
      obtain ⟨⟨path', after'⟩, hfound, heq⟩ := Option.map_eq_some_iff.mp h
      obtain ⟨rfl, rfl⟩ := Prod.mk.inj heq
      obtain ⟨rfl, hcloses, hlines⟩ := ih hfound
      exact ⟨rfl, by simp [hcloses, Ne.symm hclose], by simp [hlines, Ne.symm hline]⟩

/-- An opening with a closing brace ahead on its line is closed, by that brace or by one before it. -/
theorem closing?_ne_none {path : List Char} (hline : '\n' ∉ path) (after : List Char) :
    closing? (path ++ '\x7d' :: after) ≠ none := by
  induction path with
  | nil => exact Option.some_ne_none _
  | cons c path ih =>
      rw [List.mem_cons, not_or] at hline
      rw [List.cons_append, closing?]
      split
      · exact Option.some_ne_none _
      · rw [if_neg (Ne.symm hline.1), ne_eq, Option.map_eq_none_iff]
        exact ih hline.2

theorem eq_of_placeholder? {text path after : List Char} (h : placeholder? text = some (path, after)) :
    text = opened [] path after ∧ (Piece.placeholder path).Readable := by
  unfold placeholder? at h
  split at h
  · obtain ⟨rfl, hreadable⟩ := eq_of_closing? h
    exact ⟨rfl, hreadable⟩
  · exact absurd h (by simp)

namespace Leftmost

variable {lead path after : List Char}

/-- What stands at the front is leftmost. -/
theorem nil (h : (Piece.placeholder path).Readable) : Leftmost [] path after :=
  ⟨h, fun _ _ _ _ _ => Nat.zero_le _⟩

/-- One more character in front makes no difference, unless a placeholder starts with it; and then it does. -/
theorem cons_iff {c : Char} :
    Leftmost (c :: lead) path after ↔
      placeholder? (c :: opened lead path after) = none ∧ Leftmost lead path after := by
  constructor
  · intro h
    constructor
    · rw [Option.eq_none_iff_forall_ne_some]
      rintro ⟨path', after'⟩ hfront
      obtain ⟨heq, -, hline⟩ := eq_of_placeholder? hfront
      exact Nat.not_succ_le_zero _ (h.le [] path' after' heq.symm hline)
    · refine ⟨h.readable, fun lead' path' after' heq hline => ?_⟩
      have hmore : opened (c :: lead') path' after' = opened (c :: lead) path after := congrArg (c :: ·) heq
      exact Nat.le_of_succ_le_succ (h.le _ path' after' hmore hline)
  · rintro ⟨hfront, h⟩
    refine ⟨h.readable, fun lead' path' after' heq hline => ?_⟩
    cases lead' with
    | nil =>
        have htext : c :: opened lead path after = '$' :: '\x7b' :: (path' ++ '\x7d' :: after') := heq.symm
        rw [htext] at hfront
        exact absurd hfront (closing?_ne_none hline after')
    | cons d lead' =>
        have hrest : opened lead' path' after' = opened lead path after := (List.cons.inj heq).2
        exact Nat.succ_le_succ (h.le lead' path' after' hrest hline)

end Leftmost

/-- **What is found is leftmost,** and what is leftmost is found. -/
theorem leftmost?_eq_some_iff {text lead path after : List Char} :
    leftmost? text = some (lead, path, after) ↔ text = opened lead path after ∧ Leftmost lead path after := by
  constructor
  · intro h
    fun_induction leftmost? text generalizing lead with
    | case1 => exact absurd h (by simp)
    | case2 c cs path' after' hfront =>
        simp only [Option.some.injEq, Prod.mk.injEq] at h
        obtain ⟨rfl, rfl, rfl⟩ := h
        obtain ⟨htext, hreadable⟩ := eq_of_placeholder? hfront
        exact ⟨htext, .nil hreadable⟩
    | case3 c cs hfront ih =>
        obtain ⟨⟨lead', path', after'⟩, hfound, heq⟩ := Option.map_eq_some_iff.mp h
        simp only [Prod.mk.injEq] at heq
        obtain ⟨rfl, rfl, rfl⟩ := heq
        obtain ⟨rfl, hleftmost⟩ := ih hfound
        exact ⟨rfl, Leftmost.cons_iff.mpr ⟨hfront, hleftmost⟩⟩
  · rintro ⟨rfl, h⟩
    induction lead with
    | nil =>
        have hfront : placeholder? (opened [] path after) = some (path, after) := closing?_append h.readable after
        simp only [opened, List.nil_append] at hfront ⊢
        rw [leftmost?, hfront]
    | cons c lead ih =>
        obtain ⟨hfront, hleftmost⟩ := Leftmost.cons_iff.mp h
        have htext : opened (c :: lead) path after = c :: opened lead path after := rfl
        rw [htext, leftmost?, hfront, ih hleftmost]
        rfl

/-- Nothing is found exactly where no opening is closed on its line. -/
theorem leftmost?_eq_none_iff {text : List Char} : leftmost? text = none ↔ Piece.NoPlaceholder text := by
  constructor
  · intro h path after hopened
    obtain ⟨lead, rfl⟩ := hopened
    by_contra hline
    induction lead with
    | nil =>
        rw [List.nil_append, leftmost?] at h
        split at h
        · exact absurd h (by simp)
        · rename_i hfront
          exact closing?_ne_none hline after hfront
    | cons c lead ih =>
        rw [List.cons_append, leftmost?] at h
        split at h
        · exact absurd h (by simp)
        · exact ih (Option.map_eq_none_iff.mp h)
  · intro h
    rw [Option.eq_none_iff_forall_ne_some]
    rintro ⟨lead, path, after⟩ hfound
    obtain ⟨rfl, hleftmost⟩ := leftmost?_eq_some_iff.mp hfound
    exact hleftmost.readable.2 (h path after (List.suffix_append lead _))

theorem length_lt_of_leftmost? {text lead path after : List Char} (h : leftmost? text = some (lead, path, after)) :
    after.length < text.length := by
  obtain ⟨rfl, -⟩ := leftmost?_eq_some_iff.mp h
  simp only [opened, List.length_append, List.length_cons]
  omega

/-! ## Reading -/

namespace Piece

/-- Pieces found before stay in front. -/
theorem readOnto_append (found before : List Piece) (path : Option (List Char)) (cs : List Char) :
    readOnto (found ++ before) path cs = before.reverse ++ readOnto found path cs := by
  fun_induction readOnto found path cs with
  | case1 found cs ih => rw [readOnto, ih]
  | case2 found c cs hopen ih => rw [readOnto_char _ c fun rest hc hcs => hopen rest hc hcs, ← ih]; rfl
  | case3 found => simp [readOnto]
  | case4 found path cs ih => rw [readOnto, if_pos rfl, ← ih]; rfl
  | case5 found path cs _ ih => rw [readOnto, if_neg (by decide), if_pos rfl, ← ih]; simp
  | case6 found path c cs hclose hline ih => rw [readOnto, if_neg hclose, if_neg hline, ih]
  | case7 found path => simp [readOnto]

/-- Reading goes on as if nothing had been found. -/
theorem readOnto_none (found : List Piece) (cs : List Char) : readOnto found none cs = found.reverse ++ read cs :=
  readOnto_append [] found none cs

/-- **An opening that is not closed is as good as none:** what was taken for its path is put back, and what comes next
    is read from there. By recursion on the text; behind another opening that is not closed either, two characters of it
    are gone at once. -/
theorem readOnto_of_not_closed {cs : List Char} (h : closing? cs = none) (found : List Piece) (path : List Char) :
    readOnto found (some path) cs = readOnto (unclosed path ++ found) none cs := by
  cases cs with
  | nil => rfl
  | cons c cs =>
      rw [closing?] at h
      split at h
      · exact absurd h (Option.some_ne_none _)
      rename_i hclose
      split at h
      · -- The line ends here, and with it the path.
        rename_i hline
        subst hline
        rw [readOnto_char _ '\n' fun _ heq => absurd heq (by decide), readOnto, if_neg hclose, if_pos rfl]
      · rename_i hline
        have hrest : closing? cs = none := Option.map_eq_none_iff.mp h
        have hpath : readOnto found (some path) (c :: cs) = readOnto found (some (c :: path)) cs := by
          rw [readOnto, if_neg hclose, if_neg hline]
        rw [hpath, readOnto_of_not_closed hrest]
        by_cases hopen : c = '$' ∧ ∃ rest, cs = '\x7b' :: rest
        · obtain ⟨rfl, rest, rfl⟩ := hopen
          have hagain : closing? rest = none := by
            rw [closing?, if_neg (by decide), if_neg (by decide)] at hrest
            exact Option.map_eq_none_iff.mp hrest
          rw [readOnto_char _ '\x7b' fun _ heq => absurd heq (by decide), readOnto, readOnto_of_not_closed hagain]
          rfl
        · rw [readOnto_char _ c fun rest hc hcs => hopen ⟨hc, rest, hcs⟩]
          rfl
termination_by cs.length

/-- What a placeholder starts with is read as that placeholder. -/
theorem read_of_placeholder? {text path after : List Char} (h : placeholder? text = some (path, after)) :
    read text = .placeholder path :: read after := by
  obtain ⟨rfl, hreadable⟩ := eq_of_placeholder? h
  rw [opened, List.nil_append, read, readOnto, readOnto_path hreadable, readOnto_none]
  rfl

/-- A character that no placeholder starts with is read as itself, be it the dollar of an opening. -/
theorem read_cons {c : Char} {cs : List Char} (h : placeholder? (c :: cs) = none) :
    read (c :: cs) = .char c :: read cs := by
  by_cases hopen : c = '$' ∧ ∃ rest, cs = '\x7b' :: rest
  · obtain ⟨rfl, rest, rfl⟩ := hopen
    have hrest : closing? rest = none := h
    have hbrace : read ('\x7b' :: rest) = .char '\x7b' :: read rest := by
      rw [read, readOnto_char _ '\x7b' fun _ heq => absurd heq (by decide), readOnto_none]
      rfl
    rw [hbrace, read, readOnto, readOnto_of_not_closed hrest, readOnto_none]
    rfl
  · rw [read, readOnto_char _ c fun rest hc hcs => hopen ⟨hc, rest, hcs⟩, readOnto_none]
    rfl

/-- **The leftmost placeholder is read first,** behind the characters before it. -/
theorem read_of_leftmost? {text lead path after : List Char} (h : leftmost? text = some (lead, path, after)) :
    read text = lead.map .char ++ .placeholder path :: read after := by
  fun_induction leftmost? text generalizing lead with
  | case1 => exact absurd h (by simp)
  | case2 c cs path' after' hfront =>
      simp only [Option.some.injEq, Prod.mk.injEq] at h
      obtain ⟨rfl, rfl, rfl⟩ := h
      exact read_of_placeholder? hfront
  | case3 c cs hfront ih =>
      obtain ⟨⟨lead', path', after'⟩, hfound, heq⟩ := Option.map_eq_some_iff.mp h
      simp only [Prod.mk.injEq] at heq
      obtain ⟨rfl, rfl, rfl⟩ := heq
      rw [read_cons hfront, ih hfound]
      rfl

/-- Where nothing is found, characters are read. -/
theorem read_of_leftmost?_eq_none {text : List Char} (h : leftmost? text = none) : read text = text.map .char := by
  induction text with
  | nil => rfl
  | cons c cs ih =>
      rw [leftmost?] at h
      split at h
      · exact absurd h (Option.some_ne_none _)
      · rename_i hfront
        rw [read_cons hfront, ih (Option.map_eq_none_iff.mp h)]
        rfl

/-- **No placeholder is read** exactly where no opening is closed on its line; the pieces are then the characters. -/
theorem read_eq_map_char_iff {cs : List Char} : read cs = cs.map .char ↔ NoPlaceholder cs := by
  rw [← leftmost?_eq_none_iff]
  constructor
  · intro hread
    rw [Option.eq_none_iff_forall_ne_some]
    rintro ⟨lead, path, after⟩ hfound
    -- The leftmost placeholder would be among the characters.
    have hmem : .placeholder path ∈ cs.map Piece.char := by simp [← hread, read_of_leftmost? hfound]
    simp at hmem
  · exact read_of_leftmost?_eq_none

instance (cs : List Char) : Decidable (NoPlaceholder cs) :=
  decidable_of_iff (read cs = cs.map .char) read_eq_map_char_iff

end Piece

end AccessPolicy
