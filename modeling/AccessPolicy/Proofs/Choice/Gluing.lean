import AccessPolicy.Pattern.Glob
import AccessPolicy.Proofs.Choice.Expansion
import AccessPolicy.Proofs.Pattern.Verbatim
import AccessPolicy.Proofs.Text.Quoting

/-!
# What alternatives are glued together from

Quoting is read twice. Once it settles where choices begin, end and are cut; what is spelled out is text again, with its
backslashes, and its quoting is read anew when it is compiled. The two readings agree only if no backslash comes to stand
before a character that it did not quote in the pattern, although pieces from different places are put side by side.

It is the cuts that see to this. A choice begins, ends and is cut at characters that are not quoted, so a backslash before
such a character is quoted itself, and the text up to there is complete (`complete_of_cutAt?`). Only after the last choice
may a backslash be left over, and nothing is glued to the text that it ends.

`Picked` follows one alternative through the pattern: which stretches of it are taken, and which are left out. All of
them in their order are the pattern; those that are taken are the alternative. Each is read alike in both.

Contents:
* `complete_of_cutAt?`, `complete_of_mem_cutAll`, `eq_of_cutAll` — cuts;
* `Stretch`, `Picked`, `pieces`, `mem_spelledOut_iff`;
* `Picked.text_eq`, `Picked.complete`, `Picked.read_eq`, `Picked.read_pieces`, `Picked.tokens_pieces`;
* `mem_iff_of_expand`, **`tokens_of_expand`**.
-/

namespace AccessPolicy

open Glyph (Complete)

/-! ## Cuts -/

/-- **What stands before a cut is complete:** the character that is cut at would be quoted by a backslash left over. -/
theorem complete_of_cutAt? {target : Char} (htarget : target ≠ '\\') {text before after : List Char}
    (h : cutAt? target text = some (before, after)) : Complete before := by
  have hread := ((read_of_cutAt? htarget h).2 after).2
  have hasRead := Glyph.asRead_read (before ++ target :: after)
  rw [hread] at hasRead
  exact hasRead.not_mem_left

/-- So are the stretches between the cuts, if the whole is. -/
theorem complete_of_mem_cutAll {target : Char} (htarget : target ≠ '\\') {text part : List Char} (h : Complete text)
    (hpart : part ∈ cutAll target text) : Complete part := by
  have hglyphs : Glyph.read part ∈ splitAll (· == .plain target) (Glyph.read text) := by
    rw [← map_read_cutAll htarget]
    exact List.mem_map_of_mem hpart
  exact fun hmem => h (mem_of_mem_splitAll hglyphs hmem).1

/-- The first choice of a text is complete, and so is what leads up to it. -/
theorem complete_of_firstChoice? {text lead body after : List Char} (h : firstChoice? text = some (lead, body, after)) :
    Complete lead ∧ Complete body := by
  obtain ⟨rest, hopen, hclose⟩ := cutAt?_of_firstChoice? h
  exact ⟨complete_of_cutAt? (by decide) hopen, complete_of_cutAt? (by decide) hclose⟩

theorem complete_flatMap {α : Type} {f : α → List Char} {xs : List α} (h : ∀ x ∈ xs, Complete (f x)) :
    Complete (xs.flatMap f) := by
  induction xs with
  | nil => exact Glyph.complete_nil
  | cons x xs ih =>
      obtain ⟨hx, hxs⟩ := List.forall_mem_cons.mp h
      rw [List.flatMap_cons]
      exact hx.append (ih hxs)

/-- The stretches of a text, with the character that they were cut at before each of them. -/
theorem flatMap_cutAll (target : Char) (text : List Char) :
    (cutAll target text).flatMap (target :: ·) = target :: text := by
  fun_induction cutAll target text with
  | case1 text h => simp
  | case2 text before after h _ ih =>
      rw [List.flatMap_cons, ih, eq_of_cutAt? h]
      rfl

theorem flatMap_concat_cons (target : Char) (parts : List (List Char)) (rest : List Char) :
    parts.flatMap (target :: ·) ++ target :: rest = target :: (parts.flatMap (· ++ [target]) ++ rest) := by
  induction parts with
  | nil => rfl
  | cons part parts ih =>
      rw [List.flatMap_cons, List.flatMap_cons, List.append_assoc, ih]
      simp

/-- A text around one of its stretches. -/
theorem eq_of_cutAll {target : Char} {text part : List Char} {before behind : List (List Char)}
    (h : cutAll target text = before ++ part :: behind) :
    text = before.flatMap (· ++ [target]) ++ (part ++ behind.flatMap (target :: ·)) := by
  have hall := flatMap_cutAll target text
  rw [h, List.flatMap_append, List.flatMap_cons, List.cons_append, flatMap_concat_cons] at hall
  exact (List.cons.inj hall).2.symm

/-! ## Picking an alternative -/

/-- A stretch of a pattern, taken into an alternative or left out of it. -/
inductive Stretch where
  | taken (text : List Char)
  | leftOut (text : List Char)

/-- The text of a stretch. -/
def Stretch.text : Stretch → List Char
  | .taken text | .leftOut text => text

/-- The text of a stretch that is taken. -/
def Stretch.taken? : Stretch → Option (List Char)
  | .taken text => some text
  | .leftOut _ => none

/-- **One alternative, picked from a text.** Of each choice one part is taken, with what leads up to the choice; its braces,
    the commas and the other parts are left out. What follows the last choice is taken as it is. -/
inductive Picked : (text : List Char) → List Stretch → (tail : List Char) → Prop where
  | tail {text : List Char} (h : firstChoice? text = none) : Picked text [] text
  | choice {text lead body after : List Char} (h : firstChoice? text = some (lead, body, after))
      {before behind : List (List Char)} {part : List Char} (hparts : cutAll ',' body = before ++ part :: behind)
      {stretches : List Stretch} {tail : List Char} (rest : Picked after stretches tail) :
      Picked text
        (.taken lead :: .leftOut ('\x7b' :: before.flatMap (· ++ [','])) :: .taken part ::
          .leftOut (behind.flatMap (',' :: ·) ++ ['\x7d']) :: stretches)
        tail

/-- The texts that are taken, in order; the tail is not among them. -/
def pieces (stretches : List Stretch) : List (List Char) :=
  stretches.filterMap Stretch.taken?

@[simp] theorem pieces_nil : pieces [] = [] := rfl

@[simp] theorem pieces_taken (text : List Char) (stretches : List Stretch) :
    pieces (.taken text :: stretches) = text :: pieces stretches := rfl

@[simp] theorem pieces_leftOut (text : List Char) (stretches : List Stretch) :
    pieces (.leftOut text :: stretches) = pieces stretches := rfl

/-- What a text spells out are the alternatives that can be picked from it. -/
theorem mem_spelledOut_iff (text alternative : List Char) :
    alternative ∈ spelledOut text ↔
      ∃ stretches tail, Picked text stretches tail ∧ (pieces stretches).flatten ++ tail = alternative := by
  fun_induction stages text generalizing alternative with
  | case1 text h =>
      rw [spelledOut_of_no_choice h, List.mem_singleton]
      constructor
      · rintro rfl
        exact ⟨[], alternative, .tail h, rfl⟩
      · rintro ⟨stretches, tail, hpicked, rfl⟩
        cases hpicked with
        | tail _ => rfl
        | choice hchoice _ _ => exact absurd (h.symm.trans hchoice) (by simp)
  | case2 text lead body after h _ ih =>
      rw [eq_of_firstChoice? h, spelledOut_of_choice h after, ← eq_of_firstChoice? h]
      simp only [joinEach, ledParts, List.mem_flatMap, List.mem_map, ih]
      constructor
      · rintro ⟨_, ⟨part, hpart, rfl⟩, _, ⟨stretches, tail, hpicked, rfl⟩, rfl⟩
        obtain ⟨before, behind, hparts⟩ := List.append_of_mem hpart
        exact ⟨_, tail, .choice h hparts hpicked, by simp⟩
      · rintro ⟨_, tail, hpicked, rfl⟩
        cases hpicked with
        | tail hnone => exact absurd (hnone.symm.trans h) (by simp)
        | @choice _ lead' body' after' hchoice before behind part hparts stretches _ hrest =>
            simp only [h, Option.some.injEq, Prod.mk.injEq] at hchoice
            obtain ⟨rfl, rfl, rfl⟩ := hchoice
            have hpart : part ∈ cutAll ',' body := by
              rw [hparts]
              exact List.mem_append_right before List.mem_cons_self
            exact ⟨lead ++ part, ⟨part, hpart, rfl⟩, _, ⟨stretches, tail, hrest, rfl⟩, by simp⟩

namespace Picked

variable {text tail : List Char} {stretches : List Stretch}

/-- All stretches in their order, and the tail, are the text. -/
theorem text_eq (h : Picked text stretches tail) : text = (stretches.map Stretch.text).flatten ++ tail := by
  induction h with
  | tail h => rfl
  | choice h hparts rest ih =>
      rw [eq_of_firstChoice? h, eq_of_cutAll hparts, ih]
      simp [Stretch.text]

/-- **Every stretch is complete,** be it taken or left out. -/
theorem complete (h : Picked text stretches tail) : ∀ s ∈ stretches, Complete s.text := by
  induction h with
  | tail h => exact fun s hs => absurd hs List.not_mem_nil
  | @choice text lead body after h before behind part hparts stretches tail rest ih =>
      obtain ⟨hlead, hbody⟩ := complete_of_firstChoice? h
      have hpart : ∀ p ∈ before ++ part :: behind, Complete p := by
        intro p hp
        rw [← hparts] at hp
        exact complete_of_mem_cutAll (by decide) hbody hp
      obtain ⟨hbefore, hrest⟩ := List.forall_mem_append.mp hpart
      obtain ⟨hpart, hbehind⟩ := List.forall_mem_cons.mp hrest
      -- Braces and commas are left out with the parts beside them, and end no stretch in a backslash.
      have hopen : Complete ['\x7b'] := by decide
      have hcomma : Complete [','] := by decide
      have hclose : Complete ['\x7d'] := by decide
      refine List.forall_mem_cons.mpr ⟨hlead, List.forall_mem_cons.mpr ⟨?_, List.forall_mem_cons.mpr ⟨hpart,
        List.forall_mem_cons.mpr ⟨?_, ih⟩⟩⟩⟩
      · exact hopen.append (complete_flatMap fun p hp => (hbefore p hp).append hcomma)
      · exact (complete_flatMap fun p hp => hcomma.append (hbehind p hp)).append hclose

theorem complete_of_mem_pieces (h : Picked text stretches tail) : ∀ piece ∈ pieces stretches, Complete piece := by
  intro piece hpiece
  obtain ⟨s, hs, htaken⟩ := List.mem_filterMap.mp hpiece
  have hcomplete := h.complete s hs
  cases s with
  | taken text =>
      obtain rfl := Option.some.inj htaken
      exact hcomplete
  | leftOut text => exact absurd htaken (by simp [Stretch.taken?])

/-- The text is read stretch by stretch, -/
theorem read_eq (h : Picked text stretches tail) :
    Glyph.read text = stretches.flatMap (fun s => Glyph.read s.text) ++ Glyph.read tail := by
  have hcomplete : ∀ t ∈ stretches.map Stretch.text, Complete t := by
    intro t ht
    obtain ⟨s, hs, rfl⟩ := List.mem_map.mp ht
    exact h.complete s hs
  rw [h.text_eq, Glyph.read_flatten_append hcomplete, List.flatMap_map]

/-- and so is the alternative, from those that are taken. -/
theorem read_pieces (h : Picked text stretches tail) :
    Glyph.read ((pieces stretches).flatten ++ tail) = (pieces stretches).flatMap Glyph.read ++ Glyph.read tail :=
  Glyph.read_flatten_append h.complete_of_mem_pieces tail

/-- **The tokens of an alternative** are those of its pieces, one piece after another. -/
theorem tokens_pieces (h : Picked text stretches tail) :
    tokens ((pieces stretches).flatten ++ tail) = (pieces stretches).flatMap tokens ++ tokens tail := by
  rw [tokens, h.read_pieces, List.map_append, List.map_flatMap]
  rfl

end Picked

/-! ## What a pattern spells out, compiled -/

/-- What a pattern spells out are the alternatives that can be picked from it, without the empty one if there was a
    choice. -/
theorem mem_iff_of_expand {pattern : List Char} {found : List (List Char)} (h : expand pattern = .ok found)
    (alternative : List Char) :
    alternative ∈ found ↔
      (firstChoice? (quoteLeadingPair pattern) ≠ none → alternative ≠ []) ∧
        ∃ stretches tail, Picked (quoteLeadingPair pattern) stretches tail ∧
          (pieces stretches).flatten ++ tail = alternative := by
  rw [← mem_spelledOut_iff]
  by_cases hchoice : firstChoice? (quoteLeadingPair pattern) = none
  · rw [expand_of_no_choice hchoice] at h
    rw [← Except.ok.inj h, spelledOut_of_no_choice hchoice]
    exact ⟨fun hmem => ⟨fun hsome => absurd hchoice hsome, hmem⟩, And.right⟩
  · obtain ⟨all, hall, hfound⟩ := (expand_eq_ok_iff_of_choice hchoice).mp h
    rw [← hfound, eq_of_outcome hall, joinEach_start, List.mem_filter, and_comm]
    simp [hchoice]

/-- Only an unquoted star is a wildcard. -/
theorem Token.ofGlyph_eq_star_iff (g : Glyph) : ofGlyph g = .star ↔ g = .plain '*' := by
  constructor
  · intro h
    by_contra hg
    have hchar := char?_ofGlyph hg
    rw [h] at hchar
    exact absurd hchar (by simp [char?])
  · rintro rfl
    rfl

/-- **Spelling out and compiling agree on quoting.** The alternatives of a pattern are those that can be picked from it, and
    each of them is read piece by piece: its tokens are those of its pieces in their order, as no piece ends in a backslash
    that could quote what it is glued to. The pattern is made of these pieces too, with what is left out in between, and is
    read stretch by stretch. A glyph of a stretch that is taken is therefore quoted in the alternative exactly if it is
    quoted in the pattern; unquoted stars are wildcards, and a quoted character is asked for as it is. -/
theorem tokens_of_expand {pattern : List Char} {found : List (List Char)} (h : expand pattern = .ok found) :
    (∀ alternative, alternative ∈ found ↔
      (firstChoice? (quoteLeadingPair pattern) ≠ none → alternative ≠ []) ∧
        ∃ stretches tail, Picked (quoteLeadingPair pattern) stretches tail ∧
          (pieces stretches).flatten ++ tail = alternative) ∧
    (∀ stretches tail, Picked (quoteLeadingPair pattern) stretches tail →
      tokens ((pieces stretches).flatten ++ tail) = (pieces stretches).flatMap tokens ++ tokens tail ∧
        (∀ piece ∈ pieces stretches, Complete piece) ∧
        quoteLeadingPair pattern = (stretches.map Stretch.text).flatten ++ tail ∧
        quoteEmptyPair (Glyph.read pattern) = stretches.flatMap (fun s => Glyph.read s.text) ++ Glyph.read tail ∧
        Glyph.read ((pieces stretches).flatten ++ tail) = (pieces stretches).flatMap Glyph.read ++ Glyph.read tail) ∧
    (∀ g, Token.ofGlyph g = .star ↔ g = .plain '*') ∧ ∀ c, (Token.ofGlyph (.quoted c)).char? = some c := by
  refine ⟨mem_iff_of_expand h, fun stretches tail hpicked => ?_, Token.ofGlyph_eq_star_iff, fun c => ?_⟩
  · rw [← read_quoteLeadingPair]
    exact ⟨hpicked.tokens_pieces, hpicked.complete_of_mem_pieces, hpicked.text_eq, hpicked.read_eq, hpicked.read_pieces⟩
  · exact Token.char?_ofGlyph (by simp)

/-- What leads up to the choice and its first part end in quoted backslashes, the second part starts with one that quotes a
    comma, and the tail both starts and ends with one. The second alternative glues all of these together. -/
theorem tokens_of_expand_backslashes :
    ∃ found, expand "x\\\\\x7ba\\\\,\\,*\x7d\\*/\\".toList = .ok found ∧ "x\\\\\\,*\\*/\\".toList ∈ found ∧
      tokens "x\\\\\\,*\\*/\\".toList = ["x\\\\".toList, "\\,*".toList].flatMap tokens ++ tokens "\\*/\\".toList ∧
      tokens "x\\\\\\,*\\*/\\".toList =
        [.char 'x', .char '\\', .char ',', .star, .char '*', .separator, .char '\\'] := by
  have hexpand : expand "x\\\\\x7ba\\\\,\\,*\x7d\\*/\\".toList =
      .ok ["x\\\\a\\\\\\*/\\".toList, "x\\\\\\,*\\*/\\".toList] := by decide
  have hchoice : firstChoice? (quoteLeadingPair "x\\\\\x7ba\\\\,\\,*\x7d\\*/\\".toList) =
      some ("x\\\\".toList, "a\\\\,\\,*".toList, "\\*/\\".toList) := by decide
  have hparts : cutAll ',' "a\\\\,\\,*".toList = ["a\\\\".toList] ++ "\\,*".toList :: [] := by cbv
  have hpicked := Picked.choice hchoice hparts (Picked.tail (by decide))
  obtain ⟨hfound, hpieces, -, -⟩ := tokens_of_expand hexpand
  have hmem := (hfound _).mpr ⟨fun _ => by decide, _, _, hpicked, rfl⟩
  exact ⟨_, hexpand, hmem, (hpieces _ _ hpicked).1, by decide⟩

end AccessPolicy
