import AccessPolicy.Pattern.Glob

/-!
# Which texts a segment fits

What the tokens of one segment mean is said here without any order of search: a segment *fits* a text if the text
can be cut into one piece per token, each piece being what its token stands for (`Reads`). A segment of stars only
fits every text but the empty one.

`Segment.accepts` searches: each text between two stars is taken at the first place it occurs, and the choice is
never taken back. That nothing is lost by this is the content of `Segment.accepts_ofTokens`. It rests on the
leftmost occurrence leaving a remainder that ends every other (`afterFirst?_leftmost`), and on a star absorbing
whatever is left over in front (`Spread.extend`).

Contents:
* `Reads` — a list of parts reads a text, with its cons and append lemmas;
* `Token.Consumes`, `AllStars`, `onlyStars_iff`, `Fits`, `Fits.nil_iff`, `Fits.reads`;
* `after?_eq_some_iff`, `afterFirst?_sound`, `afterFirst?_leftmost`;
* `Spread`, `acceptsAfterStar_iff`, **`Segment.accepts_ofTokens`**.
-/

namespace AccessPolicy

/-! ## Reading a text part by part -/

/-- The text is cut into one piece per part, in order, each piece among those its part allows. -/
inductive Reads {α : Type} (allows : α → List Char → Prop) : List α → List Char → Prop where
  | nil : Reads allows [] []
  | cons {part : α} {parts : List α} {piece rest : List Char} (head : allows part piece)
      (tail : Reads allows parts rest) : Reads allows (part :: parts) (piece ++ rest)

namespace Reads

variable {α : Type} {allows : α → List Char → Prop}

@[simp] theorem nil_iff {cs : List Char} : Reads allows [] cs ↔ cs = [] := by
  constructor
  · intro h
    cases h
    rfl
  · rintro rfl
    exact .nil

theorem cons_iff {part : α} {parts : List α} {cs : List Char} :
    Reads allows (part :: parts) cs ↔
      ∃ piece rest, cs = piece ++ rest ∧ allows part piece ∧ Reads allows parts rest := by
  constructor
  · intro h
    cases h with
    | @cons _ _ piece rest head tail => exact ⟨piece, rest, rfl, head, tail⟩
  · rintro ⟨piece, rest, rfl, head, tail⟩
    exact .cons head tail

@[simp] theorem singleton_iff {part : α} {cs : List Char} : Reads allows [part] cs ↔ allows part cs := by
  rw [cons_iff]
  constructor
  · rintro ⟨piece, rest, rfl, head, tail⟩
    rw [nil_iff] at tail
    simpa [tail] using head
  · intro h
    exact ⟨cs, [], by simp, h, .nil⟩

/-- Parts in two groups read a text that is cut in two. -/
theorem append_iff {first second : List α} {cs : List Char} :
    Reads allows (first ++ second) cs ↔
      ∃ left right, cs = left ++ right ∧ Reads allows first left ∧ Reads allows second right := by
  induction first generalizing cs with
  | nil =>
      constructor
      · intro h
        exact ⟨[], cs, rfl, .nil, h⟩
      · rintro ⟨left, right, rfl, hleft, hright⟩
        rw [nil_iff] at hleft
        simpa [hleft] using hright
  | cons part first ih =>
      constructor
      · intro h
        obtain ⟨piece, rest, rfl, head, tail⟩ := cons_iff.mp h
        obtain ⟨left, right, rfl, hleft, hright⟩ := ih.mp tail
        exact ⟨piece ++ left, right, (List.append_assoc ..).symm, .cons head hleft, hright⟩
      · rintro ⟨left, right, rfl, hleft, hright⟩
        obtain ⟨piece, rest, rfl, head, tail⟩ := cons_iff.mp hleft
        rw [List.append_assoc]
        exact .cons head (ih.mpr ⟨rest, right, rfl, tail, hright⟩)

end Reads

/-! ## Tokens and segments -/

/-- What a token of a segment may stand for: a character for itself, a star for any run, line ends included. -/
def Token.Consumes : Token → List Char → Prop
  | .char x, piece => piece = [x]
  | .star, _ => True
  | .separator, piece => piece = ['/']

/-- A segment of stars, at least one of them, and nothing else. -/
def AllStars (segment : List Token) : Prop :=
  segment ≠ [] ∧ ∀ t ∈ segment, t = .star

instance (segment : List Token) : Decidable (AllStars segment) :=
  inferInstanceAs (Decidable (segment ≠ [] ∧ ∀ t ∈ segment, t = .star))

theorem onlyStars_iff {segment : List Token} : onlyStars segment = true ↔ AllStars segment := by
  simp [onlyStars, AllStars]

/-- **A segment fits a text.** Stars alone ask for at least one character; any other segment reads the text token
    by token. -/
def Fits (segment : List Token) (text : List Char) : Prop :=
  if AllStars segment then text ≠ [] else Reads Token.Consumes segment text

/-- Stars read the empty text, and so does nothing that has a token besides. -/
theorem reads_nil_iff {segment : List Token} : Reads Token.Consumes segment [] ↔ ∀ t ∈ segment, t = .star := by
  induction segment with
  | nil => exact ⟨fun _ t ht => absurd ht List.not_mem_nil, fun _ => .nil⟩
  | cons t segment ih =>
      rw [List.forall_mem_cons, ← ih]
      constructor
      · intro h
        obtain ⟨piece, rest, hcut, hpiece, hrest⟩ := Reads.cons_iff.mp h
        obtain ⟨rfl, rfl⟩ := List.append_eq_nil_iff.mp hcut.symm
        refine ⟨?_, hrest⟩
        cases t with
        | char c => exact absurd hpiece (List.cons_ne_nil c []).symm
        | star => rfl
        | separator => exact absurd hpiece (List.cons_ne_nil '/' []).symm
      · rintro ⟨rfl, hrest⟩
        exact Reads.cons_iff.mpr ⟨[], [], rfl, trivial, hrest⟩

namespace Fits

variable {segment : List Token} {text : List Char}

/-- The empty text fits the empty segment only. -/
theorem nil_iff : Fits segment [] ↔ segment = [] := by
  constructor
  · intro h
    unfold Fits at h
    split at h
    · exact absurd rfl h
    · rename_i hstars
      cases segment with
      | nil => rfl
      | cons t rest => exact absurd ⟨List.cons_ne_nil t rest, reads_nil_iff.mp h⟩ hstars
  · rintro rfl
    rw [Fits, if_neg fun h => h.1 rfl]
    exact .nil

/-- A segment reads what it fits: of stars alone, the first takes everything. -/
theorem reads (h : Fits segment text) : Reads Token.Consumes segment text := by
  unfold Fits at h
  split at h
  · rename_i hstars
    obtain ⟨hne, hall⟩ := hstars
    obtain ⟨t, rest, rfl⟩ := List.exists_cons_of_ne_nil hne
    obtain ⟨rfl, hrest⟩ := List.forall_mem_cons.mp hall
    exact Reads.cons_iff.mpr ⟨text, [], (List.append_nil text).symm, trivial, reads_nil_iff.mpr hrest⟩
  · exact h

end Fits

theorem consumes_of_char?_eq_some {t : Token} {c : Char} (h : t.char? = some c) (piece : List Char) :
    t.Consumes piece ↔ piece = [c] := by
  cases t with
  | char x =>
      obtain rfl : x = c := Option.some.inj h
      exact Iff.rfl
  | star => exact absurd h (by simp [Token.char?])
  | separator =>
      obtain rfl : '/' = c := Option.some.inj h
      exact Iff.rfl

namespace Segment

/-! ## Texts at the front, and at the first place they occur -/

theorem after?_eq_some_iff {start cs left : List Char} :
    after? start cs = some left ↔ cs = start ++ left := by
  fun_induction after? start cs with
  | case1 cs => simp
  | case2 a start => simp
  | case3 start c cs ih => simpa using ih
  | case4 a start c cs hne =>
      constructor
      · intro h
        exact absurd h (by simp)
      · intro h
        exact absurd (List.cons.inj h).1.symm hne

/-- What is found is an occurrence. -/
theorem afterFirst?_sound {text cs left : List Char} (h : afterFirst? text cs = some left) :
    ∃ run, cs = run ++ (text ++ left) := by
  induction cs with
  | nil =>
      have hfront : after? text [] = some left := h
      exact ⟨[], by simpa using after?_eq_some_iff.mp hfront⟩
  | cons c cs ih =>
      unfold afterFirst? at h
      cases hfront : after? text (c :: cs) with
      | some found =>
          rw [hfront] at h
          obtain rfl : found = left := Option.some.inj h
          exact ⟨[], by simpa using after?_eq_some_iff.mp hfront⟩
      | none =>
          rw [hfront] at h
          obtain ⟨run, hrun⟩ := ih h
          exact ⟨c :: run, congrArg (c :: ·) hrun⟩

/-- **The first occurrence leaves the most.** If the text occurs anywhere, one is found, and what it leaves ends in
    what that occurrence leaves. -/
theorem afterFirst?_leftmost (text run left : List Char) :
    ∃ more, afterFirst? text (run ++ (text ++ left)) = some (more ++ left) := by
  induction run with
  | nil =>
      have hfront : after? text (text ++ left) = some left := after?_eq_some_iff.mpr rfl
      refine ⟨[], ?_⟩
      cases hcs : text ++ left with
      | nil => simpa [afterFirst?, hcs] using hfront
      | cons c cs =>
          rw [hcs] at hfront
          simp [afterFirst?, hfront]
  | cons c run ih =>
      obtain ⟨more, hmore⟩ := ih
      cases hfront : after? text (c :: (run ++ (text ++ left))) with
      | none => exact ⟨more, by simp [afterFirst?, hfront, hmore]⟩
      | some found =>
          have whole : c :: (run ++ (text ++ left)) = text ++ found := after?_eq_some_iff.mp hfront
          -- Both remainders end the same text, and the one found is the longer.
          have hfound : found <:+ c :: (run ++ (text ++ left)) := ⟨text, whole.symm⟩
          have hleft : left <:+ c :: (run ++ (text ++ left)) := ⟨c :: (run ++ text), by simp⟩
          have hlen : left.length ≤ found.length := by
            have := congrArg List.length whole
            simp only [List.length_cons, List.length_append] at this
            omega
          obtain ⟨more, rfl⟩ := List.suffix_of_suffix_length_le hleft hfound hlen
          exact ⟨more, by simp [afterFirst?, hfront]⟩

/-! ## Texts spread out over a text -/

/-- Each of the given texts follows some run of characters, in order, and the last one ends the whole. -/
def Spread : List (List Char) → List Char → Prop
  | [], cs => cs = []
  | text :: rest, cs => ∃ run left, cs = run ++ (text ++ left) ∧ Spread rest left

/-- More characters in front are taken in by the first run. -/
theorem Spread.extend {texts : List (List Char)} (hne : texts ≠ []) {cs : List Char} (h : Spread texts cs)
    (more : List Char) : Spread texts (more ++ cs) := by
  cases texts with
  | nil => exact absurd rfl hne
  | cons text rest =>
      obtain ⟨run, left, rfl, hrest⟩ := h
      exact ⟨more ++ run, left, (List.append_assoc ..).symm, hrest⟩

/-- **Searching greedily loses nothing:** the search succeeds wherever the texts can be spread out at all. -/
theorem acceptsAfterStar_iff {texts : List (List Char)} (hne : texts ≠ []) {cs : List Char} :
    acceptsAfterStar texts cs = true ↔ Spread texts cs := by
  fun_induction acceptsAfterStar texts cs with
  | case1 cs => exact absurd rfl hne
  | case2 last cs =>
      rw [List.isSuffixOf_iff_suffix]
      constructor
      · rintro ⟨run, rfl⟩
        exact ⟨run, [], by simp, rfl⟩
      · rintro ⟨run, left, rfl, hleft⟩
        obtain rfl : left = [] := hleft
        exact ⟨run, by simp⟩
  | case3 text rest cs hrest left hfound ih =>
      rw [ih hrest]
      constructor
      · intro h
        obtain ⟨run, rfl⟩ := afterFirst?_sound hfound
        exact ⟨run, left, rfl, h⟩
      · rintro ⟨run, left', rfl, h⟩
        obtain ⟨more, hmore⟩ := afterFirst?_leftmost text run left'
        obtain rfl : left = more ++ left' := Option.some.inj (hfound.symm.trans hmore)
        exact h.extend hrest more
  | case4 text rest cs hrest hnone =>
      constructor
      · intro h
        exact absurd h (by simp)
      · rintro ⟨run, left, rfl, -⟩
        obtain ⟨more, hmore⟩ := afterFirst?_leftmost text run left
        exact absurd (hnone.symm.trans hmore) (by simp)

/-! ## From tokens to texts -/

/-- The texts between the stars of some tokens; there is one more of them than there are stars. -/
def textsOf (ts : List Token) : List (List Char) :=
  (splitAll (· == .star) ts).map (·.filterMap Token.char?)

/-- The first text opens the whole, and the others are spread out over what follows. -/
def Fills : List (List Char) → List Char → Prop
  | [], _ => False
  | first :: rest, cs => ∃ left, cs = first ++ left ∧ Spread rest left

theorem textsOf_ne_nil (ts : List Token) : textsOf ts ≠ [] := by
  simp [textsOf, splitAll_ne_nil]

theorem textsOf_star (ts : List Token) : textsOf (.star :: ts) = [] :: textsOf ts := by
  simp [textsOf, splitAll_cons]

/-- Any token but a star is a character of the first text. -/
theorem textsOf_cons {t : Token} {c : Char} (h : t.char? = some c) {ts : List Token} {first : List Char}
    {rest : List (List Char)} (hts : textsOf ts = first :: rest) : textsOf (t :: ts) = (c :: first) :: rest := by
  have hstar : (t == .star) = false := by
    cases t <;> simp_all [Token.char?]
  obtain ⟨part, parts, hparts⟩ := List.exists_cons_of_ne_nil (splitAll_ne_nil (· == .star) ts)
  simp only [textsOf, hparts, List.map_cons, List.cons.injEq] at hts
  simp [textsOf, splitAll_cons, hstar, hparts, h, hts.1, hts.2]

/-- **Reading token by token** is finding the texts between the stars, in order. -/
theorem reads_iff_fills (ts : List Token) (cs : List Char) :
    Reads Token.Consumes ts cs ↔ Fills (textsOf ts) cs := by
  induction ts generalizing cs with
  | nil => simp [textsOf, Fills, Spread]
  | cons t ts ih =>
      obtain ⟨first, rest, hts⟩ := List.exists_cons_of_ne_nil (textsOf_ne_nil ts)
      rw [Reads.cons_iff]
      cases hc : t.char? with
      | none =>
          obtain rfl : t = .star := by cases t <;> simp_all [Token.char?]
          rw [textsOf_star]
          constructor
          · rintro ⟨run, after, rfl, -, htail⟩
            rw [ih, hts] at htail
            obtain ⟨left, rfl, hleft⟩ := htail
            exact ⟨_, rfl, by rw [hts]; exact ⟨run, left, rfl, hleft⟩⟩
          · rintro ⟨_, rfl, hspread⟩
            rw [hts] at hspread
            obtain ⟨run, left, rfl, hleft⟩ := hspread
            exact ⟨run, first ++ left, rfl, trivial, by rw [ih, hts]; exact ⟨left, rfl, hleft⟩⟩
      | some c =>
          rw [textsOf_cons hc hts]
          simp only [consumes_of_char?_eq_some hc, ih, hts, Fills]
          constructor
          · rintro ⟨_, _, rfl, rfl, left, rfl, hleft⟩
            exact ⟨left, rfl, hleft⟩
          · rintro ⟨left, rfl, hleft⟩
            exact ⟨[c], first ++ left, rfl, rfl, left, rfl, hleft⟩

theorem accepts_texts_iff (first : List Char) (rest : List (List Char)) (cs : List Char) :
    (Segment.texts first rest).accepts cs = true ↔ Fills (first :: rest) cs := by
  cases rest with
  | nil =>
      show (first == cs) = true ↔ ∃ left, cs = first ++ left ∧ left = []
      rw [beq_iff_eq]
      constructor
      · rintro rfl
        exact ⟨[], by simp, rfl⟩
      · rintro ⟨left, rfl, rfl⟩
        simp
  | cons text rest =>
      have hne : text :: rest ≠ [] := List.cons_ne_nil text rest
      cases hfront : after? first cs with
      | some left =>
          have hcs : cs = first ++ left := after?_eq_some_iff.mp hfront
          simp only [accepts, hfront, acceptsAfterStar_iff hne, Fills]
          constructor
          · intro h
            exact ⟨left, hcs, h⟩
          · rintro ⟨left', hcs', h⟩
            obtain rfl : left = left' := List.append_cancel_left (hcs.symm.trans hcs')
            exact h
      | none =>
          simp only [accepts, hfront]
          constructor
          · intro h
            exact absurd h (by simp)
          · rintro ⟨left, hcs, -⟩
            exact absurd (hfront.symm.trans (after?_eq_some_iff.mpr hcs)) (by simp)

/-- A segment is compiled by what it holds: stars alone, or texts between stars. -/
theorem ofTokens_eq (ts : List Token) :
    (AllStars ts ∧ ofTokens ts = .nonempty) ∨
      (¬ AllStars ts ∧ ∃ first rest, textsOf ts = first :: rest ∧ ofTokens ts = .texts first rest) := by
  by_cases h : AllStars ts
  · exact Or.inl ⟨h, by rw [ofTokens, if_pos (onlyStars_iff.mpr h)]⟩
  · obtain ⟨first, rest, hts⟩ := List.exists_cons_of_ne_nil (textsOf_ne_nil ts)
    refine Or.inr ⟨h, first, rest, hts, ?_⟩
    have hsplit : (splitAll (· == .star) ts).map (·.filterMap Token.char?) = first :: rest := hts
    rw [ofTokens, if_neg (mt onlyStars_iff.mp h)]
    simp only [hsplit]

/-- **A compiled segment accepts what its tokens fit.** -/
theorem accepts_ofTokens (ts : List Token) (cs : List Char) :
    (ofTokens ts).accepts cs = true ↔ Fits ts cs := by
  rcases ofTokens_eq ts with ⟨hstars, heq⟩ | ⟨hstars, first, rest, hts, heq⟩
  · rw [heq, Fits, if_pos hstars]
    simp [accepts]
  · rw [heq, Fits, if_neg hstars, accepts_texts_iff, reads_iff_fills, hts]

end Segment

end AccessPolicy
