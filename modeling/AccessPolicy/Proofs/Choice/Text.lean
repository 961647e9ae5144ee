import AccessPolicy.Pattern.Choice

/-!
# Choices, found in the text itself

`Choice.read` reads glyphs once, from left to right, with what it has found so far at hand. Here the choices of a
text are found the way they are described: the first unquoted `{`, the first unquoted `}` after it, the unquoted
commas between, and then the same again in the rest of the text. A backslash quotes the character after it, whatever
that is.

Both find the same (`read_of_firstChoice?`, `read_of_no_choice`). The point that needs care is that searching starts
afresh at the rest of the text, while reading goes on where it stands: no cut ever falls between a backslash and the
character that it quotes (`read_of_cutAt?`).

Contents:
* `cutAt?`, `firstChoice?`, `cutAll` — searching in a text;
* `eq_of_cutAt?`, `eq_of_firstChoice?` — what is found, put together again, is the text;
* `cutAt?_of_not_mem`, `cutAt?_append` — searching where nothing is quoted;
* `read_of_cutAt?`, `map_read_cutAll` — the cuts are cuts between glyphs;
* `Choice.read_append`, `Choice.read_of_firstChoice?`, `Choice.read_of_choice`, `Choice.read_of_no_choice`;
* `quoteLeadingPair`, `read_quoteLeadingPair`.
-/

namespace AccessPolicy

/-! ## Searching in a text -/

/-- The text before the first unquoted occurrence of a character, and the text after it. -/
def cutAt? (target : Char) : List Char → Option (List Char × List Char)
  | '\\' :: c :: rest => (cutAt? target rest).map fun (before, after) => ('\\' :: c :: before, after)
  | c :: rest =>
    if c = target then some ([], rest)
    else (cutAt? target rest).map fun (before, after) => (c :: before, after)
  | [] => none

/-- The text before the first choice, the text between its braces, and the text after it. -/
def firstChoice? (text : List Char) : Option (List Char × List Char × List Char) :=
  match cutAt? '\x7b' text with
  | none => none
  | some (lead, rest) =>
    match cutAt? '\x7d' rest with
    | none => none
    | some (body, after) => some (lead, body, after)

theorem eq_of_cutAt? {target : Char} {text before after : List Char}
    (h : cutAt? target text = some (before, after)) : text = before ++ target :: after := by
  fun_induction cutAt? target text generalizing before with
  | case1 c rest ih =>
      obtain ⟨⟨before', after'⟩, hcut, heq⟩ := Option.map_eq_some_iff.mp h
      obtain ⟨rfl, rfl⟩ := Prod.mk.inj heq
      rw [ih hcut]
      rfl
  | case2 rest hquote =>
      obtain ⟨rfl, rfl⟩ := Prod.mk.inj (Option.some.inj h)
      rfl
  | case3 c rest hquote hne ih =>
      obtain ⟨⟨before', after'⟩, hcut, heq⟩ := Option.map_eq_some_iff.mp h
      obtain ⟨rfl, rfl⟩ := Prod.mk.inj heq
      rw [ih hcut]
      rfl
  | case4 => exact absurd h (by simp)

/-- The first choice is two cuts, one after the other. -/
theorem cutAt?_of_firstChoice? {text lead body after : List Char} (h : firstChoice? text = some (lead, body, after)) :
    ∃ rest, cutAt? '\x7b' text = some (lead, rest) ∧ cutAt? '\x7d' rest = some (body, after) := by
  unfold firstChoice? at h
  split at h
  · exact absurd h (by simp)
  · rename_i lead' rest hopen
    split at h
    · exact absurd h (by simp)
    · rename_i body' after' hclose
      simp only [Option.some.injEq, Prod.mk.injEq] at h
      obtain ⟨rfl, rfl, rfl⟩ := h
      exact ⟨rest, hopen, hclose⟩

theorem eq_of_firstChoice? {text lead body after : List Char} (h : firstChoice? text = some (lead, body, after)) :
    text = lead ++ '\x7b' :: (body ++ '\x7d' :: after) := by
  obtain ⟨rest, hopen, hclose⟩ := cutAt?_of_firstChoice? h
  rw [eq_of_cutAt? hopen, eq_of_cutAt? hclose]

theorem length_lt_of_cutAt? {target : Char} {text before after : List Char}
    (h : cutAt? target text = some (before, after)) : after.length < text.length := by
  rw [eq_of_cutAt? h, List.length_append, List.length_cons]
  omega

theorem length_lt_of_firstChoice? {text lead body after : List Char}
    (h : firstChoice? text = some (lead, body, after)) : after.length < text.length := by
  rw [eq_of_firstChoice? h]
  simp only [List.length_append, List.length_cons]
  omega

/-- The stretches of a text between the unquoted occurrences of a character. -/
def cutAll (target : Char) (text : List Char) : List (List Char) :=
  match h : cutAt? target text with
  | none => [text]
  | some (before, after) =>
    have := length_lt_of_cutAt? h
    before :: cutAll target after
termination_by text.length

theorem cutAll_of_cutAt? {target : Char} {text before after : List Char}
    (h : cutAt? target text = some (before, after)) : cutAll target text = before :: cutAll target after := by
  rw [cutAll]
  split <;> simp_all

theorem cutAll_of_no_cut {target : Char} {text : List Char} (h : cutAt? target text = none) :
    cutAll target text = [text] := by
  rw [cutAll]
  split <;> simp_all

/-! ## One cut -/

theorem cutAt?_plain (target : Char) {c : Char} (hc : c ≠ '\\') (rest : List Char) :
    cutAt? target (c :: rest) =
      if c = target then some ([], rest)
      else (cutAt? target rest).map fun (before, after) => (c :: before, after) := by
  rw [cutAt?]
  intro d after h
  exact absurd h hc

/-- A character that does not occur is not found. -/
theorem cutAt?_of_not_mem {target : Char} {text : List Char} (h : target ∉ text) : cutAt? target text = none := by
  cases hcut : cutAt? target text with
  | none => rfl
  | some found =>
      rw [eq_of_cutAt? hcut] at h
      exact absurd (List.mem_append_right _ List.mem_cons_self) h

/-- Where nothing is quoted, a character is found at the first place it occurs. -/
theorem cutAt?_append {target : Char} (htarget : target ≠ '\\') {before : List Char} (hmem : target ∉ before)
    (hquote : '\\' ∉ before) (after : List Char) :
    cutAt? target (before ++ target :: after) = some (before, after) := by
  induction before with
  | nil => rw [List.nil_append, cutAt?_plain target htarget, if_pos rfl]
  | cons c before ih =>
      rw [List.mem_cons, not_or] at hmem hquote
      rw [List.cons_append, cutAt?_plain target (Ne.symm hquote.1), if_neg (Ne.symm hmem.1), ih hmem.2 hquote.2]
      rfl

/-- **A cut is a cut between glyphs.** The glyphs before it hold no such character unquoted; and whatever else stands
    after the character, the text is cut there, and its glyphs are those before it, the character, and those of what
    stands after. -/
theorem read_of_cutAt? {target : Char} (htarget : target ≠ '\\') {text before after : List Char}
    (h : cutAt? target text = some (before, after)) :
    Glyph.plain target ∉ Glyph.read before ∧ ∀ other,
      cutAt? target (before ++ target :: other) = some (before, other) ∧
        Glyph.read (before ++ target :: other) = Glyph.read before ++ .plain target :: Glyph.read other := by
  fun_induction cutAt? target text generalizing before with
  | case1 c rest ih =>
      obtain ⟨⟨before', after'⟩, hcut, heq⟩ := Option.map_eq_some_iff.mp h
      obtain ⟨rfl, rfl⟩ := Prod.mk.inj heq
      obtain ⟨hmem, hother⟩ := ih hcut
      refine ⟨by simpa using hmem, fun other => ?_⟩
      obtain ⟨hagain, hread⟩ := hother other
      simp [hread, cutAt?, hagain]
  | case2 rest hquote =>
      obtain ⟨rfl, rfl⟩ := Prod.mk.inj (Option.some.inj h)
      refine ⟨List.not_mem_nil, fun other => ⟨?_, ?_⟩⟩
      · rw [List.nil_append, cutAt?_plain target htarget, if_pos rfl]
      · exact Glyph.read_plain fun hc => absurd hc htarget
  | case3 c rest hquote hne ih =>
      obtain ⟨⟨before', after'⟩, hcut, heq⟩ := Option.map_eq_some_iff.mp h
      obtain ⟨rfl, rfl⟩ := Prod.mk.inj heq
      obtain ⟨hmem, hother⟩ := ih hcut
      -- A backslash here would quote the next character, and there is one.
      have hc : c ≠ '\\' := by
        intro hc
        cases rest with
        | nil => exact absurd hcut (by simp [cutAt?])
        | cons d more => exact hquote d more hc rfl
      have hread (rest : List Char) : Glyph.read (c :: rest) = .plain c :: Glyph.read rest :=
        Glyph.read_plain fun h => absurd h hc
      refine ⟨?_, fun other => ?_⟩
      · rw [hread]
        simpa [Ne.symm hne] using hmem
      · obtain ⟨hagain, hreadOther⟩ := hother other
        rw [List.cons_append, hread, hread, hreadOther, cutAt?_plain target hc, if_neg hne, hagain]
        exact ⟨rfl, rfl⟩
  | case4 => exact absurd h (by simp)

/-- Where there is no cut, no glyph of the text is that character unquoted. -/
theorem not_mem_read_of_cutAt? {target : Char} {text : List Char} (h : cutAt? target text = none) :
    Glyph.plain target ∉ Glyph.read text := by
  fun_induction cutAt? target text with
  | case1 c rest ih => simpa using ih (Option.map_eq_none_iff.mp h)
  | case2 rest hquote => exact absurd h (by simp)
  | case3 c rest hquote hne ih =>
      have hplain : c = '\\' → rest = [] := by
        intro hc
        cases rest with
        | nil => rfl
        | cons d more => exact (hquote d more hc rfl).elim
      rw [Glyph.read_plain hplain]
      simpa [Ne.symm hne] using ih (Option.map_eq_none_iff.mp h)
  | case4 => exact List.not_mem_nil

/-- The glyphs of the stretches are the stretches of the glyphs. -/
theorem map_read_cutAll {target : Char} (htarget : target ≠ '\\') (text : List Char) :
    (cutAll target text).map Glyph.read = splitAll (· == .plain target) (Glyph.read text) := by
  fun_induction cutAll target text with
  | case1 text h =>
      have hmem := not_mem_read_of_cutAt? h
      rw [splitAll_eq_singleton]
      · rfl
      · intro g hg
        rw [beq_eq_false_iff_ne]
        rintro rfl
        exact hmem hg
  | case2 text before after h _ ih =>
      obtain ⟨hmem, hother⟩ := read_of_cutAt? htarget h
      rw [eq_of_cutAt? h, (hother after).2, splitAll_append_cons _ (by simp), List.map_cons, ih]
      intro g hg
      rw [beq_eq_false_iff_ne]
      rintro rfl
      exact hmem hg

/-! ## One choice -/

namespace Choice

/-- Up to the next opening brace everything is lead. -/
theorem readOnto_lead {lead : List Glyph} (h : Glyph.plain '\x7b' ∉ lead) (found : List Choice)
    (before rest : List Glyph) :
    readOnto found before none (lead ++ rest) = readOnto found (lead.reverse ++ before) none rest := by
  induction lead generalizing before with
  | nil => rfl
  | cons g lead ih =>
      rw [List.mem_cons, not_or] at h
      rw [List.cons_append, readOnto, if_neg (Ne.symm h.1), ih h.2, List.reverse_cons, List.append_assoc]
      rfl

/-- Up to the next closing brace everything is body. -/
theorem readOnto_body {body : List Glyph} (h : Glyph.plain '\x7d' ∉ body) (found : List Choice)
    (lead before rest : List Glyph) :
    readOnto found lead (some before) (body ++ rest) = readOnto found lead (some (body.reverse ++ before)) rest := by
  induction body generalizing before with
  | nil => rfl
  | cons g body ih =>
      rw [List.mem_cons, not_or] at h
      rw [List.cons_append, readOnto, if_neg (Ne.symm h.1), ih h.2, List.reverse_cons, List.append_assoc]
      rfl

/-- Choices found before stay in front. -/
theorem readOnto_append (found before : List Choice) (lead : List Glyph) (body : Option (List Glyph))
    (gs : List Glyph) :
    readOnto (found ++ before) lead body gs =
      (before.reverse ++ (readOnto found lead body gs).1, (readOnto found lead body gs).2) := by
  fun_induction readOnto found lead body gs with
  | case1 found lead gs ih => rw [readOnto, if_pos rfl, ih]
  | case2 found lead g gs hopen ih => rw [readOnto, if_neg hopen, ih]
  | case3 found lead body gs ih =>
      rw [readOnto, if_pos rfl]
      exact ih
  | case4 found lead body g gs hclose ih => rw [readOnto, if_neg hclose, ih]
  | case5 found lead => simp [readOnto]
  | case6 found lead body => simp [readOnto]

/-- **Reading past one choice:** the choice, and then what is read in the rest. -/
theorem read_append {lead body : List Glyph} (hlead : Glyph.plain '\x7b' ∉ lead)
    (hbody : Glyph.plain '\x7d' ∉ body) (rest : List Glyph) :
    read (lead ++ .plain '\x7b' :: (body ++ .plain '\x7d' :: rest)) =
      (⟨lead, splitAll (· == .plain ',') body⟩ :: (read rest).1, (read rest).2) := by
  rw [read, readOnto_lead hlead, readOnto, if_pos rfl, readOnto_body hbody, readOnto, if_pos rfl]
  simp only [ofBody, List.append_nil, List.reverse_reverse]
  exact readOnto_append [] [_] [] none rest

/-- Without an opening brace, or with none that is closed, there is no choice. -/
theorem read_of_open {lead rest : List Glyph} (hlead : Glyph.plain '\x7b' ∉ lead)
    (hrest : Glyph.plain '\x7d' ∉ rest) :
    read (lead ++ .plain '\x7b' :: rest) = ([], lead ++ .plain '\x7b' :: rest) := by
  have hbody := readOnto_body hrest [] (lead.reverse ++ []) [] []
  rw [List.append_nil rest] at hbody
  rw [read, readOnto_lead hlead, readOnto, if_pos rfl, hbody, readOnto]
  simp

theorem read_of_not_mem {gs : List Glyph} (h : Glyph.plain '\x7b' ∉ gs) : read gs = ([], gs) := by
  have hlead := readOnto_lead h [] [] []
  rw [List.append_nil] at hlead
  rw [read, hlead, readOnto]
  simp

/-- **The first choice of a text** is the one its glyphs are read with first, and the others are those of the text
    after it. Nothing depends on what that text is. -/
theorem read_of_firstChoice? {text lead body after : List Char}
    (h : firstChoice? text = some (lead, body, after)) (other : List Char) :
    firstChoice? (lead ++ '\x7b' :: (body ++ '\x7d' :: other)) = some (lead, body, other) ∧
      read (Glyph.read (lead ++ '\x7b' :: (body ++ '\x7d' :: other))) =
        (⟨Glyph.read lead, (cutAll ',' body).map Glyph.read⟩ :: (read (Glyph.read other)).1,
          (read (Glyph.read other)).2) := by
  obtain ⟨rest, hopen, hclose⟩ := cutAt?_of_firstChoice? h
  obtain ⟨hlead, hopened⟩ := read_of_cutAt? (by decide) hopen
  obtain ⟨hbody, hclosed⟩ := read_of_cutAt? (by decide) hclose
  constructor
  · simp [firstChoice?, (hopened _).1, (hclosed _).1]
  · rw [(hopened _).2, (hclosed _).2, read_append hlead hbody, map_read_cutAll (by decide)]

/-- Reading a text with a first choice: that choice, and then what is read in the rest. -/
theorem read_of_choice {text lead body after : List Char} (h : firstChoice? text = some (lead, body, after)) :
    read (Glyph.read text) =
      (⟨Glyph.read lead, (cutAll ',' body).map Glyph.read⟩ :: (read (Glyph.read after)).1,
        (read (Glyph.read after)).2) := by
  rw [← (read_of_firstChoice? h after).2, ← eq_of_firstChoice? h]

/-- A text without a first choice has no choices, and is all tail. -/
theorem read_of_no_choice {text : List Char} (h : firstChoice? text = none) :
    read (Glyph.read text) = ([], Glyph.read text) := by
  unfold firstChoice? at h
  split at h
  · rename_i hopen
    exact read_of_not_mem (not_mem_read_of_cutAt? hopen)
  · rename_i lead rest hopen
    split at h
    · rename_i hclose
      obtain ⟨hlead, hopened⟩ := read_of_cutAt? (by decide) hopen
      rw [eq_of_cutAt? hopen, (hopened rest).2]
      exact read_of_open hlead (not_mem_read_of_cutAt? hclose)
    · exact absurd h (by simp)

end Choice

/-! ## The pair of braces in front -/

/-- A text that opens with an empty pair of braces, with these two quoted. -/
def quoteLeadingPair : List Char → List Char
  | '\x7b' :: '\x7d' :: rest => '\\' :: '\x7b' :: '\\' :: '\x7d' :: rest
  | text => text

theorem read_quoteLeadingPair (text : List Char) :
    Glyph.read (quoteLeadingPair text) = quoteEmptyPair (Glyph.read text) := by
  unfold quoteLeadingPair
  split
  · rename_i rest
    rw [Glyph.read_quoted, Glyph.read_quoted, Glyph.read_plain (by simp), Glyph.read_plain (by simp)]
    rfl
  · rename_i hother
    unfold quoteEmptyPair
    split
    · rename_i gs hread
      have hwrite := Glyph.write_read text
      rw [hread] at hwrite
      exact (hother (Glyph.write gs) hwrite.symm).elim
    · rfl

end AccessPolicy
