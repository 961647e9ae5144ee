import AccessPolicy.Proofs.Glob.Fit
import Mathlib.Data.List.Forall2

/-!
# What the expression of an alternative means

The expression of an alternative is flat, and runs over the whole candidate: nothing in it says where a segment ends,
except that no run crosses a `/`. The expression and the segments mean the same (`reads_expression_iff`): wherever the
expression reads a candidate, the pieces that slashes of the pattern take are exactly the slashes of the candidate, so
the reading falls apart into one reading per segment. The same holds for an alternative without stars, where the
expression is the text itself.

An alternative with stars needs its expression to be built, and one without them needs nothing (`Built`). Both ways of
compiling an alternative are therefore covered by one statement, whichever expressions can be built:
`Glob.compileWith_accepts_iff`. Which can, is a matter of wildcards and of characters (`built_iff`); a single star after a
long text is too much (`Glob.compile_starAfterLongText`).

Contents:
* `reads_map_part_iff`, `reads_segmentParts_iff` — one segment;
* `reads_expression_iff`, `reads_of_fits` — all segments;
* `expression_of_not_mem`, `reads_map_part_of_not_mem` — alternatives without stars;
* `Built`, `wildcards`, `literalBytes`, **`bytes_expression`**, `built_iff` — what has to be built, and when it can be;
* `SingleSegment`, `built_append_star_iff` — texts without quotes and slashes; such a text before a star;
* `Glob.acceptsEach_iff`, `Glob.exists_compileWith`, `Glob.accepts_iff`, **`Glob.compileWith_accepts_iff`**.
-/

namespace AccessPolicy

/-! ## Expressions -/

/-- What a part may stand for. -/
def Expression.Part.Allows : Expression.Part → List Char → Prop
  | .char c, piece => piece = [c]
  | .run, piece => '/' ∉ piece
  | .someRun, piece => piece ≠ [] ∧ '/' ∉ piece

/-! ## One segment -/

/-- Tokens that ask for no slash, as every token of a segment does. -/
def Slashless (segment : List Token) : Prop :=
  ∀ t ∈ segment, t.char? ≠ some '/'

theorem allows_part_iff {t : Token} (ht : t.char? ≠ some '/') (piece : List Char) :
    t.part.Allows piece ↔ '/' ∉ piece ∧ t.Consumes piece := by
  cases t with
  | char c =>
      have hc : '/' ≠ c := fun h => ht (by rw [h]; rfl)
      simp only [Token.part, Expression.Part.Allows, Token.Consumes]
      constructor
      · rintro rfl
        exact ⟨by simpa using hc, rfl⟩
      · exact And.right
  | star => simp [Token.part, Expression.Part.Allows, Token.Consumes]
  | separator => exact absurd rfl ht

/-- Token by token, the expression asks for what the tokens do, and for no slash. -/
theorem reads_map_part_iff {segment : List Token} (hs : Slashless segment) (cs : List Char) :
    Reads Expression.Part.Allows (segment.map Token.part) cs ↔ '/' ∉ cs ∧ Reads Token.Consumes segment cs := by
  induction segment generalizing cs with
  | nil =>
      simp only [List.map_nil, Reads.nil_iff]
      constructor
      · rintro rfl
        exact ⟨List.not_mem_nil, rfl⟩
      · exact And.right
  | cons t segment ih =>
      have hhead := allows_part_iff (hs t List.mem_cons_self)
      have htail := ih fun u hu => hs u (List.mem_cons_of_mem t hu)
      simp only [List.map_cons, Reads.cons_iff, hhead, htail]
      constructor
      · rintro ⟨piece, rest, rfl, ⟨hpiece, hconsumes⟩, hrest, hreads⟩
        exact ⟨by simp [hpiece, hrest], piece, rest, rfl, hconsumes, hreads⟩
      · rintro ⟨hslash, piece, rest, rfl, hconsumes, hreads⟩
        rw [List.mem_append, not_or] at hslash
        exact ⟨piece, rest, rfl, ⟨hslash.1, hconsumes⟩, hslash.2, hreads⟩

/-- **One segment:** its parts read the texts that it fits and that have no slash. -/
theorem reads_segmentParts_iff {segment : List Token} (hs : Slashless segment) (cs : List Char) :
    Reads Expression.Part.Allows (segmentParts segment) cs ↔ '/' ∉ cs ∧ Fits segment cs := by
  unfold segmentParts Fits
  by_cases hstars : AllStars segment
  · rw [if_pos (onlyStars_iff.mpr hstars), if_pos hstars, Reads.singleton_iff]
    exact And.comm
  · rw [if_neg (mt onlyStars_iff.mp hstars), if_neg hstars]
    exact reads_map_part_iff hs cs

/-! ## All segments -/

/-- The segments of a text. -/
def textSegments (cs : List Char) : List (List Char) :=
  splitAll (· == '/') cs

theorem textSegments_of_not_mem {cs : List Char} (h : '/' ∉ cs) : textSegments cs = [cs] := by
  apply splitAll_eq_singleton
  intro c hc
  rw [beq_eq_false_iff_ne]
  rintro rfl
  exact h hc

theorem textSegments_append {left : List Char} (h : '/' ∉ left) (right : List Char) :
    textSegments (left ++ '/' :: right) = left :: textSegments right := by
  refine splitAll_append_cons ?_ (by simp) right
  intro c hc
  rw [beq_eq_false_iff_ne]
  rintro rfl
  exact h hc

/-- Where nothing is quoted, the segments of the tokens are those of the text. -/
theorem tokenSegments_of_not_mem {cs : List Char} (h : '\\' ∉ cs) :
    tokenSegments (tokens cs) = (textSegments cs).map (List.map fun c => Token.ofGlyph (.plain c)) := by
  rw [tokenSegments, tokens_of_not_mem h, splitAll_map]
  simp only [Token.ofGlyph_plain_beq_separator]
  rfl

/-- A text has one segment, or a first one and the segments after its first slash. -/
theorem textSegments_cases (cs : List Char) :
    ('/' ∉ cs ∧ textSegments cs = [cs]) ∨
      ∃ left right, cs = left ++ '/' :: right ∧ '/' ∉ left ∧ textSegments cs = left :: textSegments right := by
  by_cases h : '/' ∈ cs
  · obtain ⟨left, right, rfl, hleft⟩ := List.eq_append_cons_of_mem h
    exact Or.inr ⟨left, right, rfl, hleft, textSegments_append hleft right⟩
  · exact Or.inl ⟨h, textSegments_of_not_mem h⟩

/-- **Slashes line up.** Segments joined by slashes read a text exactly if they fit its segments one for one. The
    induction is on the segments; runs cross no slash, so the first segment ends at the first slash of the text. -/
theorem reads_intercalate_iff {parts : List (List Token)} (hne : parts ≠ [])
    (hs : ∀ segment ∈ parts, Slashless segment) (cs : List Char) :
    Reads Expression.Part.Allows ([Token.separator.part].intercalate (parts.map segmentParts)) cs ↔
      List.Forall₂ Fits parts (textSegments cs) := by
  induction parts generalizing cs with
  | nil => exact absurd rfl hne
  | cons segment parts ih =>
      have hfirst := reads_segmentParts_iff (hs segment List.mem_cons_self)
      cases parts with
      | nil =>
          simp only [List.map_cons, List.map_nil, List.intercalate_singleton, hfirst]
          rcases textSegments_cases cs with ⟨hslash, heq⟩ | ⟨left, right, rfl, -, heq⟩
          · simp [heq, hslash]
          · rw [heq]
            constructor
            · rintro ⟨hslash, -⟩
              exact absurd (by simp) hslash
            · intro h
              cases h with
              | cons _ hrest => exact absurd (List.forall₂_nil_left_iff.mp hrest) (splitAll_ne_nil _ right)
      | cons second parts =>
          have hrest := ih (List.cons_ne_nil second parts) fun s h => hs s (List.mem_cons_of_mem segment h)
          simp only [List.map_cons, List.intercalate_cons_cons, List.append_assoc] at hrest ⊢
          rw [Reads.append_iff]
          constructor
          · rintro ⟨left, after, rfl, hleft, hafter⟩
            obtain ⟨slash, right, rfl, hslash, hright⟩ := Reads.cons_iff.mp hafter
            obtain rfl : slash = ['/'] := hslash
            obtain ⟨hnone, hfits⟩ := (hfirst left).mp hleft
            rw [List.singleton_append, textSegments_append hnone]
            exact .cons hfits ((hrest right).mp hright)
          · intro h
            rcases textSegments_cases cs with ⟨-, heq⟩ | ⟨left, right, rfl, hnone, heq⟩
            · rw [heq] at h
              cases h with
              | cons _ hnil => exact absurd hnil (by simp)
            · rw [heq] at h
              cases h with
              | cons hfits hfitsRest =>
                  refine ⟨left, '/' :: right, rfl, (hfirst left).mpr ⟨hnone, hfits⟩, ?_⟩
                  exact Reads.cons_iff.mpr ⟨['/'], right, rfl, rfl, (hrest right).mpr hfitsRest⟩

/-- No token of an alternative asks for a slash, save the separator. -/
theorem ofGlyph_ne_char_slash (g : Glyph) : Token.ofGlyph g ≠ .char '/' := by
  unfold Token.ofGlyph
  split <;> simp_all

theorem slashless_of_mem_tokenSegments {alternative : List Char} {segment : List Token}
    (h : segment ∈ tokenSegments (tokens alternative)) : Slashless segment := by
  intro t ht
  obtain ⟨hmem, hsep⟩ := mem_of_mem_splitAll h ht
  obtain ⟨g, -, rfl⟩ := List.mem_map.mp hmem
  have hchar := ofGlyph_ne_char_slash g
  cases hg : Token.ofGlyph g with
  | char c => simp_all [Token.char?]
  | star => simp [Token.char?]
  | separator => simp [hg] at hsep

/-- **The expression of an alternative reads what its segments fit,** one for one. -/
theorem reads_expression_iff (alternative cs : List Char) :
    Reads Expression.Part.Allows (expression (tokens alternative)) cs ↔
      List.Forall₂ Fits (tokenSegments (tokens alternative)) (textSegments cs) :=
  reads_intercalate_iff (splitAll_ne_nil _ _) (fun _ h => slashless_of_mem_tokenSegments h) cs

/-- What fits segment by segment is read token by token, a separator taking the slash in its place. -/
theorem reads_intercalate_of_fits {parts : List (List Token)} {texts : List (List Char)}
    (h : List.Forall₂ Fits parts texts) :
    Reads Token.Consumes ([Token.separator].intercalate parts) (['/'].intercalate texts) := by
  induction h with
  | nil => exact .nil
  | @cons part text parts texts hfits hrest ih =>
      cases hrest with
      | nil =>
          rw [List.intercalate_singleton, List.intercalate_singleton]
          exact hfits.reads
      | cons _ _ =>
          rw [List.intercalate_cons_cons, List.intercalate_cons_cons, List.append_assoc, List.append_assoc]
          exact Reads.append_iff.mpr ⟨text, _, rfl, hfits.reads, .cons rfl ih⟩

theorem reads_of_fits {ts : List Token} {cs : List Char}
    (h : List.Forall₂ Fits (tokenSegments ts) (textSegments cs)) : Reads Token.Consumes ts cs := by
  have hreads := reads_intercalate_of_fits h
  rwa [tokenSegments, textSegments, intercalate_splitAll, intercalate_splitAll] at hreads

/-! ## Alternatives without stars -/

theorem map_intercalate {α β : Type} (f : α → β) (sep : List α) (parts : List (List α)) :
    (sep.intercalate parts).map f = (sep.map f).intercalate (parts.map (List.map f)) := by
  induction parts with
  | nil => rfl
  | cons part parts ih =>
      cases parts with
      | nil => simp
      | cons second parts =>
          simp only [List.map_cons, List.intercalate_cons_cons, List.map_append] at ih ⊢
          rw [ih]

/-- Segments without stars are spelled out token by token, so their expression is that of the tokens. -/
theorem expression_of_not_mem {ts : List Token} (hstar : Token.star ∉ ts) : expression ts = ts.map Token.part := by
  have hparts : ∀ segment ∈ tokenSegments ts, segmentParts segment = segment.map Token.part := by
    intro segment hmem
    refine if_neg fun honly => ?_
    obtain ⟨hne, hall⟩ := onlyStars_iff.mp honly
    obtain ⟨t, rest, rfl⟩ := List.exists_cons_of_ne_nil hne
    obtain rfl := hall t List.mem_cons_self
    exact hstar (mem_of_mem_splitAll hmem List.mem_cons_self).1
  calc expression ts
      = [Token.separator.part].intercalate ((tokenSegments ts).map (List.map Token.part)) := by
        rw [expression, List.map_congr_left hparts]
    _ = ([Token.separator].intercalate (tokenSegments ts)).map Token.part := by
        rw [map_intercalate]
        rfl
    _ = ts.map Token.part := by rw [tokenSegments, intercalate_splitAll]

/-- Without stars the parts are characters, and read the text that these spell. -/
theorem reads_map_part_of_not_mem {ts : List Token} (hstar : Token.star ∉ ts) (cs : List Char) :
    Reads Expression.Part.Allows (ts.map Token.part) cs ↔ cs = ts.filterMap Token.char? := by
  induction ts generalizing cs with
  | nil => simp
  | cons t ts ih =>
      rw [List.mem_cons, not_or] at hstar
      obtain ⟨hhead, htail⟩ := hstar
      have hchar : ∃ c, t.char? = some c ∧ t.part = .char c := by
        cases t with
        | char c => exact ⟨c, rfl, rfl⟩
        | star => exact absurd rfl hhead
        | separator => exact ⟨'/', rfl, rfl⟩
      obtain ⟨c, hc, hpart⟩ := hchar
      rw [List.map_cons, Reads.cons_iff, List.filterMap_cons_some hc, hpart]
      constructor
      · rintro ⟨piece, rest, rfl, rfl, hrest⟩
        rw [(ih htail rest).mp hrest]
        rfl
      · rintro rfl
        exact ⟨[c], ts.filterMap Token.char?, rfl, rfl, (ih htail _).mpr rfl⟩

/-! ## What has to be built -/

/-- If there is a star, the expression can be built. -/
def Built (builds : List Expression.Part → Bool) (ts : List Token) : Prop :=
  Token.star ∈ ts → builds (expression ts) = true

instance (builds : List Expression.Part → Bool) (ts : List Token) : Decidable (Built builds ts) :=
  inferInstanceAs (Decidable (Token.star ∈ ts → builds (expression ts) = true))

/-- How many wildcards a segment counts for. -/
def segmentWildcards (segment : List Token) : Nat :=
  if AllStars segment then 1 else segment.count .star

/-- How many wildcards an alternative counts for; a segment of stars only counts for one. -/
def wildcards (ts : List Token) : Nat :=
  sumOf segmentWildcards (tokenSegments ts)

/-- How many bytes the characters take that are asked for. -/
def literalBytes (ts : List Token) : Nat :=
  sumOf Char.utf8Size (ts.filterMap Token.char?)

theorem literalBytes_append (ts us : List Token) : literalBytes (ts ++ us) = literalBytes ts + literalBytes us := by
  rw [literalBytes, List.filterMap_append, sumOf_append]
  rfl

theorem bytes_part (t : Token) : t.part.bytes = 1040 * [t].count .star + 32 * literalBytes [t] := by
  cases t with
  | char c => simp [Token.part, Expression.Part.bytes, Expression.stateBytes, literalBytes, Token.char?]
  | star => rfl
  | separator => rfl

theorem sumOf_bytes_map_part (ts : List Token) :
    sumOf Expression.Part.bytes (ts.map Token.part) = 1040 * ts.count .star + 32 * literalBytes ts := by
  induction ts with
  | nil => rfl
  | cons t ts ih =>
      have hcount : (t :: ts).count .star = [t].count .star + ts.count .star := by
        rw [← List.count_append, List.singleton_append]
      have hbytes : literalBytes (t :: ts) = literalBytes [t] + literalBytes ts := literalBytes_append [t] ts
      rw [List.map_cons, sumOf_cons, ih, bytes_part, hcount, hbytes]
      omega

theorem sumOf_bytes_segmentParts (segment : List Token) :
    sumOf Expression.Part.bytes (segmentParts segment) =
      1040 * segmentWildcards segment + 32 * literalBytes segment := by
  unfold segmentParts segmentWildcards
  by_cases hstars : AllStars segment
  · have hnone : segment.filterMap Token.char? = [] := by
      rw [List.filterMap_eq_nil_iff]
      intro t ht
      rw [hstars.2 t ht]
      rfl
    rw [if_pos (onlyStars_iff.mpr hstars), if_pos hstars, literalBytes, hnone]
    rfl
  · rw [if_neg (mt onlyStars_iff.mp hstars), if_neg hstars, sumOf_bytes_map_part]

theorem sumOf_bytes_intercalate (parts : List (List Token)) :
    sumOf Expression.Part.bytes ([Token.separator.part].intercalate (parts.map segmentParts)) =
      1040 * sumOf segmentWildcards parts + 32 * literalBytes ([.separator].intercalate parts) := by
  induction parts with
  | nil => rfl
  | cons segment parts ih =>
      cases parts with
      | nil =>
          simp only [List.map_cons, List.map_nil, List.intercalate_singleton, sumOf_bytes_segmentParts, sumOf_cons,
            sumOf_nil, Nat.add_zero]
      | cons second parts =>
          have hslash : sumOf Expression.Part.bytes [Token.separator.part] = 32 * literalBytes [.separator] := rfl
          simp only [List.map_cons] at ih
          simp only [List.map_cons, List.intercalate_cons_cons, sumOf_append, literalBytes_append, hslash, ih,
            sumOf_bytes_segmentParts, sumOf_cons segmentWildcards segment]
          omega

/-- **What an expression takes:** 1040 bytes for each wildcard, 32 for each byte of the characters asked for, and 128. -/
theorem bytes_expression (ts : List Token) :
    Expression.bytes (expression ts) = 128 + 1040 * wildcards ts + 32 * literalBytes ts := by
  have hparts := sumOf_bytes_intercalate (tokenSegments ts)
  have htokens : [Token.separator].intercalate (tokenSegments ts) = ts := intercalate_splitAll .separator ts
  rw [htokens] at hparts
  rw [Expression.bytes, expression, hparts, Nat.add_assoc]
  rfl

/-- An alternative with a star can be built as long as there is room for its wildcards and its characters. -/
theorem built_iff (ts : List Token) :
    Built Expression.builds ts ↔ (Token.star ∈ ts → 128 + 1040 * wildcards ts + 32 * literalBytes ts ≤ 2097152) := by
  rw [Built, Expression.builds, bytes_expression, decide_eq_true_iff]
  exact Iff.rfl

/-! ## Alternatives of one segment -/

/-- A text in which nothing is quoted and that is a single segment, with some character besides stars. -/
structure SingleSegment (cs : List Char) : Prop where
  backslash_not_mem : '\\' ∉ cs
  slash_not_mem : '/' ∉ cs
  exists_mem_ne : ∃ c ∈ cs, c ≠ '*'

namespace SingleSegment

variable {cs : List Char}

theorem tokens_eq (h : SingleSegment cs) : tokens cs = cs.map fun c => Token.ofGlyph (.plain c) :=
  tokens_of_not_mem h.backslash_not_mem

theorem tokenSegments_eq (h : SingleSegment cs) : tokenSegments (tokens cs) = [tokens cs] := by
  rw [tokenSegments_of_not_mem h.backslash_not_mem, textSegments_of_not_mem h.slash_not_mem, h.tokens_eq]
  rfl

theorem ne_nil (h : SingleSegment cs) : cs ≠ [] := by
  obtain ⟨c, hc, -⟩ := h.exists_mem_ne
  exact List.ne_nil_of_mem hc

theorem not_allStars (h : SingleSegment cs) : ¬ AllStars (tokens cs) := by
  rintro ⟨-, hall⟩
  obtain ⟨c, hc, hne⟩ := h.exists_mem_ne
  rw [h.tokens_eq] at hall
  exact hne ((Token.ofGlyph_plain_eq_star_iff c).mp (hall _ (List.mem_map_of_mem hc)))

theorem wildcards_eq (h : SingleSegment cs) : wildcards (tokens cs) = cs.count '*' := by
  have hstar : ((· == Token.star) ∘ fun c => Token.ofGlyph (.plain c)) = (· == '*') := by
    funext c
    rw [Bool.eq_iff_iff, Function.comp_apply, beq_iff_eq, beq_iff_eq, Token.ofGlyph_plain_eq_star_iff]
  rw [wildcards, h.tokenSegments_eq, sumOf_cons, sumOf_nil, Nat.add_zero, segmentWildcards, if_neg h.not_allStars,
    h.tokens_eq, List.count_eq_countP, List.countP_map, hstar]
  rfl

/-- If it has a star, it can be built as long as there is room for its stars and its other characters. -/
theorem built_iff (h : SingleSegment cs) :
    Built Expression.builds (tokens cs) ↔
      ('*' ∈ cs → 128 + 1040 * cs.count '*' + 32 * sumOf Char.utf8Size (cs.filter (· ≠ '*')) ≤ 2097152) := by
  have hstar : Token.star ∈ tokens cs ↔ '*' ∈ cs := by
    rw [h.tokens_eq, List.mem_map]
    simp only [Token.ofGlyph_plain_eq_star_iff, exists_eq_right]
  have hchars : (tokens cs).filterMap Token.char? = cs.filter (· ≠ '*') := by
    rw [h.tokens_eq, List.filterMap_map, ← List.filterMap_eq_filter]
    refine List.filterMap_congr fun c hc => ?_
    by_cases hstarred : c = '*'
    · subst hstarred
      rfl
    · rw [Function.comp_apply, Token.ofGlyph_plain hstarred fun hslash => h.slash_not_mem (hslash ▸ hc)]
      simp [Option.guard, hstarred, Token.char?]
  rw [AccessPolicy.built_iff, hstar, h.wildcards_eq, literalBytes, hchars]

/-- It fits what it reads. -/
theorem fits_iff (h : SingleSegment cs) {text : List Char} (hslash : '/' ∉ text) :
    List.Forall₂ Fits (tokenSegments (tokens cs)) (textSegments text) ↔ Reads Token.Consumes (tokens cs) text := by
  rw [h.tokenSegments_eq, textSegments_of_not_mem hslash, List.forall₂_cons, Fits, if_neg h.not_allStars]
  exact and_iff_left .nil

end SingleSegment

/-- Where nothing is quoted a text reads itself, a star taking the star in its place. -/
theorem reads_self (cs : List Char) : Reads Token.Consumes (cs.map fun c => Token.ofGlyph (.plain c)) cs := by
  induction cs with
  | nil => exact .nil
  | cons c cs ih =>
      have hhead : (Token.ofGlyph (.plain c)).Consumes [c] := by
        unfold Token.ofGlyph
        split <;> simp_all [Token.Consumes]
      exact .cons hhead ih

/-! ## A text before a star -/

section Prefix

variable {cs : List Char}

theorem singleSegment_append_star (hne : cs ≠ []) (h : ∀ c ∈ cs, c ≠ '\\' ∧ c ≠ '/' ∧ c ≠ '*') :
    SingleSegment (cs ++ ['*']) := by
  have hmem : ∀ c ∈ cs ++ ['*'], c ≠ '\\' ∧ c ≠ '/' := by
    intro c hc
    rcases List.mem_append.mp hc with hc | hc
    · exact ⟨(h c hc).1, (h c hc).2.1⟩
    · rw [List.mem_singleton.mp hc]
      decide
  obtain ⟨c, rest, rfl⟩ := List.exists_cons_of_ne_nil hne
  exact
    { backslash_not_mem := fun hc => (hmem _ hc).1 rfl
      slash_not_mem := fun hc => (hmem _ hc).2 rfl
      exists_mem_ne := ⟨c, List.mem_append_left _ List.mem_cons_self, (h c List.mem_cons_self).2.2⟩ }

/-- A text before a star may have 65,499 bytes. -/
theorem built_append_star_iff (hne : cs ≠ []) (h : ∀ c ∈ cs, c ≠ '\\' ∧ c ≠ '/' ∧ c ≠ '*') :
    Built Expression.builds (tokens (cs ++ ['*'])) ↔ sumOf Char.utf8Size cs ≤ 65499 := by
  have hcount : (cs ++ ['*']).count '*' = 1 := by
    rw [List.count_append, List.count_eq_zero.mpr fun hstar => (h _ hstar).2.2 rfl]
    rfl
  have hkept : (cs ++ ['*']).filter (· ≠ '*') = cs := by
    rw [List.filter_append, List.filter_eq_self.mpr fun c hc => decide_eq_true (h c hc).2.2]
    exact List.append_nil cs
  rw [(singleSegment_append_star hne h).built_iff, hcount, hkept,
    imp_iff_right (List.mem_append_right _ (List.mem_singleton_self _))]
  omega

/-- Before a star the text itself fits, as the star may stand for nothing. -/
theorem fits_append_star (hne : cs ≠ []) (h : ∀ c ∈ cs, c ≠ '\\' ∧ c ≠ '/' ∧ c ≠ '*') :
    List.Forall₂ Fits (tokenSegments (tokens (cs ++ ['*']))) (textSegments cs) := by
  have hsingle := singleSegment_append_star hne h
  rw [hsingle.fits_iff fun hslash => (h _ hslash).2.1 rfl, hsingle.tokens_eq, List.map_append]
  exact Reads.append_iff.mpr ⟨cs, [], (List.append_nil cs).symm, reads_self cs,
    reads_nil_iff.mpr (List.forall_mem_singleton.mpr rfl)⟩

end Prefix

/-! ## Compiled alternatives -/

namespace Glob

theorem acceptsEach_iff {parts : List Segment} {texts : List (List Char)} :
    acceptsEach parts texts = true ↔ List.Forall₂ (fun p text => p.accepts text = true) parts texts := by
  induction parts generalizing texts with
  | nil => cases texts <;> simp [acceptsEach]
  | cons p parts ih =>
      cases texts with
      | nil => simp [acceptsEach]
      | cons text texts => simp [acceptsEach, ih]

theorem tokens_ne_nil {alternative : List Char} (hne : alternative ≠ []) : tokens alternative ≠ [] := by
  intro h
  have hread : Glyph.read alternative = [] := List.map_eq_nil_iff.mp h
  have hwrite := Glyph.write_read alternative
  rw [hread] at hwrite
  exact hne hwrite.symm

/-- Compiled segment by segment, an alternative accepts what its segments fit. -/
theorem accepts_segments_iff (ts : List Token) (candidate : List Char) :
    (Glob.segments ((tokenSegments ts).map Segment.ofTokens)).accepts candidate = true ↔
      List.Forall₂ Fits (tokenSegments ts) (textSegments candidate) := by
  rw [accepts, acceptsEach_iff, List.forall₂_map_left_iff]
  simp only [Segment.accepts_ofTokens]
  rfl

variable {builds : List Expression.Part → Bool} {alternative : List Char}

theorem length_le_of_compileWith {found : Option Glob} (h : compileWith builds alternative = .ok found) :
    alternative.length ≤ Pattern.maxLength := by
  unfold compileWith at h
  split at h
  · exact absurd h (by simp)
  · rename_i hlength
    exact Nat.not_lt.mp hlength

/-- **Without a star** an alternative that is neither empty nor too long compiles to the text it asks for. -/
theorem compileWith_of_star_not_mem (hne : alternative ≠ []) (hlength : alternative.length ≤ Pattern.maxLength)
    (hstar : Token.star ∉ tokens alternative) :
    compileWith builds alternative = .ok (some (.exact ((tokens alternative).filterMap Token.char?))) := by
  have hlong : ¬ alternative.length > Pattern.maxLength := Nat.not_lt.mpr hlength
  have hempty : ¬ (tokens alternative).isEmpty = true := by
    rw [List.isEmpty_iff]
    exact tokens_ne_nil hne
  have hplain : (!(tokens alternative).contains .star) = true := by simpa using hstar
  rw [compileWith, if_neg hlong]
  simp only [if_neg hempty, if_pos hplain]

/-- **With a star** it compiles to its segments, if its expression can be built. -/
theorem compileWith_of_star_mem (hlength : alternative.length ≤ Pattern.maxLength)
    (hstar : Token.star ∈ tokens alternative) :
    compileWith builds alternative =
      .ok (some (if builds (expression (tokens alternative)) = true then
        .segments ((tokenSegments (tokens alternative)).map Segment.ofTokens) else .unmatchable)) := by
  have hlong : ¬ alternative.length > Pattern.maxLength := Nat.not_lt.mpr hlength
  have hempty : ¬ (tokens alternative).isEmpty = true := by
    rw [List.isEmpty_iff]
    exact List.ne_nil_of_mem hstar
  have hstarred : ¬ (!(tokens alternative).contains .star) = true := by simpa using hstar
  rw [compileWith, if_neg hlong]
  simp only [if_neg hempty, if_neg hstarred]
  split
  · rfl
  · rfl

/-- An alternative that is neither empty nor too long compiles to a glob. -/
theorem exists_compileWith (builds : List Expression.Part → Bool) (hne : alternative ≠ [])
    (hlength : alternative.length ≤ Pattern.maxLength) : ∃ glob, compileWith builds alternative = .ok (some glob) := by
  by_cases hstar : Token.star ∈ tokens alternative
  · exact ⟨_, compileWith_of_star_mem hlength hstar⟩
  · exact ⟨_, compileWith_of_star_not_mem hne hlength hstar⟩

/-- **What a glob accepts:** nothing if the expression was needed and could not be built, else what the segments of the
    alternative fit. -/
theorem accepts_iff {glob : Glob} (hcompile : compileWith builds alternative = .ok (some glob))
    (candidate : List Char) :
    glob.accepts candidate = true ↔
      Built builds (tokens alternative) ∧
        List.Forall₂ Fits (tokenSegments (tokens alternative)) (textSegments candidate) := by
  have hlength := length_le_of_compileWith hcompile
  have hne : alternative ≠ [] := by
    rintro rfl
    exact absurd (Except.ok.inj hcompile) (Option.some_ne_none glob).symm
  by_cases hstar : Token.star ∈ tokens alternative
  · rw [compileWith_of_star_mem hlength hstar] at hcompile
    obtain rfl := Option.some.inj (Except.ok.inj hcompile)
    by_cases hbuilds : builds (expression (tokens alternative)) = true
    · rw [if_pos hbuilds, accepts_segments_iff]
      exact (and_iff_right fun _ => hbuilds).symm
    · rw [if_neg hbuilds]
      exact ⟨fun h => absurd h Bool.false_ne_true, fun h => absurd (h.1 hstar) hbuilds⟩
  · rw [compileWith_of_star_not_mem hne hlength hstar] at hcompile
    obtain rfl := Option.some.inj (Except.ok.inj hcompile)
    rw [← reads_expression_iff, expression_of_not_mem hstar, reads_map_part_of_not_mem hstar, accepts, beq_iff_eq,
      eq_comm]
    exact (and_iff_right fun hmem => absurd hmem hstar).symm

/-- Whatever an alternative compiles to, its segments fit those of each candidate that is accepted. -/
theorem fits_of_accepts {glob : Glob} (hcompile : compile alternative = .ok (some glob)) {candidate : List Char}
    (h : glob.accepts candidate = true) :
    List.Forall₂ Fits (tokenSegments (tokens alternative)) (textSegments candidate) :=
  ((accepts_iff hcompile candidate).mp h).2

/-- **What an alternative means.** Every alternative that is not empty and not too long compiles to a glob. If it has a
    star and its expression cannot be built, the glob accepts nothing. In any other case it accepts exactly the candidates
    that have as many segments as the alternative and whose segments fit those of the alternative one for one, whichever
    form the glob takes. These are the candidates that the flat expression of the alternative reads. -/
theorem compileWith_accepts_iff (builds : List Expression.Part → Bool) {alternative : List Char}
    (hne : alternative ≠ []) (hlength : alternative.length ≤ 65536) :
    ∃ glob, compileWith builds alternative = .ok (some glob) ∧ ∀ candidate,
      (glob.accepts candidate = true ↔
        Built builds (tokens alternative) ∧
          List.Forall₂ Fits (tokenSegments (tokens alternative)) (textSegments candidate)) ∧
      (glob.accepts candidate = true ↔
        Built builds (tokens alternative) ∧
          Reads Expression.Part.Allows (expression (tokens alternative)) candidate) := by
  obtain ⟨glob, hglob⟩ := exists_compileWith builds hne hlength
  refine ⟨glob, hglob, fun candidate => ?_⟩
  rw [reads_expression_iff]
  exact ⟨accepts_iff hglob candidate, accepts_iff hglob candidate⟩

/-- A segment with two stars, one of stars only, an empty one from a quoted slash, and a quoted star. There is room for
    its expression. -/
theorem compile_accepts_iff_mixed :
    ∃ glob, compile ['a', '*', 'b', '*', '/', '*', '*', '/', '\\', '/', '\\', '*'] = .ok (some glob) ∧ ∀ candidate,
      (glob.accepts candidate = true ↔
        List.Forall₂ Fits [[.char 'a', .star, .char 'b', .star], [.star, .star], [], [.char '*']]
          (textSegments candidate)) ∧
      (glob.accepts candidate = true ↔
        Reads Expression.Part.Allows
          [.char 'a', .run, .char 'b', .run, .char '/', .someRun, .char '/', .char '/', .char '*'] candidate) := by
  obtain ⟨glob, hglob, haccepts⟩ := compileWith_accepts_iff Expression.builds
    (List.cons_ne_nil 'a' ['*', 'b', '*', '/', '*', '*', '/', '\\', '/', '\\', '*']) (by decide)
  have hbuilt : Built Expression.builds
      (tokens ['a', '*', 'b', '*', '/', '*', '*', '/', '\\', '/', '\\', '*']) := fun _ => by decide
  refine ⟨glob, hglob, fun candidate => ?_⟩
  obtain ⟨hfits, hreads⟩ := haccepts candidate
  exact ⟨hfits.trans (and_iff_right hbuilt), hreads.trans (and_iff_right hbuilt)⟩

/-- 40,000 letters of two bytes each and then a star are no more than 65,536 characters with one wildcard. But the
    letters alone take more room than there is, so the letters are not accepted, although they fit. -/
theorem compile_starAfterLongText :
    (List.replicate 40000 'é' ++ ['*']).length ≤ 65536 ∧
      wildcards (tokens (List.replicate 40000 'é' ++ ['*'])) ≤ 1000 ∧
      List.Forall₂ Fits (tokenSegments (tokens (List.replicate 40000 'é' ++ ['*'])))
        (textSegments (List.replicate 40000 'é')) ∧
      ∃ glob, compile (List.replicate 40000 'é' ++ ['*']) = .ok (some glob) ∧
        ¬ glob.accepts (List.replicate 40000 'é') = true := by
  have hne : List.replicate 40000 'é' ≠ [] := List.ne_nil_of_length_eq_add_one List.length_replicate
  have hletters : ∀ c ∈ List.replicate 40000 'é', c ≠ '\\' ∧ c ≠ '/' ∧ c ≠ '*' := by
    intro c hc
    rw [List.eq_of_mem_replicate hc]
    decide
  have hsingle := singleSegment_append_star hne hletters
  have hlength : (List.replicate 40000 'é' ++ ['*']).length ≤ 65536 := by
    rw [List.length_append, List.length_replicate]
    decide
  obtain ⟨glob, hglob⟩ := exists_compileWith Expression.builds hsingle.ne_nil hlength
  refine ⟨hlength, ?_, fits_append_star hne hletters, glob, hglob, ?_⟩
  · rw [hsingle.wildcards_eq, List.count_append, List.count_replicate]
    decide
  · have hsize : Char.utf8Size 'é' = 2 := by decide
    rw [accepts_iff hglob, built_append_star_iff hne hletters, sumOf_replicate, hsize]
    exact fun haccepts => absurd haccepts.1 (by decide)

end Glob

end AccessPolicy
