import AccessPolicy.Proofs.Choice.Budget
import AccessPolicy.Proofs.Text.Bytes
import Mathlib.Algebra.Order.Ring.Nat
import Mathlib.Algebra.Order.Ring.Unbundled.Basic

/-!
# Spelling out a pattern by byte offsets

A pattern can be spelled out without reading its characters: the braces of each choice are searched for in the bytes, and
the text before them, the parts between them and the text after them are slices. A slice cannot be taken at an offset that
is not a boundary between characters. There is no result at all then, not even a fault: `expand?` is `none`.

It never is. Each offset is found by searching from the end of a stretch of the text, and is the end of a longer stretch. So
the slices of a round are the lead, the parts and the rest of the text that `firstChoice?` and `cutAll` find, and the heads
with their size stay those of `Product`.

Contents:
* `choiceAt?`, `slices?`, `extendAll`, `closeAll`, `expandFrom?`, `expand?` — spelling out by offsets;
* `choiceAt?_of_choice`, `slices?_of_choice` — what is found in a round;
* `extendAll_eq`, `closeAll_eq` — what is done in it;
* `expandFrom?_eq`, `expand?_eq` — all rounds;
* `four_mul_size_le_of_mem_read`, `size_le_maxSize`, `exists_maxSize_lt` — what a round adds up;
* **`offsets_sound`**.
-/

namespace AccessPolicy.Bytes

/-! ## By offsets -/

/-- The offsets of the braces of the first choice. -/
def choiceAt? (s : String) : Option (Nat × Nat) :=
  match seek s.toByteArray (Char.toUInt8 '\x7b') 0 with
  | none => none
  | some opening => (seek s.toByteArray (Char.toUInt8 '\x7d') (opening + 1)).map fun closing => (opening, closing)

/-- The slices around the braces of a choice: its lead, its parts, and the text after it. There are none if one of them
    cannot be taken; the last one too is asked for before any size is checked. -/
def slices? (s : String) (opening closing : Nat) : Option (String × List String × String) :=
  match slice? s 0 opening, slice? s (opening + 1) closing, slice? s (closing + 1) s.utf8ByteSize with
  | some lead, some body, some after =>
    (sliceAll? body (Char.toUInt8 ',') 0).map fun parts => (lead, parts, after)
  | _, _, _ => none

/-- Each head continued by the lead and each part in turn, and the bytes that these have together. Refused, before they are
    built, when they would be over budget. -/
def extendAll (heads : List String) (bytes : Nat) (lead : String) (parts : List String) :
    Except Pattern.Fault (List String × Nat) :=
  let count := Product.saturate (heads.length * parts.length)
  let size := sumOf (fun part => part.utf8ByteSize + lead.utf8ByteSize) parts
  let total := Product.saturate (Product.saturate (bytes * parts.length) + Product.saturate (heads.length * size))
  match Product.checkBudget count total with
  | .error f => .error f
  | .ok () => .ok (heads.flatMap fun head => parts.map fun part => head ++ lead ++ part, total)

/-- The heads closed by the text after the last choice, without empty ones; refused when over budget. -/
def closeAll (heads : List String) (bytes : Nat) (tail : String) : Except Pattern.Fault (List String) :=
  let total := Product.saturate (bytes + Product.saturate (heads.length * tail.utf8ByteSize))
  match Product.checkBudget heads.length total with
  | .error f => .error f
  | .ok () => .ok ((heads.map (· ++ tail)).filter (!·.isEmpty))

theorem utf8ByteSize_lt_of_slices? {s lead after : String} {parts : List String} {opening closing : Nat}
    (h : slices? s opening closing = some (lead, parts, after)) : after.utf8ByteSize < s.utf8ByteSize := by
  unfold slices? at h
  split at h
  · rename_i hafter
    obtain ⟨_, _, heq⟩ := Option.map_eq_some_iff.mp h
    simp only [Prod.mk.injEq] at heq
    obtain ⟨-, -, rfl⟩ := heq
    have hsize := utf8ByteSize_of_slice? hafter
    omega
  · exact absurd h (by simp)

/-- Spelling out a text after heads that have so many bytes together. There is no result if a slice cannot be taken. -/
def expandFrom? (heads : List String) (bytes : Nat) (s : String) : Option (Except Pattern.Fault (List String)) :=
  match choiceAt? s with
  | none => some (closeAll heads bytes s)
  | some (opening, closing) =>
    match h : slices? s opening closing with
    | none => none
    | some (lead, parts, after) =>
      have := utf8ByteSize_lt_of_slices? h
      match extendAll heads bytes lead parts with
      | .error f => some (.error f)
      | .ok (longer, total) => expandFrom? longer total after
termination_by s.utf8ByteSize

/-- The alternatives of a pattern. There is no result if a slice cannot be taken. -/
def expand? (pattern : String) : Option (Except Pattern.Fault (List String)) :=
  let s := String.ofList (quoteLeadingPair pattern.toList)
  match choiceAt? s with
  | none => some (.ok [s])
  | some _ => expandFrom? [""] 0 s

/-! ## What is found in a round -/

theorem choiceAt?_of_no_choice {text : List Char} (h : firstChoice? text = none) :
    choiceAt? (String.ofList text) = none := by
  unfold firstChoice? at h
  split at h
  · rename_i hopen
    have hseek : seek (String.ofList text).toByteArray (Char.toUInt8 '\x7b') 0 = none :=
      seek_of_no_cut (by decide) [] hopen
    rw [choiceAt?, hseek]
  · rename_i lead rest hopen
    split at h
    · rename_i hclose
      have hseek : seek (String.ofList text).toByteArray (Char.toUInt8 '\x7b') 0 = some (offset lead) :=
        seek_of_cutAt? (by decide) [] hopen
      have hrest := seek_of_no_cut (by decide) (lead ++ ['\x7b']) hclose
      rw [← offset_cut (by decide), List.append_assoc, List.singleton_append, ← eq_of_cutAt? hopen] at hrest
      rw [choiceAt?, hseek]
      simp only [hrest, Option.map_none]
    · exact absurd h (by simp)

theorem choiceAt?_of_choice {text lead body after : List Char} (h : firstChoice? text = some (lead, body, after)) :
    choiceAt? (String.ofList text) = some (offset lead, offset (lead ++ ['\x7b'] ++ body)) := by
  obtain ⟨rest, hopen, hclose⟩ := cutAt?_of_firstChoice? h
  have hseek : seek (String.ofList text).toByteArray (Char.toUInt8 '\x7b') 0 = some (offset lead) :=
    seek_of_cutAt? (by decide) [] hopen
  have hrest := seek_of_cutAt? (by decide) (lead ++ ['\x7b']) hclose
  rw [← offset_cut (by decide), List.append_assoc lead, List.singleton_append, ← eq_of_cutAt? hopen] at hrest
  rw [choiceAt?, hseek]
  simp only [hrest, Option.map_some]

/-- **The slices around a choice** can be taken, and are what the choice is made of. -/
theorem slices?_of_choice {text lead body after : List Char} (h : firstChoice? text = some (lead, body, after)) :
    slices? (String.ofList text) (offset lead) (offset (lead ++ ['\x7b'] ++ body)) =
      some (String.ofList lead, (cutAll ',' body).map String.ofList, String.ofList after) := by
  have htext := eq_of_firstChoice? h
  have hopened : lead ++ ['\x7b'] ++ (body ++ '\x7d' :: after) = text := by simp [htext]
  have hclosed : lead ++ ['\x7b'] ++ body ++ ['\x7d'] ++ after = text := by simp [htext]
  have hlead : slice? (String.ofList text) 0 (offset lead) = some (String.ofList lead) := by
    rw [htext]
    exact slice?_append [] lead _
  have hbody := slice?_append (lead ++ ['\x7b']) body ('\x7d' :: after)
  rw [hopened, ← offset_cut (by decide)] at hbody
  have hafter := slice?_end (lead ++ ['\x7b'] ++ body ++ ['\x7d']) after
  rw [hclosed, ← offset_cut (by decide)] at hafter
  have hparts : sliceAll? (String.ofList body) (Char.toUInt8 ',') 0 = some ((cutAll ',' body).map String.ofList) :=
    sliceAll?_eq (by decide) [] body
  simp only [slices?, hlead, hbody, hafter, hparts, Option.map_some]

/-! ## What is done in a round -/

theorem widths_read (text : List Char) : Glyph.widths (Glyph.read text) = (String.ofList text).utf8ByteSize := by
  rw [← Glyph.utf8ByteSize_write, Glyph.write_read]

/-- The heads that a product stands for. -/
def heads (p : Product) : List String :=
  p.texts.map String.ofList

theorem length_heads (p : Product) : (heads p).length = p.openings.length := by
  rw [heads, List.length_map, Product.length_texts]

theorem flatMap_ofList (texts parts : List (List Char)) (lead : List Char) :
    ((texts.map String.ofList).flatMap fun head =>
        (parts.map String.ofList).map fun part => head ++ String.ofList lead ++ part) =
      (joinEach texts (parts.map (lead ++ ·))).map String.ofList := by
  simp [joinEach, List.flatMap_map, List.map_flatMap, Function.comp_def, String.append_assoc]

/-- **One round:** the same sizes are checked as for the product with one more choice, and the heads are extended alike. -/
theorem extendAll_eq (p : Product) (lead body : List Char) :
    extendAll (heads p) p.bytes (String.ofList lead) ((cutAll ',' body).map String.ofList) =
      (p.apply ⟨Glyph.read lead, (cutAll ',' body).map Glyph.read⟩).map fun q => (heads q, q.bytes) := by
  have htexts := Choice.texts_of_parts lead body
  have hnumber : ((cutAll ',' body).map String.ofList).length = ((cutAll ',' body).map Glyph.read).length := by
    rw [List.length_map, List.length_map]
  have hsize : sumOf (fun part => part.utf8ByteSize + (String.ofList lead).utf8ByteSize)
      ((cutAll ',' body).map String.ofList) = Choice.size ⟨Glyph.read lead, (cutAll ',' body).map Glyph.read⟩ := by
    simp only [Choice.size, sumOf_map, widths_read]
  -- From here on only the sizes and the texts of the choice matter, not how it was found.
  generalize hc : Choice.mk (Glyph.read lead) ((cutAll ',' body).map Glyph.read) = c at htexts hsize ⊢
  have hparts : ((cutAll ',' body).map Glyph.read).length = c.parts.length := by rw [← hc]
  have hextend := Product.texts_extend p.openings c (p.bytesWith c)
  rw [htexts] at hextend
  have hcount : Product.saturate ((heads p).length * c.parts.length) = p.countWith c := by
    rw [length_heads, Product.countWith]
  have htotal : Product.saturate (Product.saturate (p.bytes * c.parts.length) +
      Product.saturate ((heads p).length * c.size)) = p.bytesWith c := by
    rw [length_heads, Product.bytesWith]
  simp only [extendAll, Product.apply, hnumber, hparts, hsize, hcount, htotal]
  cases Product.checkBudget (p.countWith c) (p.bytesWith c) with
  | error f => rfl
  | ok _ =>
      simp only [Except.map, heads, hextend, flatMap_ofList]
      rfl

theorem filter_ofList (texts : List (List Char)) :
    (texts.map String.ofList).filter (!·.isEmpty) = (texts.filter (!·.isEmpty)).map String.ofList := by
  rw [List.filter_map]
  congr 1
  apply List.filter_congr
  intro text _
  have hempty : (String.ofList text).isEmpty = text.isEmpty := by
    rw [Bool.eq_iff_iff, String.isEmpty_iff, String.ofList_eq_empty_iff, List.isEmpty_iff]
  rw [Function.comp_apply, hempty]

/-- What a run gives, as texts without the empty ones. -/
def alternatives (run : Except Pattern.Fault (List (List Glyph))) : Except Pattern.Fault (List String) :=
  run.map fun all => ((all.map Glyph.write).filter (!·.isEmpty)).map String.ofList

/-- **The end:** the same sizes are checked as when the product is closed, and the heads are closed alike. -/
theorem closeAll_eq (p : Product) (text : List Char) :
    closeAll (heads p) p.bytes (String.ofList text) = alternatives (p.close (Glyph.read text)) := by
  have htotal : Product.saturate (p.bytes + Product.saturate (p.openings.length * (String.ofList text).utf8ByteSize)) =
      p.bytesClosed (Glyph.read text) := by
    rw [Product.bytesClosed, widths_read]
  have hclosed : (heads p).map (· ++ String.ofList text) = (joinEach p.texts [text]).map String.ofList := by
    simp [heads, joinEach_singleton, Function.comp_def]
  simp only [closeAll, Product.close, length_heads, htotal]
  cases Product.checkBudget p.openings.length (p.bytesClosed (Glyph.read text)) with
  | error f => rfl
  | ok _ => simp only [alternatives, Except.map, hclosed, filter_ofList, Product.map_write_closed, Glyph.write_read]

/-! ## All rounds -/

theorem expandFrom?_of_no_choice {s : String} (h : choiceAt? s = none) (heads : List String) (bytes : Nat) :
    expandFrom? heads bytes s = some (closeAll heads bytes s) := by
  rw [expandFrom?, h]

/-- A round in which the slices can be taken. -/
theorem expandFrom?_of_choice {s lead after : String} {parts : List String} {opening closing : Nat}
    (hchoice : choiceAt? s = some (opening, closing)) (hslices : slices? s opening closing = some (lead, parts, after))
    (heads : List String) (bytes : Nat) :
    expandFrom? heads bytes s =
      match extendAll heads bytes lead parts with
      | .error f => some (.error f)
      | .ok (longer, total) => expandFrom? longer total after := by
  rw [expandFrom?]
  simp only [hchoice]
  split
  · rename_i hnone
    exact absurd (hnone.symm.trans hslices) (by simp)
  · rename_i lead' parts' after' hsome
    simp only [hslices, Option.some.injEq, Prod.mk.injEq] at hsome
    obtain ⟨rfl, rfl, rfl⟩ := hsome
    rfl

/-- **All rounds** give what the run of the product gives. The induction is on the choices of the text; the product is
    general, as each choice makes a new one. -/
theorem expandFrom?_eq (p : Product) (text : List Char) :
    expandFrom? (heads p) p.bytes (String.ofList text) =
      some (alternatives (p.finish (Choice.read (Glyph.read text)).1 (Choice.read (Glyph.read text)).2)) := by
  fun_induction stages text generalizing p with
  | case1 text h =>
      rw [expandFrom?_of_no_choice (choiceAt?_of_no_choice h), closeAll_eq, Choice.read_of_no_choice h,
        Product.finish_nil]
  | case2 text lead body after h _ ih =>
      rw [expandFrom?_of_choice (choiceAt?_of_choice h) (slices?_of_choice h), extendAll_eq, Choice.read_of_choice h]
      cases happly : p.apply ⟨Glyph.read lead, (cutAll ',' body).map Glyph.read⟩ with
      | error f =>
          rw [Product.finish_cons_error happly]
          rfl
      | ok q =>
          rw [Product.finish_cons_ok happly, ← ih q]
          rfl

/-- **No slice fails,** and the alternatives are those of the pattern. -/
theorem expand?_eq (pattern : String) :
    expand? pattern = some ((expand pattern.toList).map (·.map String.ofList)) := by
  cases hchoice : firstChoice? (quoteLeadingPair pattern.toList) with
  | none =>
      rw [expand?, choiceAt?_of_no_choice hchoice, expand_of_no_choice hchoice]
      rfl
  | some choice =>
      obtain ⟨lead, body, after⟩ := choice
      have hread := Choice.read_of_choice hchoice
      have hrun : expandFrom? [""] 0 (String.ofList (quoteLeadingPair pattern.toList)) = _ :=
        expandFrom?_eq Product.start (quoteLeadingPair pattern.toList)
      rw [hread] at hrun
      rw [read_quoteLeadingPair] at hread
      rw [expand?, choiceAt?_of_choice hchoice]
      simp only [hrun]
      rw [expand, expandGlyphs_of_choice hread]
      cases Product.start.finish _ _ with
      | error f => rfl
      | ok all => simp only [alternatives, Except.map, map_write_filter]

/-! ## Sums -/

/-- What one round of a choice adds is its parts, and the lead once for each of them. -/
theorem size_of_choice (lead body : List Char) :
    Choice.size ⟨Glyph.read lead, (cutAll ',' body).map Glyph.read⟩ =
      (String.ofList lead).utf8ByteSize * (cutAll ',' body).length + totalBytes (cutAll ',' body) := by
  rw [← Product.totalBytes_choice_texts, Choice.texts_of_parts, ledParts, totalBytes_map_append]

/-- Some parts that take a number of bytes together, with the lead once for each: the sum is largest if all parts are empty
    and there are as many of them as the lead has bytes. -/
theorem four_mul_le_sq {lead parts bytes : Nat} (hparts : 0 < parts) :
    4 * (lead * parts + bytes) ≤ (lead + (bytes + parts)) ^ 2 := by
  cases lead with
  | zero =>
      calc 4 * (0 * parts + bytes)
          = 4 * bytes * 1 := by omega
        _ ≤ (bytes + 1) ^ 2 := four_mul_le_sq_add bytes 1
        _ ≤ (0 + (bytes + parts)) ^ 2 := Nat.pow_le_pow_left (by omega) 2
  | succ lead =>
      have hbytes : bytes ≤ (lead + 1) * bytes := Nat.le_mul_of_pos_left bytes (Nat.succ_pos lead)
      calc 4 * ((lead + 1) * parts + bytes)
          ≤ 4 * ((lead + 1) * parts + (lead + 1) * bytes) := by omega
        _ = 4 * (lead + 1) * (bytes + parts) := by rw [← Nat.mul_add, Nat.mul_assoc, Nat.add_comm parts]
        _ ≤ (lead + 1 + (bytes + parts)) ^ 2 := four_mul_le_sq_add (lead + 1) (bytes + parts)

/-- **What one round adds** is at most a quarter of the square of the bytes that the text has, less one. -/
theorem four_mul_size_le_of_mem_read {text : List Char} {c : Choice} (h : c ∈ (Choice.read (Glyph.read text)).1) :
    4 * c.size ≤ ((String.ofList text).utf8ByteSize - 1) ^ 2 := by
  fun_induction stages text with
  | case1 text hnone =>
      rw [Choice.read_of_no_choice hnone] at h
      exact absurd h List.not_mem_nil
  | case2 text lead body after hfirst _ ih =>
      have hbytes := utf8ByteSize_of_firstChoice? hfirst
      rw [Choice.read_of_choice hfirst] at h
      rcases List.mem_cons.mp h with rfl | hlater
      · have hparts := totalBytes_cutAll body
        rw [size_of_choice]
        exact Nat.le_trans (four_mul_le_sq (List.length_pos_iff.mpr (cutAll_ne_nil ',' body)))
          (Nat.pow_le_pow_left (by omega) 2)
      · exact Nat.le_trans (ih hlater) (Nat.pow_le_pow_left (by omega) 2)

/-- **The one sum that is not held back can be held** as long as the text that is searched has no more than 2^33 bytes. -/
theorem size_le_maxSize {pattern : String}
    (hsize : (String.ofList (quoteLeadingPair pattern.toList)).utf8ByteSize ≤ 2 ^ 33) {c : Choice}
    (h : c ∈ (Choice.read (quoteEmptyPair (Glyph.read pattern.toList))).1) : c.size ≤ Product.maxSize := by
  rw [← read_quoteLeadingPair] at h
  have hround : 4 * c.size ≤ (2 ^ 33 - 1) ^ 2 :=
    Nat.le_trans (four_mul_size_le_of_mem_read h) (Nat.pow_le_pow_left (by omega) 2)
  have hmax : Product.maxSize = 2 ^ 64 - 1 := rfl
  omega

/-- Half of it a lead, and half of it commas. -/
def halved (n : Nat) : List Char :=
  List.replicate (n + 1) 'a' ++ '\x7b' :: (List.replicate n ',' ++ ['\x7d'])

theorem firstChoice?_halved (n : Nat) :
    firstChoice? (halved n) = some (List.replicate (n + 1) 'a', List.replicate n ',', []) := by
  have hopen : cutAt? '\x7b' (halved n) = some (List.replicate (n + 1) 'a', List.replicate n ',' ++ ['\x7d']) :=
    cutAt?_append (by decide) (fun hmem => absurd (List.eq_of_mem_replicate hmem) (by decide))
      (fun hmem => absurd (List.eq_of_mem_replicate hmem) (by decide)) _
  have hclose : cutAt? '\x7d' (List.replicate n ',' ++ ['\x7d']) = some (List.replicate n ',', []) :=
    cutAt?_append (by decide) (fun hmem => absurd (List.eq_of_mem_replicate hmem) (by decide))
      (fun hmem => absurd (List.eq_of_mem_replicate hmem) (by decide)) _
  simp only [firstChoice?, hopen, hclose]

theorem quoteLeadingPair_halved (n : Nat) : quoteLeadingPair (halved n) = halved n := by
  rw [halved, List.replicate_succ]
  rfl

theorem cutAll_replicate_comma (n : Nat) : cutAll ',' (List.replicate n ',') = List.replicate (n + 1) [] := by
  induction n with
  | zero => exact cutAll_of_no_cut rfl
  | succ n ih =>
      have hcut : cutAt? ',' (List.replicate (n + 1) ',') = some ([], List.replicate n ',') := by
        rw [List.replicate_succ, cutAt?_plain ',' (by decide), if_pos rfl]
      rw [cutAll_of_cutAt? hcut, ih]
      rfl

theorem utf8ByteSize_halved (n : Nat) : (String.ofList (halved n)).utf8ByteSize = 2 * n + 3 := by
  have ha : Char.utf8Size 'a' = 1 := rfl
  have hcomma : Char.utf8Size ',' = 1 := rfl
  rw [utf8ByteSize_of_firstChoice? (firstChoice?_halved n), Glyph.utf8ByteSize_ofList, Glyph.utf8ByteSize_ofList,
    Glyph.utf8ByteSize_ofList, sumOf_replicate, sumOf_replicate, sumOf_nil, ha, hcomma]
  omega

/-- Its parts are empty, and each of them has the lead once. -/
theorem exists_mem_read_halved (n : Nat) :
    ∃ c ∈ (Choice.read (quoteEmptyPair (Glyph.read (halved n)))).1, c.size = (n + 1) * (n + 1) := by
  have ha : Char.utf8Size 'a' = 1 := rfl
  have hempty : totalBytes (List.replicate (n + 1) []) = 0 := by
    rw [totalBytes, sumOf_replicate]
    rfl
  rw [← read_quoteLeadingPair, quoteLeadingPair_halved, Choice.read_of_choice (firstChoice?_halved n)]
  refine ⟨_, List.mem_cons_self, ?_⟩
  rw [size_of_choice, cutAll_replicate_comma, List.length_replicate, hempty, Glyph.utf8ByteSize_ofList, sumOf_replicate,
    ha, Nat.mul_one, Nat.add_zero]

/-- **The bound is the best one:** with one byte more, a round may add as much as cannot be held. -/
theorem exists_maxSize_lt :
    ∃ pattern : String, pattern.utf8ByteSize = 2 ^ 33 + 1 ∧
      ∃ c ∈ (Choice.read (quoteEmptyPair (Glyph.read pattern.toList))).1, Product.maxSize < c.size := by
  obtain ⟨c, hc, hround⟩ := exists_mem_read_halved (2 ^ 32 - 1)
  refine ⟨String.ofList (halved (2 ^ 32 - 1)), utf8ByteSize_halved (2 ^ 32 - 1), c, ?_, ?_⟩
  · rw [String.toList_ofList]
    exact hc
  · rw [hround]
    decide

/-! ## Everything together -/

/-- **Offsets are sound.** From any boundary between characters, searching the bytes for an ASCII character finds it where
    reading the characters from there on finds it unquoted, and nothing else; slicing at what is found gives the stretches
    of the text. Spelling out a pattern by offsets takes no slice that is not there, and spells out what reading its
    characters does.

    The sizes that it adds up are held in 64 bits, and count as the largest where they would not fit; but one of them, what a
    round adds, is a plain sum. It fits as long as the text that is searched, which is the pattern with a leading pair of
    braces quoted, has no more than 2^33 bytes. This is the best bound (`exists_maxSize_lt`). Above it the slices are taken
    all the same, but the sum of a round may be too large, and what follows depends on how such a sum is treated: it may be
    an error, or go on from zero. -/
theorem offsets_sound :
    (∀ (s : String) (start : Nat), String.Pos.Raw.IsValid s ⟨start⟩ →
      ∃ rest, slice? s start s.utf8ByteSize = some rest ∧
        (∀ target : Char, target.toNat < 128 →
          seek s.toByteArray target.toUInt8 start = firstUnquoted? target start rest.toList) ∧
        ∀ separator : Char, separator.toNat < 128 → ∃ parts, sliceAll? s separator.toUInt8 start = some parts ∧
          (separator ≠ '\\' → parts = (cutAll separator rest.toList).map String.ofList)) ∧
    (∀ pattern : String, expand? pattern = some ((expand pattern.toList).map (·.map String.ofList))) ∧
    ∀ pattern : String, (String.ofList (quoteLeadingPair pattern.toList)).utf8ByteSize ≤ 2 ^ 33 →
      ∀ c ∈ (Choice.read (quoteEmptyPair (Glyph.read pattern.toList))).1, c.size ≤ Product.maxSize := by
  refine ⟨fun s start hvalid => ?_, expand?_eq, fun pattern hsize c hc => size_le_maxSize hsize hc⟩
  obtain ⟨before, rest, rfl, rfl⟩ := exists_of_isValid hvalid
  refine ⟨String.ofList rest, slice?_end before rest, ?_⟩
  rw [String.toList_ofList]
  exact ⟨fun target htarget => seek_eq htarget before rest, fun separator hascii => exists_sliceAll? hascii before rest⟩

/-- After the backslash the search goes on within the character that it quotes, at an offset that is no boundary. The comma
    after that is found, and the next one from the boundary after it; both quoted commas of the pattern are passed over. -/
theorem offsets_sound_wide :
    seek "a\\日,é,b".toByteArray (Char.toUInt8 ',') 0 = some 5 ∧ ¬ String.Pos.Raw.IsValid "a\\日,é,b" ⟨3⟩ ∧
      seek "a\\日,é,b".toByteArray (Char.toUInt8 ',') 6 = some 8 ∧
      sliceAll? "a\\日,é,b" (Char.toUInt8 ',') 0 = some ["a\\日", "é", "b"] ∧
      expand? "\x7b\x7d\x7bé\\日\\,,ß\x7d\\" =
        some (.ok ["\\\x7b\\\x7dé\\日\\,\\", "\\\x7b\\\x7dß\\"]) := by
  obtain ⟨hscan, hexpand, -⟩ := offsets_sound
  obtain ⟨rest, hrest, hseek, hslices⟩ := hscan "a\\日,é,b" 0 (by decide)
  obtain ⟨rest', hrest', hseek', -⟩ := hscan "a\\日,é,b" 6 (by decide)
  obtain ⟨parts, hparts, hcut⟩ := hslices ',' (by decide)
  have hall : slice? "a\\日,é,b" 0 10 = some "a\\日,é,b" := by decide
  have hlater : slice? "a\\日,é,b" 6 10 = some "é,b" := by decide
  obtain rfl := Option.some.inj (hrest.symm.trans hall)
  obtain rfl := Option.some.inj (hrest'.symm.trans hlater)
  rw [hseek ',' (by decide), hseek' ',' (by decide), hparts, hcut (by decide), hexpand]
  refine ⟨by decide, by decide, by decide, by cbv, by decide⟩

end AccessPolicy.Bytes
