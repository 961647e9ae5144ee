import AccessPolicy.Proofs.Choice.Expansion

/-!
# The budget is exact

A pattern is refused as soon as what its first choices spell out is over budget. Two things have to be shown for this
early refusal to be exact.

*It is never premature.* Another choice has at least one part, and what stands after the last choice only makes
alternatives longer, so neither the number of alternatives nor their bytes ever shrink from one stage to a later one
(`noLarger_of_mem_stages`). A stage over budget therefore means that the whole is over budget
(`firstOver?_ne_none_iff`).

*It reports what is there.* Sizes are held in 64 bits. The openings are within budget whenever a further choice is
applied, and that choice cannot be larger than the text that it was read from, so for a text of up to 2^26 + 1 bytes
every size fits (`held_of_firstOver?`). These two bytes more than a pattern may have are the backslashes in front of
a leading pair of braces.

Contents:
* `NoLarger`, `noLarger_of_mem_stages`, `firstOver?_ne_none_iff`;
* `Held`, `held_of_firstOver?`;
* **`expand_refuses_iff`**.
-/

namespace AccessPolicy

/-! ## Sizes never shrink -/

/-- Neither more texts than others, nor more bytes. -/
structure NoLarger (xs ys : List (List Char)) : Prop where
  count_le : xs.length ≤ ys.length
  bytes_le : totalBytes xs ≤ totalBytes ys

theorem NoLarger.refl (xs : List (List Char)) : NoLarger xs xs :=
  ⟨Nat.le_refl _, Nat.le_refl _⟩

/-- What is no larger than texts within budget is within budget. -/
theorem NoLarger.overBudget {xs ys : List (List Char)} (h : NoLarger xs ys) (hover : overBudget xs = true) :
    overBudget ys = true := by
  have hsizes : Product.maxAlternatives < xs.length ∨ Product.maxBytes < totalBytes xs := of_decide_eq_true hover
  refine decide_eq_true ?_
  rcases hsizes with hcount | hbytes
  · exact Or.inl (Nat.lt_of_lt_of_le hcount h.count_le)
  · exact Or.inr (Nat.lt_of_lt_of_le hbytes h.bytes_le)

/-- Heads are no larger than the texts that continue them, unless there is nothing to continue them with. -/
theorem noLarger_joinEach (heads : List (List Char)) {tails : List (List Char)} (h : 0 < tails.length) :
    NoLarger heads (joinEach heads tails) where
  count_le := by
    rw [length_joinEach]
    exact Nat.le_mul_of_pos_right _ h
  bytes_le := by
    rw [totalBytes_joinEach]
    exact Nat.le_trans (Nat.le_mul_of_pos_right _ h) (Nat.le_add_right _ _)

/-- Larger tails give larger texts. -/
theorem NoLarger.joinEach (heads : List (List Char)) {xs ys : List (List Char)} (h : NoLarger xs ys) :
    NoLarger (joinEach heads xs) (joinEach heads ys) where
  count_le := by
    rw [length_joinEach, length_joinEach]
    exact Nat.mul_le_mul_left _ h.count_le
  bytes_le := by
    rw [totalBytes_joinEach, totalBytes_joinEach]
    exact Nat.add_le_add (Nat.mul_le_mul_left _ h.count_le) (Nat.mul_le_mul_left _ h.bytes_le)

theorem cutAll_ne_nil (target : Char) (text : List Char) : cutAll target text ≠ [] := by
  unfold cutAll
  split
  · exact List.cons_ne_nil _ _
  · exact List.cons_ne_nil _ _

/-- A text spells out at least one alternative. -/
theorem length_spelledOut_pos (text : List Char) : 0 < (spelledOut text).length := by
  fun_induction stages text with
  | case1 text h =>
      rw [spelledOut_of_no_choice h]
      exact Nat.zero_lt_one
  | case2 text lead body after h _ ih =>
      rw [eq_of_firstChoice? h, spelledOut_of_choice h after, length_joinEach, ledParts, List.length_map]
      exact Nat.mul_pos (List.length_pos_iff.mpr (cutAll_ne_nil _ _)) ih

/-- **Sizes never shrink:** what a stage spells out is no larger than what the text does. The induction is on the
    choices of the text. The first stage lacks all that is spelled out after it; the others are put together from the
    same heads, and a stage of the rest. -/
theorem noLarger_of_mem_stages {text stage : List Char} (h : stage ∈ stages text) :
    NoLarger (spelledOut stage) (spelledOut text) := by
  fun_induction stages text generalizing stage with
  | case1 text hnone =>
      rw [List.mem_singleton.mp h]
      exact NoLarger.refl _
  | case2 text lead body after hfirst _ ih =>
      rw [eq_of_firstChoice? hfirst, spelledOut_of_choice hfirst after]
      rcases List.mem_cons.mp h with rfl | hrest
      · rw [spelledOut_firstStage hfirst]
        exact noLarger_joinEach _ (length_spelledOut_pos after)
      · obtain ⟨later, hlater, rfl⟩ := List.mem_map.mp hrest
        rw [spelledOut_of_choice hfirst later]
        exact (ih hlater).joinEach _

/-- The last stage is the text itself. -/
theorem mem_stages_self (text : List Char) : text ∈ stages text := by
  fun_induction stages text with
  | case1 text h => exact List.mem_singleton_self text
  | case2 text lead body after h _ ih =>
      exact List.mem_cons_of_mem _ (List.mem_map.mpr ⟨after, ih, (eq_of_firstChoice? h).symm⟩)

theorem firstOver?_start (text : List Char) :
    firstOver? [[]] text = (stages text).find? fun stage => overBudget (spelledOut stage) := by
  simp only [firstOver?, joinEach_start]

/-- **Some stage is over budget exactly when the whole is.** -/
theorem firstOver?_ne_none_iff (text : List Char) :
    firstOver? [[]] text ≠ none ↔ overBudget (spelledOut text) = true := by
  rw [firstOver?_start]
  constructor
  · intro hsome
    obtain ⟨stage, hfound⟩ := Option.ne_none_iff_exists'.mp hsome
    have hover := List.find?_some hfound
    exact (noLarger_of_mem_stages (List.mem_of_find?_eq_some hfound)).overBudget hover
  · intro hover hnone
    exact List.find?_eq_none.mp hnone text (mem_stages_self text) hover

/-! ## Sizes fit -/

/-- Both sizes of texts can be held. -/
structure Held (texts : List (List Char)) : Prop where
  count_le : texts.length ≤ Product.maxSize
  bytes_le : totalBytes texts ≤ Product.maxSize

/-- Sizes that can be held are reported as they are. -/
theorem Held.tooLarge_eq {texts : List (List Char)} (h : Held texts) :
    tooLarge texts = .expansionTooLarge texts.length (totalBytes texts) := by
  rw [tooLarge, Product.saturate_of_le h.count_le, Product.saturate_of_le h.bytes_le]

/-- A text takes the bytes of what stands before its first choice, in it and after it, and two for the braces. -/
theorem utf8ByteSize_of_firstChoice? {text lead body after : List Char}
    (h : firstChoice? text = some (lead, body, after)) :
    (String.ofList text).utf8ByteSize =
      (String.ofList lead).utf8ByteSize + (String.ofList body).utf8ByteSize +
        (String.ofList after).utf8ByteSize + 2 := by
  have hopen : Char.utf8Size '\x7b' = 1 := rfl
  have hclose : Char.utf8Size '\x7d' = 1 := rfl
  rw [eq_of_firstChoice? h]
  simp only [Glyph.utf8ByteSize_ofList, sumOf_append, sumOf_cons, hopen, hclose]
  omega

/-- The parts of a body take its bytes, less one for each comma; and there is one part more than commas. -/
theorem totalBytes_cutAll (body : List Char) :
    totalBytes (cutAll ',' body) + (cutAll ',' body).length = (String.ofList body).utf8ByteSize + 1 := by
  fun_induction cutAll ',' body with
  | case1 body h => rfl
  | case2 body before after h _ ih =>
      have hcomma : Char.utf8Size ',' = 1 := rfl
      rw [eq_of_cutAt? h]
      simp only [totalBytes, Glyph.utf8ByteSize_ofList, sumOf_append, sumOf_cons, hcomma, List.length_cons] at ih ⊢
      omega

/-- A product of two numbers with a bounded sum: one of them is at most half the bound. -/
theorem mul_le_of_add_le {m n : Nat} (h : m + n ≤ 2 ^ 26) : m * n ≤ 2 ^ 51 := by
  rcases Nat.le_total m (2 ^ 25) with hm | hm
  · calc m * n
        ≤ 2 ^ 25 * 2 ^ 26 := Nat.mul_le_mul hm (by omega)
      _ = 2 ^ 51 := by decide
  · calc m * n
        ≤ 2 ^ 26 * 2 ^ 25 := Nat.mul_le_mul (by omega) (by omega)
      _ = 2 ^ 51 := by decide

/-- One more choice of a text that is not too long keeps the sizes of openings within what can be held. -/
theorem held_joinEach_ledParts {heads : List (List Char)} (hheads : overBudget heads = false) {lead body : List Char}
    (hsize : (String.ofList lead).utf8ByteSize + (String.ofList body).utf8ByteSize < 2 ^ 26) :
    Held (joinEach heads (ledParts lead body)) := by
  have hcount : heads.length ≤ 2 ^ 12 := (sizes_le_of_within hheads).1
  have hbytes : totalBytes heads ≤ 2 ^ 20 := (sizes_le_of_within hheads).2
  have hparts := totalBytes_cutAll body
  have hnumber : (cutAll ',' body).length ≤ 2 ^ 26 := by omega
  have hown : totalBytes (cutAll ',' body) ≤ 2 ^ 26 := by omega
  have hleads : (String.ofList lead).utf8ByteSize * (cutAll ',' body).length ≤ 2 ^ 51 :=
    mul_le_of_add_le (by omega)
  constructor
  · rw [length_joinEach, ledParts, List.length_map]
    exact Nat.le_trans (Nat.mul_le_mul hcount hnumber) (by decide)
  · rw [totalBytes_joinEach, ledParts, totalBytes_map_append, List.length_map]
    calc totalBytes heads * (cutAll ',' body).length + heads.length *
          ((String.ofList lead).utf8ByteSize * (cutAll ',' body).length + totalBytes (cutAll ',' body))
        ≤ 2 ^ 20 * 2 ^ 26 + 2 ^ 12 * (2 ^ 51 + 2 ^ 26) :=
          Nat.add_le_add (Nat.mul_le_mul hbytes hnumber) (Nat.mul_le_mul hcount (Nat.add_le_add hleads hown))
      _ ≤ Product.maxSize := by decide

/-- So does the text after the last choice. -/
theorem held_joinEach_singleton {heads : List (List Char)} (hheads : overBudget heads = false) {tail : List Char}
    (hsize : (String.ofList tail).utf8ByteSize ≤ 2 ^ 26 + 1) : Held (joinEach heads [tail]) := by
  have hcount : heads.length ≤ 2 ^ 12 := (sizes_le_of_within hheads).1
  have hbytes : totalBytes heads ≤ 2 ^ 20 := (sizes_le_of_within hheads).2
  have htail : totalBytes [tail] ≤ 2 ^ 26 + 1 := hsize
  constructor
  · rw [length_joinEach, List.length_singleton, Nat.mul_one]
    exact Nat.le_trans hcount (by decide)
  · rw [totalBytes_joinEach, List.length_singleton, Nat.mul_one]
    exact Nat.le_trans (Nat.add_le_add hbytes (Nat.mul_le_mul hcount htail)) (by decide)

/-- **Sizes fit:** at the first stage over budget both sizes can still be held. The induction is on the choices of the
    text; heads stay within budget up to that stage, and the text that is left only gets shorter. -/
theorem held_of_firstOver? {heads : List (List Char)} (hheads : overBudget heads = false) {text stage : List Char}
    (hsize : (String.ofList text).utf8ByteSize ≤ 2 ^ 26 + 1) (h : firstOver? heads text = some stage) :
    Held (joinEach heads (spelledOut stage)) := by
  fun_induction stages text generalizing heads stage with
  | case1 text hnone =>
      rw [firstOver?_of_no_choice hnone] at h
      split at h
      · obtain rfl := Option.some.inj h
        rw [spelledOut_of_no_choice hnone]
        exact held_joinEach_singleton hheads hsize
      · exact absurd h (by simp)
  | case2 text lead body after hfirst _ ih =>
      have hbytes := utf8ByteSize_of_firstChoice? hfirst
      rw [firstOver?_of_choice hfirst] at h
      split at h
      · obtain rfl := Option.some.inj h
        rw [spelledOut_firstStage hfirst]
        exact held_joinEach_ledParts hheads (by omega)
      · rename_i hwithin
        obtain ⟨later, hlater, rfl⟩ := Option.map_eq_some_iff.mp h
        rw [spelledOut_of_choice hfirst later, ← joinEach_assoc]
        exact ih (Bool.eq_false_iff.mpr hwithin) (by omega) hlater

/-! ## Refusals -/

/-- Quoting a leading pair of braces adds two backslashes. -/
theorem utf8ByteSize_quoteLeadingPair (pattern : List Char) :
    (String.ofList (quoteLeadingPair pattern)).utf8ByteSize ≤ (String.ofList pattern).utf8ByteSize + 2 := by
  have hquote : Char.utf8Size '\\' = 1 := rfl
  simp only [Glyph.utf8ByteSize_ofList]
  unfold quoteLeadingPair
  split
  · simp only [sumOf_cons, hquote]
    omega
  · omega

/-- **Refusals are exact.** A pattern with a choice, of less than 2^26 bytes, is refused for its size exactly when all
    that it spells out, empty alternatives included, is over budget. The fault then reports how many alternatives the
    first stage over budget spells out, and how many bytes they have. -/
theorem expand_refuses_iff {pattern : List Char} (hsize : (String.ofList pattern).utf8ByteSize < 2 ^ 26)
    (hchoice : firstChoice? (quoteLeadingPair pattern) ≠ none) :
    ((∃ alternatives bytes, expand pattern = .error (.expansionTooLarge alternatives bytes)) ↔
        4096 < (spelledOut (quoteLeadingPair pattern)).length ∨
          1048576 < totalBytes (spelledOut (quoteLeadingPair pattern))) ∧
      ∀ alternatives bytes, expand pattern = .error (.expansionTooLarge alternatives bytes) →
        ∃ stage,
          (stages (quoteLeadingPair pattern)).find? (fun stage => overBudget (spelledOut stage)) = some stage ∧
            alternatives = (spelledOut stage).length ∧ bytes = totalBytes (spelledOut stage) := by
  have hquoted := utf8ByteSize_quoteLeadingPair pattern
  have hover : 4096 < (spelledOut (quoteLeadingPair pattern)).length ∨
      1048576 < totalBytes (spelledOut (quoteLeadingPair pattern)) ↔
        firstOver? [[]] (quoteLeadingPair pattern) ≠ none := by
    rw [firstOver?_ne_none_iff]
    exact decide_eq_true_iff.symm
  rw [hover, expand_of_choice hchoice, outcome, ← firstOver?_start]
  cases hfound : firstOver? [[]] (quoteLeadingPair pattern) with
  | none =>
      refine ⟨⟨?_, fun h => absurd rfl h⟩, ?_⟩
      · rintro ⟨alternatives, bytes, h⟩
        exact absurd h (by simp [Except.map])
      · intro alternatives bytes h
        exact absurd h (by simp [Except.map])
  | some stage =>
      have hheld := held_of_firstOver? rfl (by omega) hfound
      rw [joinEach_start] at hheld
      simp only [joinEach_start, hheld.tooLarge_eq]
      refine ⟨⟨fun _ => Option.some_ne_none stage, fun _ => ⟨_, _, rfl⟩⟩, ?_⟩
      intro alternatives bytes h
      obtain ⟨rfl, rfl⟩ := Pattern.Fault.expansionTooLarge.inj (Except.error.inj h)
      exact ⟨stage, rfl, rfl, rfl⟩

/-- Two choices with 65 empty parts each. -/
def emptyParts : List Char :=
  let choice := '\x7b' :: (List.replicate 64 ',' ++ ['\x7d'])
  choice ++ choice

/-- The second choice is refused, for 4225 alternatives without a single byte. -/
theorem expand_refuses_emptyParts :
    ((∃ alternatives bytes, expand emptyParts = .error (.expansionTooLarge alternatives bytes)) ↔
        4096 < (spelledOut (quoteLeadingPair emptyParts)).length ∨
          1048576 < totalBytes (spelledOut (quoteLeadingPair emptyParts))) ∧
      ∃ stage,
        (stages (quoteLeadingPair emptyParts)).find? (fun stage => overBudget (spelledOut stage)) = some stage ∧
          4225 = (spelledOut stage).length ∧ 0 = totalBytes (spelledOut stage) := by
  have hsize : (String.ofList emptyParts).utf8ByteSize < 2 ^ 26 := by
    rw [Glyph.utf8ByteSize_ofList]
    decide +kernel
  obtain ⟨hiff, hstage⟩ := expand_refuses_iff hsize (by decide +kernel)
  exact ⟨hiff, hstage 4225 0 (by decide +kernel)⟩

end AccessPolicy
