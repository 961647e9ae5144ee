import AccessPolicy.Pattern.Placeholder
import AccessPolicy.Proofs.Choice.Budget
import AccessPolicy.Proofs.Glob.Expression
import AccessPolicy.Proofs.Pattern.Quiet

/-!
# How large a pattern may become

Two limits keep compiled patterns small. The budget is for what choices multiply: it counts alternatives and bytes, and it
is checked before each choice is applied and once more at the end. The limit on length is for one alternative: it counts
characters, and it is checked when the alternative is compiled.

The budget does not hold for everything that is spelled out. A pattern without a choice is its own single alternative, and
no size of it is looked at; it is over budget as soon as the text is (`expand_overBudget_iff`). The least text of which
this is true has 1,048,577 bytes (`expand_longText`); with a choice in front of it, it would be refused.

What compiles is within both limits all the same. Without a choice there is one alternative, of as many characters as can
be compiled, and a character takes at most four bytes (`Pattern.sizes_of_compile`). Nothing that a pattern is filled with
can make it larger.

Contents:
* `within_of_outcome`, `sizes_of_expand_of_choice` — patterns with a choice;
* **`expand_overBudget_iff`**, `expand_longText`;
* `utf8ByteSize_le`, `Pattern.exists_compileAll_of_compile`;
* **`Pattern.sizes_of_compile`**.
-/

namespace AccessPolicy

/-! ## What is spelled out -/

/-- A run that is not refused ends within budget. -/
theorem within_of_outcome {text : List Char} {found : List (List Char)} (h : outcome [[]] text = .ok found) :
    overBudget found = false := by
  have hfound := eq_of_outcome h
  rw [joinEach_start] at hfound
  rw [hfound, Bool.eq_false_iff]
  intro hover
  -- Some stage would have been refused.
  obtain ⟨stage, hstage⟩ := Option.ne_none_iff_exists'.mp ((firstOver?_ne_none_iff text).mpr hover)
  rw [outcome, hstage] at h
  exact absurd h (by simp)

/-- The texts that are dropped have no bytes. -/
theorem totalBytes_filter (texts : List (List Char)) :
    totalBytes (texts.filter (!·.isEmpty)) = totalBytes texts := by
  induction texts with
  | nil => rfl
  | cons text texts ih =>
      cases text with
      | nil => exact ih.trans (Nat.zero_add _).symm
      | cons c cs => exact congrArg ((String.ofList (c :: cs)).utf8ByteSize + ·) ih

/-- **With a choice,** all that is spelled out is within budget. -/
theorem sizes_of_expand_of_choice {pattern : List Char} (hchoice : firstChoice? (quoteLeadingPair pattern) ≠ none)
    {found : List (List Char)} (h : expand pattern = .ok found) :
    found.length ≤ Product.maxAlternatives ∧ totalBytes found ≤ Product.maxBytes := by
  obtain ⟨all, hall, rfl⟩ := (expand_eq_ok_iff_of_choice hchoice).mp h
  obtain ⟨hcount, hbytes⟩ := sizes_le_of_within (within_of_outcome hall)
  rw [totalBytes_filter]
  exact ⟨Nat.le_trans (List.length_filter_le _ all) hcount, hbytes⟩

theorem totalBytes_singleton (text : List Char) : totalBytes [text] = (String.ofList text).utf8ByteSize := rfl

/-- **When the budget does not hold.** Never are there more alternatives than it allows. There are more bytes, without the
    pattern being refused, exactly if it has no choice and the text itself has more. -/
theorem expand_overBudget_iff (pattern : List Char) :
    (∀ found, expand pattern = .ok found → found.length ≤ 4096) ∧
      ((∃ found, expand pattern = .ok found ∧ 1048576 < totalBytes found) ↔
        firstChoice? (quoteLeadingPair pattern) = none ∧
          1048576 < (String.ofList (quoteLeadingPair pattern)).utf8ByteSize) := by
  by_cases hchoice : firstChoice? (quoteLeadingPair pattern) = none
  · have hexpand := expand_of_no_choice hchoice
    constructor
    · intro found hfound
      obtain rfl := Except.ok.inj (hexpand.symm.trans hfound)
      exact Nat.le_add_left 1 4095
    · constructor
      · rintro ⟨found, hfound, hover⟩
        obtain rfl := Except.ok.inj (hexpand.symm.trans hfound)
        exact ⟨hchoice, hover⟩
      · rintro ⟨-, hover⟩
        exact ⟨_, hexpand, hover⟩
  · constructor
    · intro found hfound
      exact (sizes_of_expand_of_choice hchoice hfound).1
    · constructor
      · rintro ⟨found, hfound, hover⟩
        have hwithin : totalBytes found ≤ 1048576 := (sizes_of_expand_of_choice hchoice hfound).2
        exact absurd hover (Nat.not_lt.mpr hwithin)
      · rintro ⟨hnone, -⟩
        exact absurd hnone hchoice

/-- A choice with one part, before a text that takes up the whole budget by itself: what would be over budget is refused. -/
theorem expand_overBudget_iff_longTail :
    ¬ ∃ found, expand ('\x7b' :: 'x' :: '\x7d' :: List.replicate 1048576 'x') = .ok found ∧
      1048576 < totalBytes found := by
  rw [(expand_overBudget_iff _).2]
  rintro ⟨hnone, -⟩
  have hchoice : firstChoice? (quoteLeadingPair ('\x7b' :: 'x' :: '\x7d' :: List.replicate 1048576 'x')) =
      some ([], ['x'], List.replicate 1048576 'x') := rfl
  rw [hchoice] at hnone
  exact Option.some_ne_none _ hnone

theorem quiet_replicate {c : Char} (hc : Quiet [c]) (n : Nat) : Quiet (List.replicate n c) := by
  intro d hd
  rw [List.eq_of_mem_replicate hd]
  exact hc c (List.mem_singleton_self c)

theorem utf8ByteSize_replicate (n : Nat) (c : Char) :
    (String.ofList (List.replicate n c)).utf8ByteSize = n * c.utf8Size := by
  rw [Glyph.utf8ByteSize_ofList, sumOf_replicate]

/-- The same text without the choice is one byte less, and still one byte over budget. It is not refused. -/
theorem expand_longText :
    expand (List.replicate 1048577 'x') = .ok [List.replicate 1048577 'x'] ∧
      ¬ totalBytes [List.replicate 1048577 'x'] ≤ 1048576 := by
  constructor
  · exact (quiet_replicate (by decide) 1048577).expand_eq
  · rw [totalBytes_singleton, utf8ByteSize_replicate]
    decide

/-! ## What is compiled -/

/-- A character takes at most four bytes. -/
theorem utf8ByteSize_le (cs : List Char) : (String.ofList cs).utf8ByteSize ≤ 4 * cs.length := by
  rw [Glyph.utf8ByteSize_ofList]
  induction cs with
  | nil => exact Nat.le_refl 0
  | cons c cs ih =>
      have hsize := c.utf8Size_le_four
      rw [sumOf_cons, List.length_cons]
      omega

namespace Pattern

/-- Each alternative compiles to one glob, or to none. -/
theorem length_le_of_compileAll {done globs : List Glob} {alternatives : List (List Char)}
    (h : compileAll done alternatives = .ok globs) : globs.length ≤ done.length + alternatives.length := by
  fun_induction compileAll done alternatives with
  | case1 done =>
      obtain rfl : done.reverse = globs := Except.ok.inj h
      rw [List.length_reverse]
      exact Nat.le_refl _
  | case2 done a rest f hcompile => exact absurd h (by simp)
  | case3 done a rest hcompile ih =>
      have hrest := ih h
      rw [List.length_cons]
      omega
  | case4 done a rest glob hcompile ih =>
      have hrest := ih h
      rw [List.length_cons] at hrest ⊢
      omega

/-- What was compiled was spelled out before, be it blank or not. -/
theorem exists_compileAll_of_compile {pattern : String} {p : Pattern} (h : compile pattern = .ok p) :
    ∃ alternatives, expand (Text.trim pattern.toList) = .ok alternatives ∧
      compileAll [] alternatives = .ok p.globs := by
  by_cases hne : Text.trim pattern.toList = []
  · -- The empty text is spelled out as itself, and compiles to nothing.
    rw [compile, hne] at h
    obtain rfl : ⟨"", []⟩ = p := Except.ok.inj h
    rw [hne]
    exact ⟨[[]], rfl, rfl⟩
  · obtain ⟨alternatives, globs, hexpand, hall, rfl⟩ := (compile_eq_ok_iff hne).mp h
    exact ⟨alternatives, hexpand, hall⟩

/-- **Compiled patterns are small.** Whatever pattern compiles, also one that was filled from a context, was spelled out
    into no more than 4096 alternatives, none of them longer than 65,536 characters, with no more than 1,048,576 bytes in
    all. This holds with a choice and without, and what was compiled has no more globs than there are alternatives. -/
theorem sizes_of_compile {pattern : String} {p : Pattern} (h : compile pattern = .ok p) :
    ∃ alternatives, expand (Text.trim pattern.toList) = .ok alternatives ∧
      compileAll [] alternatives = .ok p.globs ∧ p.globs.length ≤ alternatives.length ∧
      alternatives.length ≤ 4096 ∧ (∀ a ∈ alternatives, a.length ≤ 65536) ∧ totalBytes alternatives ≤ 1048576 := by
  obtain ⟨alternatives, hexpand, hall⟩ := exists_compileAll_of_compile h
  have hglobs : p.globs.length ≤ alternatives.length := by
    simpa using length_le_of_compileAll hall
  have hlengths : ∀ a ∈ alternatives, a.length ≤ 65536 := by
    intro a ha
    obtain ⟨found, hfound⟩ := (compileAll_ok hall).1 a ha
    exact Glob.length_le_of_compileWith hfound
  refine ⟨alternatives, hexpand, hall, hglobs, ?_⟩
  by_cases hchoice : firstChoice? (quoteLeadingPair (Text.trim pattern.toList)) = none
  · -- No budget was checked, but the only alternative is short enough to be compiled.
    rw [expand_of_no_choice hchoice] at hexpand
    obtain rfl := Except.ok.inj hexpand
    have hlength := hlengths _ (List.mem_singleton_self _)
    have hbytes := utf8ByteSize_le (quoteLeadingPair (Text.trim pattern.toList))
    refine ⟨Nat.le_add_left 1 4095, hlengths, ?_⟩
    rw [totalBytes_singleton]
    omega
  · obtain ⟨hcount, hbytes⟩ := sizes_of_expand_of_choice hchoice hexpand
    exact ⟨hcount, hlengths, hbytes⟩

/-- A list fills a pattern twice, once it is spelled out in four ways. -/
theorem sizes_of_compile_pairs :
    ∃ p, compile (fill (some (.record [("team", .list [.text "é", .text "b*"])])) " $\x7bteam\x7d/$\x7bteam\x7d") = .ok p ∧
      p.globs.length = 4 ∧
      ∃ alternatives, expand "\x7bé,b*\x7d/\x7bé,b*\x7d".toList = .ok alternatives ∧
        compileAll [] alternatives = .ok p.globs ∧ p.globs.length ≤ alternatives.length ∧
        alternatives.length ≤ 4096 ∧ (∀ a ∈ alternatives, a.length ≤ 65536) ∧ totalBytes alternatives ≤ 1048576 := by
  obtain ⟨p, hp, hfour⟩ : ∃ p,
      compile (fill (some (.record [("team", .list [.text "é", .text "b*"])])) " $\x7bteam\x7d/$\x7bteam\x7d") = .ok p ∧
        p.globs.length = 4 := ⟨_, rfl, rfl⟩
  exact ⟨p, hp, hfour, sizes_of_compile hp⟩

end Pattern

end AccessPolicy
