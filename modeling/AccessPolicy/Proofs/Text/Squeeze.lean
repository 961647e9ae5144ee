import AccessPolicy.Proofs.Text.Tidy

/-!
# What tidying leaves of a text

A tidied text has no blank at either end and no two blanks side by side. Its characters that are not blank are those of
the text, in their order; and between two of them there is a blank exactly where the text has some, namely the last one of
the run there (`exists_tidy_of_run`). Tidying it again changes nothing.

`squeeze` compares a character with the first one that is *kept* after it. The next character of the text would do as
well, since a run is kept or cut off as a whole: what is kept of a text starts with a blank exactly if the text does
(`exists_squeeze_cons`). This is what the inductions below go by.

Contents:
* `nonBlanks`;
* `exists_squeeze_cons`, `noBlankPair_squeeze`, `nonBlanks_squeeze`, `getLast?_squeeze`, `squeeze_append`, `squeeze_run` —
  runs of blanks;
* `nonBlanks_trim`, `exists_trimStart_append`, `exists_trimEnd_append_cons` — the ends;
* `trimmed_tidy`, `noBlankPair_tidy`, `nonBlanks_tidy`, `tidy_tidy`, **`exists_tidy_of_run`**.
-/

namespace AccessPolicy.Text

variable {cs : List Char}

/-- The characters of a text that are not blank. -/
def nonBlanks (cs : List Char) : List Char :=
  cs.filter (!isBlank ·)

theorem nonBlanks_append (cs ds : List Char) : nonBlanks (cs ++ ds) = nonBlanks cs ++ nonBlanks ds :=
  List.filter_append cs ds

theorem nonBlanks_reverse (cs : List Char) : nonBlanks cs.reverse = (nonBlanks cs).reverse :=
  List.filter_reverse

theorem nonBlanks_cons_of_blank {c : Char} (hc : isBlank c = true) (cs : List Char) :
    nonBlanks (c :: cs) = nonBlanks cs := by
  rw [nonBlanks, List.filter_cons, hc]
  rfl

theorem nonBlanks_cons {c : Char} (hc : isBlank c = false) (cs : List Char) :
    nonBlanks (c :: cs) = c :: nonBlanks cs := by
  rw [nonBlanks, List.filter_cons, hc]
  rfl

/-! ## Runs of blanks -/

theorem squeeze_cons_of_nonBlank {c : Char} (hc : isBlank c = false) (cs : List Char) :
    squeeze (c :: cs) = c :: squeeze cs := by
  rw [squeeze_cons]
  cases squeeze cs with
  | nil => rfl
  | cons d kept =>
      rw [hc]
      rfl

/-- Something is kept of a text that is not empty, and it starts with a blank exactly if the text does. -/
theorem exists_squeeze_cons (c : Char) (cs : List Char) :
    ∃ d kept, squeeze (c :: cs) = d :: kept ∧ isBlank d = isBlank c := by
  rw [squeeze_cons]
  cases squeeze cs with
  | nil => exact ⟨c, [], rfl, rfl⟩
  | cons d kept =>
      by_cases hboth : (isBlank c && isBlank d) = true
      · refine ⟨d, kept, if_pos hboth, ?_⟩
        rw [Bool.and_eq_true] at hboth
        rw [hboth.1, hboth.2]
      · exact ⟨c, d :: kept, if_neg hboth, rfl⟩

/-- A blank before another blank is dropped. -/
theorem squeeze_cons_cons_of_blank {c d : Char} (hc : isBlank c = true) (hd : isBlank d = true) (cs : List Char) :
    squeeze (c :: d :: cs) = squeeze (d :: cs) := by
  obtain ⟨e, kept, hkept, he⟩ := exists_squeeze_cons d cs
  rw [squeeze_cons, hkept]
  simp only [hc, he, hd, Bool.and_self, if_true]

/-- No two blanks are kept side by side. -/
theorem noBlankPair_squeeze (cs : List Char) : NoBlankPair (squeeze cs) := by
  induction cs with
  | nil => exact List.isChain_nil
  | cons c cs ih =>
      rw [squeeze_cons]
      cases hkept : squeeze cs with
      | nil => exact List.isChain_singleton c
      | cons d kept =>
          rw [hkept] at ih
          by_cases hboth : (isBlank c && isBlank d) = true
          · simp only [if_pos hboth]
            exact ih
          · simp only [if_neg hboth]
            rw [Bool.and_eq_true] at hboth
            exact List.isChain_cons_cons.mpr ⟨hboth, ih⟩

/-- Only blanks are dropped. -/
theorem nonBlanks_squeeze (cs : List Char) : nonBlanks (squeeze cs) = nonBlanks cs := by
  induction cs with
  | nil => rfl
  | cons c cs ih =>
      cases hc : isBlank c with
      | false => rw [squeeze_cons_of_nonBlank hc, nonBlanks_cons hc, nonBlanks_cons hc, ih]
      | true =>
          rw [nonBlanks_cons_of_blank hc, ← ih, squeeze_cons]
          cases squeeze cs with
          | nil => exact nonBlanks_cons_of_blank hc []
          | cons d kept =>
              by_cases hboth : (isBlank c && isBlank d) = true
              · simp only [if_pos hboth]
              · simp only [if_neg hboth]
                exact nonBlanks_cons_of_blank hc (d :: kept)

/-- The last character is kept. -/
theorem getLast?_squeeze (cs : List Char) : (squeeze cs).getLast? = cs.getLast? := by
  induction cs with
  | nil => rfl
  | cons c cs ih =>
      cases cs with
      | nil => rfl
      | cons d cs =>
          rw [List.getLast?_cons_cons, ← ih, squeeze_cons]
          obtain ⟨e, kept, hkept, -⟩ := exists_squeeze_cons d cs
          rw [hkept]
          by_cases hboth : (isBlank c && isBlank e) = true
          · simp only [if_pos hboth]
          · simp only [if_neg hboth]
            exact List.getLast?_cons_cons

/-- Up to a character that is not blank, what is kept does not depend on what comes after it. -/
theorem squeeze_append {c : Char} (hc : isBlank c = false) (left right : List Char) :
    squeeze (left ++ c :: right) = squeeze (left ++ [c]) ++ squeeze right := by
  induction left with
  | nil => exact squeeze_cons_of_nonBlank hc right
  | cons b left ih =>
      rw [List.cons_append, List.cons_append, squeeze_cons, squeeze_cons, ih]
      cases hkept : squeeze (left ++ [c]) with
      | nil =>
          have hlast := getLast?_squeeze (left ++ [c])
          rw [hkept, List.getLast?_concat] at hlast
          exact absurd hlast.symm (Option.some_ne_none c)
      | cons d kept =>
          rw [List.cons_append]
          by_cases hboth : (isBlank b && isBlank d) = true
          · simp only [if_pos hboth]
            rfl
          · simp only [if_neg hboth]
            rfl

/-- Of a run of blanks the last one is kept. -/
theorem squeeze_run {run : List Char} (hrun : ∀ b ∈ run, isBlank b = true) {d : Char} (hd : isBlank d = false)
    (right : List Char) : squeeze (run ++ d :: right) = run.getLast?.toList ++ d :: squeeze right := by
  induction run with
  | nil => exact squeeze_cons_of_nonBlank hd right
  | cons b run ih =>
      obtain ⟨hb, hrest⟩ := List.forall_mem_cons.mp hrun
      cases run with
      | nil =>
          have hkept : squeeze (d :: right) = d :: squeeze right := squeeze_cons_of_nonBlank hd right
          rw [List.singleton_append, squeeze_cons, hkept]
          simp only [hd, Bool.and_false, Bool.false_eq_true, if_false]
          rfl
      | cons b' run =>
          have hb' := hrest b' List.mem_cons_self
          rw [List.getLast?_cons_cons, ← ih hrest]
          exact squeeze_cons_cons_of_blank hb hb' (run ++ d :: right)

/-! ## The ends of a text -/

theorem trimEnd_eq (cs : List Char) : trimEnd cs = (trimStart cs.reverse).reverse := rfl

theorem nonBlanks_trimStart (cs : List Char) : nonBlanks (trimStart cs) = nonBlanks cs := by
  induction cs with
  | nil => rfl
  | cons c cs ih =>
      cases hc : isBlank c with
      | false => rw [trimStart, List.dropWhile_cons_of_neg (by rw [hc]; exact Bool.false_ne_true)]
      | true =>
          rw [nonBlanks_cons_of_blank hc, ← ih, trimStart, List.dropWhile_cons_of_pos hc]
          rfl

/-- Only blanks are cut off. -/
theorem nonBlanks_trim (cs : List Char) : nonBlanks (trim cs) = nonBlanks cs := by
  rw [trim, trimEnd_eq, nonBlanks_reverse, nonBlanks_trimStart, nonBlanks_reverse, List.reverse_reverse,
    nonBlanks_trimStart]

/-- At the start, nothing is cut off from the first character on that is not blank. -/
theorem exists_trimStart_append {c : Char} (hc : isBlank c = false) (left right : List Char) :
    ∃ before, trimStart (left ++ c :: right) = before ++ c :: right ∧ nonBlanks before = nonBlanks left := by
  induction left with
  | nil => exact ⟨[], dropWhile_of_first (by simpa using hc), rfl⟩
  | cons b left ih =>
      cases hb : isBlank b with
      | false => exact ⟨b :: left, dropWhile_of_first (by simpa using hb), rfl⟩
      | true =>
          obtain ⟨before, hcut, hbefore⟩ := ih
          refine ⟨before, ?_, by rw [hbefore, nonBlanks_cons_of_blank hb]⟩
          rw [← hcut, List.cons_append, trimStart, List.dropWhile_cons_of_pos hb]
          rfl

/-- At the end, nothing is cut off up to the last one that is not. -/
theorem exists_trimEnd_append_cons {d : Char} (hd : isBlank d = false) (left right : List Char) :
    ∃ after, trimEnd (left ++ d :: right) = left ++ d :: after ∧ nonBlanks after = nonBlanks right := by
  obtain ⟨before, hcut, hbefore⟩ := exists_trimStart_append hd right.reverse left.reverse
  refine ⟨before.reverse, ?_, ?_⟩
  · rw [trimEnd_eq, List.reverse_append, List.reverse_cons, List.append_assoc, List.singleton_append, hcut,
      List.reverse_append, List.reverse_cons, List.reverse_reverse, List.append_assoc]
    rfl
  · rw [nonBlanks_reverse, hbefore, nonBlanks_reverse, List.reverse_reverse]

/-! ## Tidied texts -/

/-- A tidied text has no blank at either end. -/
theorem trimmed_tidy (cs : List Char) : Trimmed (tidy cs) where
  first := by
    have hfirst := (trimmed_trim cs).first
    intro c hc
    cases htrim : trim cs with
    | nil =>
        rw [tidy, htrim] at hc
        exact absurd hc (by simp)
    | cons d rest =>
        obtain ⟨e, kept, hkept, he⟩ := exists_squeeze_cons d rest
        rw [tidy, htrim, hkept] at hc
        obtain rfl : e = c := Option.some.inj hc
        rw [he]
        exact hfirst d (by rw [htrim]; rfl)
  last := by
    intro c hc
    rw [tidy, getLast?_squeeze] at hc
    exact (trimmed_trim cs).last c hc

/-- No two blanks stand side by side in a tidied text. -/
theorem noBlankPair_tidy (cs : List Char) : NoBlankPair (tidy cs) :=
  noBlankPair_squeeze (trim cs)

/-- Of the other characters, none is lost and none moved. -/
theorem nonBlanks_tidy (cs : List Char) : nonBlanks (tidy cs) = nonBlanks cs := by
  rw [tidy, nonBlanks_squeeze, nonBlanks_trim]

/-- Tidying twice is tidying once. -/
theorem tidy_tidy (cs : List Char) : tidy (tidy cs) = tidy cs := by
  have htrim : trim (tidy cs) = tidy cs := (trimmed_tidy cs).trim_eq
  have hpair : NoBlankPair (trim (tidy cs)) := by
    rw [htrim]
    exact noBlankPair_tidy cs
  rw [tidy_of_noBlankPair hpair, htrim]

/-- What is kept of a text ends in its last character. -/
theorem exists_squeeze_concat (left : List Char) (c : Char) :
    ∃ before, squeeze (left ++ [c]) = before ++ [c] ∧ nonBlanks before = nonBlanks left := by
  have hlast : (squeeze (left ++ [c])).getLast? = some c := by
    rw [getLast?_squeeze, List.getLast?_concat]
  obtain ⟨before, hbefore⟩ := List.getLast?_eq_some_iff.mp hlast
  refine ⟨before, hbefore, ?_⟩
  have hkept := nonBlanks_squeeze (left ++ [c])
  rw [hbefore, nonBlanks_append, nonBlanks_append] at hkept
  exact List.append_cancel_right hkept

/-- **What is left of a run.** Of the blanks between two characters, the last one is left between them, and none if there
    are none; and on either side are the characters that were there. -/
theorem exists_tidy_of_run {c d : Char} (hc : isBlank c = false) (hd : isBlank d = false) {run : List Char}
    (hrun : ∀ b ∈ run, isBlank b = true) (left right : List Char) :
    ∃ before after, tidy (left ++ c :: (run ++ d :: right)) = before ++ c :: (run.getLast?.toList ++ d :: after) ∧
      nonBlanks before = nonBlanks left ∧ nonBlanks after = nonBlanks right := by
  obtain ⟨first, hstart, hfirst⟩ := exists_trimStart_append hc left (run ++ d :: right)
  obtain ⟨rest, hend, hrest⟩ := exists_trimEnd_append_cons hd (first ++ c :: run) right
  obtain ⟨before, hsqueezed, hbefore⟩ := exists_squeeze_concat first c
  have htrim : trim (left ++ c :: (run ++ d :: right)) = first ++ c :: (run ++ d :: rest) := by
    rw [trim, hstart]
    simpa using hend
  refine ⟨before, squeeze rest, ?_, by rw [hbefore, hfirst], by rw [nonBlanks_squeeze, hrest]⟩
  rw [tidy, htrim, squeeze_append hc, squeeze_run hrun hd, hsqueezed, List.append_assoc]
  rfl

end AccessPolicy.Text
