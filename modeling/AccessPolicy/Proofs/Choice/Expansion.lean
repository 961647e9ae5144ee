import AccessPolicy.Proofs.Choice.Text
import Mathlib.Tactic.Ring

/-!
# What a pattern spells out

`spelledOut` says which alternatives a text stands for, and in which order, by recursion from the left: the parts of
the first choice, each followed by everything that the text after the choice spells out. `expand` goes the other way
round. It keeps the openings spelled out so far and continues each of them choice by choice, refusing as soon as
their number or size is over budget.

The two are tied by `joinEach`, which puts every head before every tail. Putting texts together this way is
associative, so that what has been spelled out before a place, joined with what the text after it spells out, is the
same at every place of a run. The sizes are tied by `Product.Sized`: the counter holds the bytes of the openings.

The outcome of a run is given by `Product.Sized.finish_read`: the run is refused at the first *stage* over budget,
with the size of that stage, and otherwise gives everything that is spelled out. A stage is the text up to the end of
one of its choices, or all of it.

Contents:
* `joinEach`, `totalBytes` — lists of texts;
* `spelledOut`, `stages` — what a text stands for, and its stages;
* `Product.texts`, `Product.Sized`, `Product.Sized.apply_eq`, `Product.Sized.close_eq` — one step of a run;
* `Product.Sized.finish_read`, `expand_of_no_choice`, `expand_of_choice`, `expand_eq_ok_iff_of_choice` — a whole run;
* **`eq_spelledOut_of_expand`**.
-/

namespace AccessPolicy

/-! ## Lists of texts -/

/-- Every head followed by every tail; the first head comes first, with all tails. -/
def joinEach (heads tails : List (List Char)) : List (List Char) :=
  heads.flatMap fun head => tails.map (head ++ ·)

/-- How many bytes texts take in UTF-8, all together. -/
def totalBytes (texts : List (List Char)) : Nat :=
  sumOf (fun text => (String.ofList text).utf8ByteSize) texts

theorem joinEach_cons (head : List Char) (heads tails : List (List Char)) :
    joinEach (head :: heads) tails = tails.map (head ++ ·) ++ joinEach heads tails := rfl

/-- The empty text as the only head changes nothing. -/
@[simp] theorem joinEach_start (tails : List (List Char)) : joinEach [[]] tails = tails := by
  simp [joinEach]

theorem joinEach_singleton (heads : List (List Char)) (tail : List Char) :
    joinEach heads [tail] = heads.map (· ++ tail) := by
  simp [joinEach, List.map_eq_flatMap]

theorem map_append_joinEach (head : List Char) (heads tails : List (List Char)) :
    (joinEach heads tails).map (head ++ ·) = joinEach (heads.map (head ++ ·)) tails := by
  induction heads with
  | nil => rfl
  | cons first heads ih => simp [joinEach_cons, ih]

/-- **Joining is associative,** order and repetitions included. -/
theorem joinEach_assoc (first second third : List (List Char)) :
    joinEach (joinEach first second) third = joinEach first (joinEach second third) := by
  induction first with
  | nil => rfl
  | cons head first ih =>
      rw [joinEach_cons, joinEach_cons, map_append_joinEach, ← ih]
      exact List.flatMap_append

theorem length_joinEach (heads tails : List (List Char)) :
    (joinEach heads tails).length = heads.length * tails.length := by
  induction heads with
  | nil => exact (Nat.zero_mul _).symm
  | cons head heads ih =>
      rw [joinEach_cons, List.length_append, List.length_map, ih, List.length_cons, Nat.succ_mul, Nat.add_comm]

theorem totalBytes_append (xs ys : List (List Char)) : totalBytes (xs ++ ys) = totalBytes xs + totalBytes ys :=
  sumOf_append _ xs ys

theorem totalBytes_map_append (head : List Char) (tails : List (List Char)) :
    totalBytes (tails.map (head ++ ·)) =
      (String.ofList head).utf8ByteSize * tails.length + totalBytes tails := by
  induction tails with
  | nil => rfl
  | cons tail tails ih =>
      simp only [totalBytes, List.map_cons, sumOf_cons, List.length_cons, String.ofList_append,
        String.utf8ByteSize_append] at ih ⊢
      rw [ih]
      ring

/-- Each head is written as often as there are tails, and the other way round. -/
theorem totalBytes_joinEach (heads tails : List (List Char)) :
    totalBytes (joinEach heads tails) = totalBytes heads * tails.length + heads.length * totalBytes tails := by
  induction heads with
  | nil => simp [joinEach, totalBytes]
  | cons head heads ih =>
      rw [joinEach_cons, totalBytes_append, totalBytes_map_append, ih]
      simp only [totalBytes, sumOf_cons, List.length_cons]
      ring

/-! ## What a text stands for -/

/-- **The alternatives of a text.** Without a choice the text is its own single alternative. Otherwise each part of
    the first choice, with the text that leads up to it, is followed by each alternative of the rest. -/
def spelledOut (text : List Char) : List (List Char) :=
  match h : firstChoice? text with
  | none => [text]
  | some (lead, body, after) =>
    have := length_lt_of_firstChoice? h
    (cutAll ',' body).flatMap fun part => (spelledOut after).map fun tail => lead ++ part ++ tail
termination_by text.length

/-- The stages of a text: up to the end of each of its choices, and all of it. -/
def stages (text : List Char) : List (List Char) :=
  match h : firstChoice? text with
  | none => [text]
  | some (lead, body, after) =>
    have := length_lt_of_firstChoice? h
    (lead ++ '\x7b' :: (body ++ ['\x7d'])) ::
      (stages after).map fun stage => lead ++ '\x7b' :: (body ++ '\x7d' :: stage)
termination_by text.length

/-- The parts of a choice, each with the text that leads up to it. -/
def ledParts (lead body : List Char) : List (List Char) :=
  (cutAll ',' body).map (lead ++ ·)

theorem spelledOut_of_no_choice {text : List Char} (h : firstChoice? text = none) : spelledOut text = [text] := by
  rw [spelledOut]
  split <;> simp_all

/-- A text with a first choice, whatever stands after it, spells out its parts followed by what that spells out. -/
theorem spelledOut_of_choice {text lead body after : List Char} (h : firstChoice? text = some (lead, body, after))
    (other : List Char) :
    spelledOut (lead ++ '\x7b' :: (body ++ '\x7d' :: other)) = joinEach (ledParts lead body) (spelledOut other) := by
  have hother := (Choice.read_of_firstChoice? h other).1
  rw [spelledOut]
  split
  · simp_all
  · rename_i lead' body' after' hfirst
    simp only [hfirst, Option.some.injEq, Prod.mk.injEq] at hother
    obtain ⟨rfl, rfl, rfl⟩ := hother
    simp [joinEach, ledParts, List.flatMap_map]

example : spelledOut ['a', '\x7b', 'b', ',', ',', '\\', ',', '\x7d', 'd'] =
    [['a', 'b', 'd'], ['a', 'd'], ['a', '\\', ',', 'd']] := by
  cbv

/-- Nothing stands after the choice that a first stage ends with. -/
theorem spelledOut_firstStage {text lead body after : List Char} (h : firstChoice? text = some (lead, body, after)) :
    spelledOut (lead ++ '\x7b' :: (body ++ ['\x7d'])) = ledParts lead body := by
  rw [spelledOut_of_choice h [], spelledOut_of_no_choice rfl, joinEach_singleton]
  simp

theorem stages_of_no_choice {text : List Char} (h : firstChoice? text = none) : stages text = [text] := by
  rw [stages]
  split <;> simp_all

theorem stages_of_choice {text lead body after : List Char} (h : firstChoice? text = some (lead, body, after)) :
    stages text = (lead ++ '\x7b' :: (body ++ ['\x7d'])) ::
      (stages after).map fun stage => lead ++ '\x7b' :: (body ++ '\x7d' :: stage) := by
  rw [stages]
  split <;> simp_all

/-! ## Budgets -/

/-- Whether there are too many texts, or too many bytes. -/
def overBudget (texts : List (List Char)) : Bool :=
  decide (Product.maxAlternatives < texts.length ∨ Product.maxBytes < totalBytes texts)

/-- The fault that reports the size of texts, as it is held. -/
def tooLarge (texts : List (List Char)) : Pattern.Fault :=
  .expansionTooLarge (Product.saturate texts.length) (Product.saturate (totalBytes texts))

/-- Texts, or the fault that reports their size. -/
def withinBudget (texts : List (List Char)) : Except Pattern.Fault (List (List Char)) :=
  if overBudget texts then .error (tooLarge texts) else .ok texts

theorem sizes_le_of_within {texts : List (List Char)} (h : overBudget texts = false) :
    texts.length ≤ Product.maxAlternatives ∧ totalBytes texts ≤ Product.maxBytes := by
  have hsizes : ¬ (Product.maxAlternatives < texts.length ∨ Product.maxBytes < totalBytes texts) :=
    of_decide_eq_false h
  rw [not_or, Nat.not_lt, Nat.not_lt] at hsizes
  exact hsizes

namespace Product

/-- Sizes that are over budget are refused, even those that are too large to be held. -/
theorem checkBudget_of_over {texts : List (List Char)} (h : overBudget texts = true) :
    checkBudget (saturate texts.length) (saturate (totalBytes texts)) = .error (tooLarge texts) := by
  have hsizes : maxAlternatives < texts.length ∨ maxBytes < totalBytes texts := of_decide_eq_true h
  refine if_pos ?_
  rw [lt_saturate_iff (by decide), lt_saturate_iff (by decide)]
  exact hsizes

theorem checkBudget_of_within {texts : List (List Char)} (h : overBudget texts = false) :
    checkBudget (saturate texts.length) (saturate (totalBytes texts)) = .ok () := by
  have hsizes : ¬ (maxAlternatives < texts.length ∨ maxBytes < totalBytes texts) := of_decide_eq_false h
  refine if_neg ?_
  rw [lt_saturate_iff (by decide), lt_saturate_iff (by decide)]
  exact hsizes

/-! ## One step of a run -/

/-- The openings as texts. -/
def texts (p : Product) : List (List Char) :=
  p.openings.map fun opening => Glyph.write opening.reverse

/-- **The invariant of a run:** the counter holds the bytes of the openings, and these are within budget. -/
structure Sized (p : Product) : Prop where
  bytes_eq : p.bytes = totalBytes p.texts
  count_le : p.texts.length ≤ maxAlternatives
  bytes_le : totalBytes p.texts ≤ maxBytes

theorem sized_start : start.Sized where
  bytes_eq := rfl
  count_le := by decide
  bytes_le := by decide

end Product

/-- The parts of a choice as texts, each with its lead. -/
def Choice.texts (c : Choice) : List (List Char) :=
  c.parts.map fun part => Glyph.write c.lead ++ Glyph.write part

namespace Product

variable {p : Product}

theorem length_texts (p : Product) : p.texts.length = p.openings.length :=
  List.length_map _

/-- The bytes that one round of a choice adds are those of its texts. -/
theorem totalBytes_choice_texts (c : Choice) : totalBytes c.texts = c.size := by
  unfold totalBytes Choice.texts Choice.size
  rw [sumOf_map]
  congr 1
  funext part
  rw [String.ofList_append, String.utf8ByteSize_append, Glyph.utf8ByteSize_write, Glyph.utf8ByteSize_write,
    Nat.add_comm]

theorem saturate_saturate_add (a b : Nat) : saturate (saturate a + saturate b) = saturate (a + b) := by
  unfold saturate
  omega

/-- **The sizes that are checked** before a choice is applied are those of the texts it would give. -/
theorem Sized.sizes_with (hp : p.Sized) (c : Choice) :
    p.countWith c = saturate (joinEach p.texts c.texts).length ∧
      p.bytesWith c = saturate (totalBytes (joinEach p.texts c.texts)) := by
  constructor
  · rw [length_joinEach, length_texts, Choice.texts, List.length_map]
    rfl
  · rw [totalBytes_joinEach, totalBytes_choice_texts, ← hp.bytes_eq, length_texts, Choice.texts, List.length_map,
      bytesWith, saturate_saturate_add]

theorem texts_extend (openings : List (List Glyph)) (c : Choice) (bytes : Nat) :
    texts ⟨extend openings c, bytes⟩ =
      joinEach (openings.map fun opening => Glyph.write opening.reverse) c.texts := by
  induction openings with
  | nil => rfl
  | cons opening openings ih =>
      rw [List.map_cons, joinEach_cons, ← ih]
      simp [texts, extend, Choice.texts, Glyph.write_append]

/-- **One step of a run:** a choice is refused if the texts it would give are over budget, with their size;
    otherwise it gives these texts, and the invariant holds again. -/
theorem Sized.apply_eq (hp : p.Sized) (c : Choice) :
    (overBudget (joinEach p.texts c.texts) = true ∧ p.apply c = .error (tooLarge (joinEach p.texts c.texts))) ∨
      (overBudget (joinEach p.texts c.texts) = false ∧
        ∃ q, p.apply c = .ok q ∧ q.texts = joinEach p.texts c.texts ∧ q.Sized) := by
  obtain ⟨hcount, hbytes⟩ := hp.sizes_with c
  cases hover : overBudget (joinEach p.texts c.texts) with
  | true =>
      have hfails := checkBudget_of_over hover
      rw [← hcount, ← hbytes] at hfails
      exact Or.inl ⟨rfl, by rw [apply, hfails]⟩
  | false =>
      have hpasses := checkBudget_of_within hover
      rw [← hcount, ← hbytes] at hpasses
      have hsizes := sizes_le_of_within hover
      have hheld : totalBytes (joinEach p.texts c.texts) ≤ maxSize := Nat.le_trans hsizes.2 (by decide)
      have htexts : texts ⟨extend p.openings c, p.bytesWith c⟩ = joinEach p.texts c.texts :=
        texts_extend p.openings c (p.bytesWith c)
      refine Or.inr ⟨rfl, ⟨extend p.openings c, p.bytesWith c⟩, by rw [apply, hpasses], htexts, ?_⟩
      exact
        { bytes_eq := by rw [htexts, ← saturate_of_le hheld, ← hbytes]
          count_le := by rw [htexts]; exact hsizes.1
          bytes_le := by rw [htexts]; exact hsizes.2 }

/-- The sizes that are checked at the end are those of the openings with the tail. -/
theorem Sized.sizes_closed (hp : p.Sized) (tail : List Glyph) :
    p.openings.length = saturate (joinEach p.texts [Glyph.write tail]).length ∧
      p.bytesClosed tail = saturate (totalBytes (joinEach p.texts [Glyph.write tail])) := by
  constructor
  · have hheld : p.texts.length ≤ maxSize := Nat.le_trans hp.count_le (by decide)
    rw [length_joinEach, List.length_singleton, Nat.mul_one, saturate_of_le hheld, length_texts]
  · have htail : totalBytes [Glyph.write tail] = Glyph.widths tail := by
      rw [← Glyph.utf8ByteSize_write]
      rfl
    rw [totalBytes_joinEach, htail, List.length_singleton, Nat.mul_one, length_texts, ← hp.bytes_eq, bytesClosed]
    unfold saturate
    omega

theorem map_write_closed (p : Product) (tail : List Glyph) :
    (p.openings.map fun opening => opening.reverseAux tail).map Glyph.write =
      joinEach p.texts [Glyph.write tail] := by
  rw [joinEach_singleton]
  simp [texts, List.reverseAux_eq, Glyph.write_append, Function.comp_def]

/-- **The last step of a run:** the openings closed by a text, or the fault with the size they would have. -/
theorem Sized.close_eq (hp : p.Sized) (tail : List Glyph) :
    (p.close tail).map (·.map Glyph.write) = withinBudget (joinEach p.texts [Glyph.write tail]) := by
  obtain ⟨hcount, hbytes⟩ := hp.sizes_closed tail
  unfold withinBudget close
  cases hover : overBudget (joinEach p.texts [Glyph.write tail]) with
  | true =>
      have hfails := checkBudget_of_over hover
      rw [← hcount, ← hbytes] at hfails
      rw [hfails]
      rfl
  | false =>
      have hpasses := checkBudget_of_within hover
      rw [← hcount, ← hbytes] at hpasses
      rw [hpasses, ← map_write_closed]
      rfl

/-! ## A whole run -/

/-- A run: choices applied one after another, up to the first that is refused, and then the tail. -/
def finish (p : Product) (choices : List Choice) (tail : List Glyph) :
    Except Pattern.Fault (List (List Glyph)) :=
  match p.applyAll choices with
  | .error f => .error f
  | .ok q => q.close tail

theorem finish_nil (p : Product) (tail : List Glyph) : p.finish [] tail = p.close tail := rfl

theorem finish_cons_error {c : Choice} {f : Pattern.Fault} (h : p.apply c = .error f) (choices : List Choice)
    (tail : List Glyph) : p.finish (c :: choices) tail = .error f := by
  rw [finish, applyAll, h]

theorem finish_cons_ok {c : Choice} {q : Product} (h : p.apply c = .ok q) (choices : List Choice)
    (tail : List Glyph) : p.finish (c :: choices) tail = q.finish choices tail := by
  rw [finish, applyAll, h]
  rfl

end Product

/-- The first stage of a text at which heads, joined with what the stage spells out, are over budget. -/
def firstOver? (heads : List (List Char)) (text : List Char) : Option (List Char) :=
  (stages text).find? fun stage => overBudget (joinEach heads (spelledOut stage))

theorem firstOver?_of_no_choice {text : List Char} (h : firstChoice? text = none) (heads : List (List Char)) :
    firstOver? heads text = if overBudget (joinEach heads [text]) then some text else none := by
  rw [firstOver?, stages_of_no_choice h, List.find?_singleton, spelledOut_of_no_choice h]

/-- The first stage of a text with a choice ends with that choice; the others are stages of the rest, for longer
    heads. -/
theorem firstOver?_of_choice {text lead body after : List Char} (h : firstChoice? text = some (lead, body, after))
    (heads : List (List Char)) :
    firstOver? heads text =
      if overBudget (joinEach heads (ledParts lead body)) then some (lead ++ '\x7b' :: (body ++ ['\x7d']))
      else (firstOver? (joinEach heads (ledParts lead body)) after).map
        fun stage => lead ++ '\x7b' :: (body ++ '\x7d' :: stage) := by
  have hrest : ∀ stage, joinEach heads (spelledOut (lead ++ '\x7b' :: (body ++ '\x7d' :: stage))) =
      joinEach (joinEach heads (ledParts lead body)) (spelledOut stage) := by
    intro stage
    rw [spelledOut_of_choice h stage, joinEach_assoc]
  rw [firstOver?, stages_of_choice h, List.find?_cons, spelledOut_firstStage h, List.find?_map]
  simp only [Function.comp_def, hrest]
  cases overBudget (joinEach heads (ledParts lead body)) <;> rfl

/-- How a run ends: with the fault for the first stage over budget, or with everything spelled out. -/
def outcome (heads : List (List Char)) (text : List Char) : Except Pattern.Fault (List (List Char)) :=
  match firstOver? heads text with
  | some stage => .error (tooLarge (joinEach heads (spelledOut stage)))
  | none => .ok (joinEach heads (spelledOut text))

theorem eq_of_outcome {heads found : List (List Char)} {text : List Char} (h : outcome heads text = .ok found) :
    found = joinEach heads (spelledOut text) := by
  unfold outcome at h
  split at h
  · exact absurd h (by simp)
  · exact (Except.ok.inj h).symm

/-- The choice that a text is read with first gives the parts with their lead. -/
theorem Choice.texts_of_parts (lead body : List Char) :
    Choice.texts ⟨Glyph.read lead, (cutAll ',' body).map Glyph.read⟩ = ledParts lead body := by
  simp [Choice.texts, ledParts, Glyph.write_read, Function.comp_def]

/-- **A whole run.** From openings within budget, reading a text and applying its choices ends as the stages of the
    text say. The induction is on the choices of the text; the openings are general, as each choice makes new ones. -/
theorem Product.Sized.finish_read {p : Product} (hp : p.Sized) (text : List Char) :
    (p.finish (Choice.read (Glyph.read text)).1 (Choice.read (Glyph.read text)).2).map (·.map Glyph.write) =
      outcome p.texts text := by
  fun_induction stages text generalizing p with
  | case1 text h =>
      rw [Choice.read_of_no_choice h, finish_nil, hp.close_eq, Glyph.write_read, outcome, firstOver?_of_no_choice h,
        withinBudget]
      split
      · simp only [spelledOut_of_no_choice h]
      · simp only [spelledOut_of_no_choice h]
  | case2 text lead body after h _ ih =>
      have htext := eq_of_firstChoice? h
      have happly := hp.apply_eq ⟨Glyph.read lead, (cutAll ',' body).map Glyph.read⟩
      rw [Choice.texts_of_parts] at happly
      rw [Choice.read_of_choice h, outcome, firstOver?_of_choice h]
      rcases happly with ⟨hover, hfails⟩ | ⟨hover, q, hpasses, htexts, hq⟩
      · rw [finish_cons_error hfails, if_pos hover]
        simp only [spelledOut_firstStage h]
        rfl
      · rw [finish_cons_ok hpasses, ih hq, htexts, outcome, if_neg (by simp [hover])]
        cases firstOver? (joinEach p.texts (ledParts lead body)) after with
        | none =>
            rw [htext, spelledOut_of_choice h after, joinEach_assoc]
            rfl
        | some stage =>
            simp only [Option.map_some, spelledOut_of_choice h stage, joinEach_assoc]

/-! ## What a pattern spells out -/

/-- With a choice, glyphs are expanded by a run from the empty opening; empty alternatives are dropped at its end. -/
theorem expandGlyphs_of_choice {gs tail : List Glyph} {c : Choice} {choices : List Choice}
    (h : Choice.read (quoteEmptyPair gs) = (c :: choices, tail)) :
    expandGlyphs gs = (Product.start.finish (c :: choices) tail).map (·.filter (!·.isEmpty)) := by
  simp only [expandGlyphs, h, Product.finish]
  cases Product.start.applyAll (c :: choices) with
  | error f => rfl
  | ok p => rfl

/-- Dropping empty alternatives before they are written is dropping them after. -/
theorem map_write_filter (gss : List (List Glyph)) :
    (gss.filter (!·.isEmpty)).map Glyph.write = (gss.map Glyph.write).filter (!·.isEmpty) := by
  rw [List.filter_map]
  congr 1
  apply List.filter_congr
  intro gs _
  rw [Function.comp_apply, Glyph.isEmpty_write]

/-- **A pattern without a choice** is its own single alternative, however long it is. -/
theorem expand_of_no_choice {pattern : List Char} (h : firstChoice? (quoteLeadingPair pattern) = none) :
    expand pattern = .ok [quoteLeadingPair pattern] := by
  rw [expand, expandGlyphs, ← read_quoteLeadingPair, Choice.read_of_no_choice h]
  show Except.ok [Glyph.write (Glyph.read (quoteLeadingPair pattern))] = _
  rw [Glyph.write_read]

/-- **A pattern with a choice** ends as the run over it does, less the empty alternatives. -/
theorem expand_of_choice {pattern : List Char} (h : firstChoice? (quoteLeadingPair pattern) ≠ none) :
    expand pattern = (outcome [[]] (quoteLeadingPair pattern)).map (·.filter (!·.isEmpty)) := by
  obtain ⟨⟨lead, body, after⟩, hfirst⟩ := Option.ne_none_iff_exists'.mp h
  have hread := Choice.read_of_choice hfirst
  have hrun : (Product.start.finish _ _).map (·.map Glyph.write) = outcome [[]] (quoteLeadingPair pattern) :=
    Product.sized_start.finish_read (quoteLeadingPair pattern)
  rw [hread] at hrun
  rw [read_quoteLeadingPair] at hread
  rw [expand, expandGlyphs_of_choice hread, ← hrun]
  cases Product.start.finish _ _ with
  | error f => rfl
  | ok gss => exact congrArg Except.ok (map_write_filter gss)

theorem expand_eq_ok_iff_of_choice {pattern : List Char} (h : firstChoice? (quoteLeadingPair pattern) ≠ none)
    {found : List (List Char)} :
    expand pattern = .ok found ↔
      ∃ all, outcome [[]] (quoteLeadingPair pattern) = .ok all ∧ all.filter (!·.isEmpty) = found := by
  rw [expand_of_choice h]
  cases outcome [[]] (quoteLeadingPair pattern) with
  | error f => simp [Except.map]
  | ok all => simp [Except.map]

/-- **What a pattern spells out, when it is not refused,** is what its text stands for, alternative by alternative and
    in that order. Empty alternatives are dropped exactly when there is a choice. -/
theorem eq_spelledOut_of_expand {pattern : List Char} {found : List (List Char)} (h : expand pattern = .ok found) :
    found =
      if firstChoice? (quoteLeadingPair pattern) = none then spelledOut (quoteLeadingPair pattern)
      else (spelledOut (quoteLeadingPair pattern)).filter (!·.isEmpty) := by
  by_cases hchoice : firstChoice? (quoteLeadingPair pattern) = none
  · rw [expand_of_no_choice hchoice] at h
    rw [if_pos hchoice, spelledOut_of_no_choice hchoice]
    exact (Except.ok.inj h).symm
  · rw [expand_of_choice hchoice, outcome] at h
    rw [if_neg hchoice]
    cases hover : firstOver? [[]] (quoteLeadingPair pattern) with
    | some stage =>
        rw [hover] at h
        exact absurd h (by simp [Except.map])
    | none =>
        rw [hover, joinEach_start] at h
        exact (Except.ok.inj h).symm

/-- Two choices with empty parts, and a quoted comma in the second: the empty alternative is the third of four. -/
theorem eq_spelledOut_of_expand_parts :
    [['a'], ['a', '\\', ','], ['\\', ',']] =
      (spelledOut ['\x7b', 'a', ',', '\x7d', '\x7b', ',', '\\', ',', '\x7d']).filter (!·.isEmpty) := by
  have hexpand : expand ['\x7b', 'a', ',', '\x7d', '\x7b', ',', '\\', ',', '\x7d'] =
      .ok [['a'], ['a', '\\', ','], ['\\', ',']] := by decide
  exact (eq_spelledOut_of_expand hexpand).trans (if_neg (by decide))

end AccessPolicy
