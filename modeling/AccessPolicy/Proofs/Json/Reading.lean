import AccessPolicy.Json.Tree
import AccessPolicy.Proofs.Datum.Shape
import AccessPolicy.Proofs.Json.Lexing
import Mathlib.Data.List.TakeWhile

/-!
# Reading what was written

The text of a value is read back as the tree of the value, `tree?_indentedJson`, and that tree as what a document keeps
of the value, `datum?_tree`, if the value is not nested too deep.

Both are about values whose numbers documents give back, `Rereads`. Not all finite numbers are such: a number is written
with the fewest digits that identify it, and the scaled reading of these digits may be its neighbour.

Contents:
* `Rereads`, `Faithful` — numbers, and values of such numbers;
* `Datum.tree` — the tree of a value;
* `legible_tokens`, `run_tokens`, and from these **`tree?_indentedJson`**;
* **`datum?_tree`**.
-/

namespace AccessPolicy

open Json (Token Tree State Frame)
open Decimal (Numeral)

/-! ## Numbers -/

namespace Json

/-- The number that is read where a number was written, if one is written and read. -/
def rereading? (x : Float) : Option Float :=
  ((Decimal.jsonText? x).bind numeral?).bind Numeral.scaled?

/-- A number that documents give back. -/
def Rereads (x : Float) : Prop :=
  rereading? x = some x

instance : DecidablePred Rereads :=
  fun x => inferInstanceAs (Decidable (rereading? x = some x))

/-- Not every finite number is given back: this one is written as it is here, and read as its neighbour. -/
example : (6.626e-34 : Float).isFinite = true ∧ ¬ Rereads 6.626e-34 := by decide +kernel

/-- A digit may stand in a number and in no word. -/
theorem inNumber_of_digit {c : Char} (h : (Decimal.digit? c).isSome = true) : inNumber c = true ∧ inWord c = false := by
  unfold Decimal.digit? at h
  split at h
  · rename_i hdigit
    refine ⟨by simp [inNumber, hdigit], ?_⟩
    have hless : ¬ 'a' ≤ c := fun hle => absurd (Char.le_trans hle hdigit.2) (by decide)
    simp [inWord, hless]
  · cases h

/-- What starts with digits may stand in a number if what follows them may. -/
theorem inNumber_of_takeDigits {cs : List Char} (h : ∀ c ∈ (Decimal.takeDigits cs).2, inNumber c = true) :
    ∀ c ∈ cs, inNumber c = true := by
  intro c hc
  rw [← List.takeWhile_append_dropWhile (p := fun c => (Decimal.digit? c).isSome) (l := cs)] at hc
  rcases List.mem_append.mp hc with hdigit | hrest
  · have hsome : (Decimal.digit? c).isSome = true :=
      List.mem_takeWhile_imp (p := fun c => (Decimal.digit? c).isSome) hdigit
    exact (inNumber_of_digit hsome).1
  · exact h c hrest

/-- If there are digits at the start, the first character is one. -/
theorem isDigit_of_takeDigits {c : Char} {cs : List Char} (h : (Decimal.takeDigits (c :: cs)).1 ≠ []) :
    (Decimal.digit? c).isSome = true := by
  by_contra hnot
  apply h
  simp [Decimal.takeDigits, hnot]

theorem inNumber_of_exponentOrEnd? {value : List Nat → Nat} {cs : List Char} {exponent : Int}
    (h : Decimal.exponentOrEnd? value cs = some exponent) : ∀ c ∈ cs, inNumber c = true := by
  unfold Decimal.exponentOrEnd? at h
  split at h
  · exact List.forall_mem_nil _
  · rename_i e rest
    split at h
    · rename_i he
      simp only at h
      split at h
      · rename_i hdigits
        have hmark : inNumber e = true := by
          rcases he with rfl | rfl
          · decide
          · decide
        refine List.forall_mem_cons.mpr ⟨hmark, ?_⟩
        have hunsigned := inNumber_of_takeDigits (by rw [hdigits]; exact List.forall_mem_nil _)
        split at hunsigned
        · exact List.forall_mem_cons.mpr ⟨by decide, hunsigned⟩
        · exact List.forall_mem_cons.mpr ⟨by decide, hunsigned⟩
        · exact hunsigned
      · cases h
    · cases h

/-- What a numeral is written with may stand in a number, and starts with no letter. -/
theorem numberSpelling_of_numeral? {spelling : List Char} {n : Numeral} (h : numeral? spelling = some n) :
    NumberSpelling spelling := by
  unfold numeral? at h
  split at h
  rename_i negative unsigned hsign
  have hunsigned : (Decimal.takeDigits unsigned).1 ≠ [] ∧ ∀ c ∈ unsigned, inNumber c = true := by
    split at h
    · cases h
    · cases h
    · split at h
      · cases h
      · -- Digits, a point, digits, and perhaps an exponent.
        rename_i whole afterPoint hwhole _ hdigits _ fraction afterFraction _ hfraction
        obtain ⟨exponent, hexponent, -⟩ := Option.map_eq_some_iff.mp h
        have hafterPoint : ∀ c ∈ afterPoint, inNumber c = true :=
          inNumber_of_takeDigits (by rw [hfraction]; exact inNumber_of_exponentOrEnd? hexponent)
        refine ⟨by rw [hdigits]; exact hwhole, inNumber_of_takeDigits ?_⟩
        rw [hdigits]
        exact List.forall_mem_cons.mpr ⟨by decide, hafterPoint⟩
    · rename_i whole rest hwhole _ _ hdigits
      obtain ⟨exponent, hexponent, -⟩ := Option.map_eq_some_iff.mp h
      refine ⟨by rw [hdigits]; exact hwhole, inNumber_of_takeDigits ?_⟩
      rw [hdigits]
      exact inNumber_of_exponentOrEnd? hexponent
  obtain ⟨hstart, hchars⟩ := hunsigned
  split at hsign
  · rename_i rest
    obtain ⟨-, rfl⟩ := Prod.mk.inj hsign
    exact ⟨by decide, List.forall_mem_cons.mpr ⟨by decide, hchars⟩⟩
  · obtain ⟨-, rfl⟩ := Prod.mk.inj hsign
    cases spelling with
    | nil => exact absurd rfl hstart
    | cons c cs => exact ⟨(inNumber_of_digit (isDigit_of_takeDigits hstart)).2, hchars⟩

end Json

/-! ## Values of numbers that are given back -/

namespace Datum

/-- Of the numbers in a value, those that are finite are given back by documents. -/
def Faithful (d : Datum) : Prop :=
  ∀ x ∈ d.numbers, x.isFinite = true → Json.Rereads x

theorem faithful_list {items : List Datum} : (Datum.list items).Faithful ↔ ∀ d ∈ items, d.Faithful := by
  constructor
  · exact fun h d hd x hx => h x (mem_numbers_list.mpr ⟨d, hd, hx⟩)
  · intro h x hx
    obtain ⟨d, hd, hx⟩ := mem_numbers_list.mp hx
    exact h d hd x hx

theorem faithful_record {entries : List (String × Datum)} :
    (Datum.record entries).Faithful ↔ ∀ e ∈ entries, e.2.Faithful := by
  constructor
  · exact fun h e he x hx => h x (mem_numbers_record.mpr ⟨e, he, hx⟩)
  · intro h x hx
    obtain ⟨e, he, hx⟩ := mem_numbers_record.mp hx
    exact h e he x hx

/-- A number is written as a numeral that is read as the number, or, if it is not finite, not at all. -/
theorem Faithful.number_cases {x : Float} (h : (Datum.number x).Faithful) :
    (∃ spelling n, Decimal.jsonText? x = some spelling ∧ Json.numeral? spelling = some n ∧ n.scaled? = some x ∧
        x.isFinite = true) ∨
      (Decimal.jsonText? x = none ∧ x.isFinite = false) := by
  cases hfinite : x.isFinite with
  | true =>
      have hreread := h x (List.mem_singleton_self x) hfinite
      unfold Json.Rereads Json.rereading? at hreread
      obtain ⟨n, hn, hscaled⟩ := Option.bind_eq_some_iff.mp hreread
      obtain ⟨spelling, hspelling, hnumeral⟩ := Option.bind_eq_some_iff.mp hn
      exact Or.inl ⟨spelling, n, hspelling, hnumeral, hscaled, rfl⟩
  | false =>
      refine Or.inr ⟨?_, rfl⟩
      unfold Decimal.jsonText?
      rw [hfinite]
      rfl

/-! ## The tree of a value -/

mutual

/-- The tree that is read where a value was written. -/
def tree : Datum → Tree
  | .null => .null
  | .bool b => .bool b
  | .number x =>
    match (Decimal.jsonText? x).bind Json.numeral? with
    | some n => .number n
    | none => .null
  | .text s => .text (some s)
  | .list items => .list (itemTrees items)
  | .record entries => .record (entryTrees entries)

/-- The trees of items. -/
def itemTrees : List Datum → List Tree
  | [] => []
  | d :: ds => tree d :: itemTrees ds

/-- The trees of entries. -/
def entryTrees : List (String × Datum) → List (Option String × Tree)
  | [] => []
  | (k, d) :: rest => (some k, tree d) :: entryTrees rest

end

/-! ## Tokens -/

/-- Tokens that may stand behind a value. -/
def Closing (ts : List Token) : Prop :=
  ts.head?.all Token.follows = true ∧ Json.Legible ts

theorem closing_itemTokens {rest : List Token} (hrest : Json.Legible rest) {ds : List Datum}
    (h : ∀ d ∈ ds, ∀ ts, Closing ts → Json.Legible (d.tokens ts)) : Closing (itemTokens rest ds) := by
  induction ds with
  | nil => exact ⟨rfl, .cons trivial rfl hrest⟩
  | cons d ds ih =>
      have htail : Closing (itemTokens rest ds) := ih fun d' hd' => h d' (List.mem_cons_of_mem d hd')
      exact ⟨rfl, .cons trivial rfl (h d List.mem_cons_self _ htail)⟩

theorem closing_entryTokens {rest : List Token} (hrest : Json.Legible rest) {entries : List (String × Datum)}
    (h : ∀ e ∈ entries, ∀ ts, Closing ts → Json.Legible (e.2.tokens ts)) : Closing (entryTokens rest entries) := by
  induction entries with
  | nil => exact ⟨rfl, .cons trivial rfl hrest⟩
  | cons e entries ih =>
      have htail : Closing (entryTokens rest entries) := ih fun e' he' => h e' (List.mem_cons_of_mem e he')
      have hvalue : Json.Legible (e.2.tokens (entryTokens rest entries)) := h e List.mem_cons_self _ htail
      exact ⟨rfl, .cons trivial rfl (.cons trivial rfl (.cons trivial rfl hvalue))⟩

/-- The tokens of a value can be told apart. -/
theorem legible_tokens {d : Datum} (h : d.Faithful) {rest : List Token} (hrest : Closing rest) :
    Json.Legible (d.tokens rest) := by
  induction d using memberInduction generalizing rest with
  | null => exact ⟨trivial, fun _ => hrest.1, hrest.2⟩
  | bool b => exact ⟨trivial, fun _ => hrest.1, hrest.2⟩
  | number x =>
      rw [tokens]
      rcases h.number_cases with ⟨spelling, n, hspelling, hnumeral, -, -⟩ | ⟨hnone, -⟩
      · rw [hspelling]
        exact ⟨Json.numberSpelling_of_numeral? hnumeral, fun _ => hrest.1, hrest.2⟩
      · rw [hnone]
        exact ⟨trivial, fun _ => hrest.1, hrest.2⟩
  | text s => exact .cons trivial rfl hrest.2
  | list items ih =>
      have hitems : ∀ d ∈ items, ∀ ts, Closing ts → Json.Legible (d.tokens ts) :=
        fun d hd ts hts => ih d hd (faithful_list.mp h d hd) hts
      cases items with
      | nil => exact .cons trivial rfl (.cons trivial rfl hrest.2)
      | cons d ds =>
          have htail := closing_itemTokens hrest.2 fun d' hd' => hitems d' (List.mem_cons_of_mem d hd')
          exact .cons trivial rfl (hitems d List.mem_cons_self _ htail)
  | record entries ih =>
      have hentries : ∀ e ∈ entries, ∀ ts, Closing ts → Json.Legible (e.2.tokens ts) :=
        fun e he ts hts => ih e he (faithful_record.mp h e he) hts
      cases entries with
      | nil => exact .cons trivial rfl (.cons trivial rfl hrest.2)
      | cons e entries =>
          have htail := closing_entryTokens hrest.2 fun e' he' => hentries e' (List.mem_cons_of_mem e he')
          have hvalue := hentries e List.mem_cons_self _ htail
          exact .cons trivial rfl (.cons trivial rfl (.cons trivial rfl hvalue))

/-! ## The machine on the tokens of a value -/

theorem run_cons {s s' : State} {t : Token} (h : s.step t = some s') (ts : List Token) :
    s.run (t :: ts) = s'.run ts := by
  rw [State.run, h]

/-- Behind the opening of a list, a value is read as where any value must come: no value starts with a closing
    bracket. -/
theorem run_item (d : Datum) (outer : List Frame) (rest : List Token) :
    State.run (.item outer) (d.tokens rest) = State.run (.value (.list [] :: outer)) (d.tokens rest) := by
  cases d with
  | null => rfl
  | bool b => rfl
  | number x =>
      rw [tokens]
      split
      · rfl
      · rfl
  | text s => rfl
  | list items => cases items <;> rfl
  | record entries => cases entries <;> rfl

/-- A value that is read back, whatever it stands in and whatever follows. -/
def ReadsBack (d : Datum) : Prop :=
  ∀ (outer : List Frame) (rest : List Token),
    State.run (.value outer) (d.tokens rest) = State.run (.after d.tree outer) rest

theorem run_itemTokens {ds : List Datum} (h : ∀ d ∈ ds, d.ReadsBack) (t : Tree) (items : List Tree) (outer : List Frame)
    (rest : List Token) :
    State.run (.after t (.list items :: outer)) (itemTokens rest ds) =
      State.run (.after (.list ((t :: items).reverse ++ itemTrees ds)) outer) rest := by
  induction ds generalizing t items with
  | nil =>
      rw [itemTrees, List.append_nil]
      rfl
  | cons d ds ih =>
      have hd : d.ReadsBack := h d List.mem_cons_self
      rw [itemTokens, run_cons rfl, hd, ih fun d' hd' => h d' (List.mem_cons_of_mem d hd')]
      simp [itemTrees]

theorem run_entryTokens {es : List (String × Datum)} (h : ∀ e ∈ es, e.2.ReadsBack) (k : Option String) (t : Tree)
    (entries : List (Option String × Tree)) (outer : List Frame) (rest : List Token) :
    State.run (.after t (.record entries k :: outer)) (entryTokens rest es) =
      State.run (.after (.record (((k, t) :: entries).reverse ++ entryTrees es)) outer) rest := by
  induction es generalizing k t entries with
  | nil =>
      rw [entryTrees, List.append_nil]
      rfl
  | cons e es ih =>
      have he : e.2.ReadsBack := h e List.mem_cons_self
      rw [entryTokens, run_cons rfl, run_cons rfl, run_cons rfl, he,
        ih fun e' he' => h e' (List.mem_cons_of_mem e he')]
      simp [entryTrees]

/-- **The tokens of a value are read as its tree.** -/
theorem run_tokens {d : Datum} (h : d.Faithful) : d.ReadsBack := by
  induction d using memberInduction with
  | null => exact fun outer rest => rfl
  | bool b => exact fun outer rest => rfl
  | number x =>
      intro outer rest
      rw [tokens, tree]
      rcases h.number_cases with ⟨spelling, n, hspelling, hnumeral, -, -⟩ | ⟨hnone, -⟩
      · rw [hspelling]
        simp [State.run, State.step, State.value?, hnumeral]
      · rw [hnone]
        rfl
  | text s => exact fun outer rest => rfl
  | list items ih =>
      intro outer rest
      have hitems : ∀ d ∈ items, d.ReadsBack := fun d hd => ih d hd (faithful_list.mp h d hd)
      cases items with
      | nil => rfl
      | cons d ds =>
          have hd : d.ReadsBack := hitems d List.mem_cons_self
          rw [tokens, run_cons rfl, run_item, hd, run_itemTokens fun d' hd' => hitems d' (List.mem_cons_of_mem d hd')]
          rfl
  | record entries ih =>
      intro outer rest
      have hentries : ∀ e ∈ entries, e.2.ReadsBack := fun e he => ih e he (faithful_record.mp h e he)
      cases entries with
      | nil => rfl
      | cons e es =>
          have he : e.2.ReadsBack := hentries e List.mem_cons_self
          rw [tokens, run_cons rfl, run_cons rfl, run_cons rfl, he,
            run_entryTokens fun e' he' => hentries e' (List.mem_cons_of_mem e he')]
          rfl

/-- **The text of a value is read as its tree.** -/
theorem tree?_indentedJson {d : Datum} (h : d.Faithful) : Json.tree? d.indentedJson = some d.tree := by
  have hlegible : Json.Legible (d.tokens []) := legible_tokens h ⟨rfl, trivial⟩
  rw [Json.tree?, indentedJson, String.toList_ofList, Json.tokens?_indented hlegible, Option.bind_some, run_tokens h]
  rfl

/-! ## Values of trees -/

theorem items?_itemTrees {depth : Nat} {ds : List Datum} (h : ∀ d ∈ ds, d.tree.datum? depth = some d.storable) :
    Json.items? depth (itemTrees ds) = some (ds.map storable) := by
  induction ds with
  | nil => rfl
  | cons d ds ih =>
      rw [itemTrees, Json.items?, h d List.mem_cons_self, ih fun d' hd' => h d' (List.mem_cons_of_mem d hd')]
      rfl

theorem entries?_entryTrees {depth : Nat} {es : List (String × Datum)}
    (h : ∀ e ∈ es, e.2.tree.datum? depth = some e.2.storable) :
    Json.entries? depth (entryTrees es) = some (mapValues storable es) := by
  induction es with
  | nil => rfl
  | cons e es ih =>
      have he : e.2.tree.datum? depth = some e.2.storable := h e List.mem_cons_self
      have hes : Json.entries? depth (entryTrees es) = some (mapValues storable es) :=
        ih fun e' he' => h e' (List.mem_cons_of_mem e he')
      simp [entryTrees, Json.entries?, he, hes]

/-- **The value that is read from the tree of a value** is what a document keeps of it. -/
theorem datum?_tree {d : Datum} (h : d.Faithful) {depth : Nat} (hdepth : d.nesting ≤ depth) :
    d.tree.datum? depth = some d.storable := by
  induction d using memberInduction generalizing depth with
  | null => rfl
  | bool b => rfl
  | number x =>
      rw [tree, storable]
      rcases h.number_cases with ⟨spelling, n, hspelling, hnumeral, hscaled, hfinite⟩ | ⟨hnone, hinfinite⟩
      · rw [hspelling, Option.bind_some, hnumeral, if_pos hfinite]
        simp [Tree.datum?, hscaled]
      · rw [hnone, hinfinite]
        rfl
  | text s => rfl
  | list items ih =>
      cases depth with
      | zero => exact absurd hdepth (by simp [nesting])
      | succ depth =>
          have hitems : ∀ d ∈ items, d.tree.datum? depth = some d.storable :=
            fun d hd => ih d hd (faithful_list.mp h d hd) (nesting_list_le.mp hdepth d hd)
          rw [tree, Tree.datum?, items?_itemTrees hitems, storable_list]
          rfl
  | record entries ih =>
      cases depth with
      | zero => exact absurd hdepth (by simp [nesting])
      | succ depth =>
          have hentries : ∀ e ∈ entries, e.2.tree.datum? depth = some e.2.storable :=
            fun e he => ih e he (faithful_record.mp h e he) (nesting_record_le.mp hdepth e he)
          rw [tree, Tree.datum?, entries?_entryTrees hentries, storable_record]
          rfl

end Datum

/-! ## What is read at all -/

namespace Json

theorem exists_of_mem_items? {depth : Nat} {ts : List Tree} {ds : List Datum} (h : items? depth ts = some ds) :
    ∀ d ∈ ds, ∃ t ∈ ts, t.datum? depth = some d := by
  induction ts generalizing ds with
  | nil =>
      obtain rfl : [] = ds := Option.some.inj h
      exact List.forall_mem_nil _
  | cons t ts ih =>
      rw [items?] at h
      split at h
      · rename_i d ds' hd hds'
        obtain rfl : d :: ds' = ds := Option.some.inj h
        refine List.forall_mem_cons.mpr ⟨⟨t, List.mem_cons_self, hd⟩, fun d' hd' => ?_⟩
        obtain ⟨t', ht', hread⟩ := ih hds' d' hd'
        exact ⟨t', List.mem_cons_of_mem t ht', hread⟩
      · cases h

theorem exists_of_mem_entries? {depth : Nat} {ts : List (Option String × Tree)} {es : List (String × Datum)}
    (h : entries? depth ts = some es) : ∀ e ∈ es, ∃ t ∈ ts, t.2.datum? depth = some e.2 := by
  induction ts generalizing es with
  | nil =>
      obtain rfl : [] = es := Option.some.inj h
      exact List.forall_mem_nil _
  | cons t ts ih =>
      unfold entries? at h
      split at h
      · rename_i k d es' _ hd hes'
        obtain rfl : (k, d) :: es' = es := Option.some.inj h
        refine List.forall_mem_cons.mpr ⟨⟨t, List.mem_cons_self, hd⟩, fun e' he' => ?_⟩
        obtain ⟨t', ht', hread⟩ := ih hes' e' he'
        exact ⟨t', List.mem_cons_of_mem t ht', hread⟩
      · cases h

/-- **A value that is read** is nested no deeper than allowed, and all its numbers are finite. -/
theorem nesting_and_isFinite_of_datum? {depth : Nat} {t : Tree} {d : Datum} (h : t.datum? depth = some d) :
    d.nesting ≤ depth ∧ ∀ x ∈ d.numbers, x.isFinite = true := by
  induction depth using Nat.strong_induction_on generalizing t d with
  | _ depth ih =>
      unfold Tree.datum? at h
      cases t with
      | null =>
          obtain rfl : Datum.null = d := Option.some.inj h
          exact ⟨Nat.zero_le depth, List.forall_mem_nil _⟩
      | bool b =>
          obtain rfl : Datum.bool b = d := Option.some.inj h
          exact ⟨Nat.zero_le depth, List.forall_mem_nil _⟩
      | number n =>
          obtain ⟨x, hx, rfl⟩ := Option.map_eq_some_iff.mp h
          exact ⟨Nat.zero_le depth, List.forall_mem_singleton.mpr (Decimal.Numeral.isFinite_of_scaled? hx)⟩
      | text content =>
          obtain ⟨s, -, rfl⟩ := Option.map_eq_some_iff.mp h
          exact ⟨Nat.zero_le depth, List.forall_mem_nil _⟩
      | list items =>
          cases depth with
          | zero => cases h
          | succ depth =>
              obtain ⟨ds, hds, rfl⟩ := Option.map_eq_some_iff.mp h
              have hmembers : ∀ d ∈ ds, d.nesting ≤ depth ∧ ∀ x ∈ d.numbers, x.isFinite = true := fun d hd => by
                obtain ⟨t, -, hread⟩ := exists_of_mem_items? hds d hd
                exact ih depth (Nat.lt_succ_self depth) hread
              refine ⟨Datum.nesting_list_le.mpr fun d hd => (hmembers d hd).1, fun x hx => ?_⟩
              obtain ⟨d, hd, hx⟩ := Datum.mem_numbers_list.mp hx
              exact (hmembers d hd).2 x hx
      | record entries =>
          cases depth with
          | zero => cases h
          | succ depth =>
              obtain ⟨es, hes, rfl⟩ := Option.map_eq_some_iff.mp h
              have hmembers : ∀ e ∈ es, e.2.nesting ≤ depth ∧ ∀ x ∈ e.2.numbers, x.isFinite = true := fun e he => by
                obtain ⟨t, -, hread⟩ := exists_of_mem_entries? hes e he
                exact ih depth (Nat.lt_succ_self depth) hread
              refine ⟨Datum.nesting_record_le.mpr fun e he => (hmembers e he).1, fun x hx => ?_⟩
              obtain ⟨e, he, hx⟩ := Datum.mem_numbers_record.mp hx
              exact (hmembers e he).2 x hx

end Json

end AccessPolicy
