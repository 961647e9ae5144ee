import AccessPolicy.Proofs.Json.Reading
import AccessPolicy.Statement.Document

/-!
# Storing statements

A statement that is written and read again is the statement that documents keep of it: its conditions with `null` for
every expected number that is not finite (`Statement.ofJson_toJson`). What is kept equals the statement exactly when
all expected numbers are finite.

A statement from JSON holds finite numbers only and is nested no deeper than can be read, so it comes back as it was
(`Statement.ofJson_toJson_of_ofJson`). In TOML infinity can be written, and JSON has no way to write it: a condition
that expects it comes back as one that expects `null` (`Statement.beq_iff_of_ofToml`).

Contents:
* `Conditions.datum_of_ofDatum?`, `Conditions.ofDatum?_datum` — conditions as values;
* `Statement.numbers`, `Statement.storable`;
* `Statement.fields`, `Statement.entries` — the fields of a statement, and the record that it is written as, with
  `Declaration.ofFields?_fields` and `Statement.fieldsOf?_entries`;
* **`Statement.ofJson_toJson`**, **`Statement.ofJson_toJson_of_ofJson`**, **`Statement.beq_iff_of_ofToml`**.
-/

namespace AccessPolicy

/-! ## Conditions -/

namespace Conditions

/-- One block of conditions as a value. -/
def blockDatum (block : Keyed Datum) : Datum :=
  .record block.entries

theorem datum_eq (c : Conditions) : c.datum = .record (mapValues blockDatum c.entries) := rfl

/-- What a document keeps of conditions. -/
def storable (c : Conditions) : Conditions :=
  c.map (Keyed.map Datum.storable)

theorem datum_storable (c : Conditions) : c.storable.datum = c.datum.storable := by
  have hblock : (fun block : Keyed Datum => blockDatum (block.map Datum.storable)) =
      fun block => (blockDatum block).storable :=
    funext fun block => (Datum.storable_record block.entries).symm
  rw [datum_eq, datum_eq, Datum.storable_record, mapValues_mapValues, ← hblock]
  exact congrArg Datum.record (mapValues_mapValues blockDatum (Keyed.map Datum.storable) c.entries)

theorem mapValues_blockDatum_of_blocksOf? {blocks : List (String × Datum)} {named : List (String × Keyed Datum)}
    (h : blocksOf? blocks = some named) : mapValues blockDatum named = mapValues Datum.canonical blocks := by
  induction blocks generalizing named with
  | nil =>
      obtain rfl : [] = named := Option.some.inj h
      rfl
  | cons first rest ih =>
      unfold blocksOf? at h
      split at h
      · rename_i heq
        cases heq
      · rename_i name block rest' heq
        obtain ⟨rfl, rfl⟩ := List.cons.inj heq
        obtain ⟨named', hnamed', rfl⟩ := Option.map_eq_some_iff.mp h
        rw [mapValues_cons, mapValues_cons, ih hnamed', Datum.canonical_record]
        rfl
      · cases h

/-- Conditions that are read are the value that is read, with all keys in order. -/
theorem datum_of_ofDatum? {d : Datum} {c : Conditions} (h : ofDatum? d = some c) : c.datum = d.canonical := by
  unfold ofDatum? at h
  split at h
  · rename_i blocks
    obtain ⟨named, hnamed, rfl⟩ := Option.map_eq_some_iff.mp h
    rw [datum_eq, Datum.canonical_record, ← mapValues_blockDatum_of_blocksOf? hnamed, sortEntries_mapValues]
    rfl
  · cases h

theorem blocksOf?_mapValues {blocks : List (String × Keyed Datum)}
    (h : ∀ block ∈ blocks, (blockDatum block.2).Canonical) : blocksOf? (mapValues blockDatum blocks) = some blocks := by
  induction blocks with
  | nil => rfl
  | cons first rest ih =>
      obtain ⟨name, block⟩ := first
      have hkept : Keyed.ofList (block.entries.map fun e => (e.1, e.2.canonical)) = block := by
        cases h (name, block) List.mem_cons_self with
        | record hkeys hvalues =>
            have hentries : ∀ e ∈ block.entries, (e.1, e.2.canonical) = e :=
              fun e he => by rw [(hvalues e he).canonical_eq]
            rw [List.map_congr_left hentries, List.map_id', Keyed.ofList_entries block.increasing]
      have hrest : blocksOf? (mapValues blockDatum rest) = some rest :=
        ih fun later hlater => h later (List.mem_cons_of_mem _ hlater)
      rw [mapValues_cons, blockDatum, blocksOf?, hrest, hkept]
      rfl

/-- Conditions in key order are read back from their value. -/
theorem ofDatum?_datum {c : Conditions} (h : c.datum.Canonical) : ofDatum? c.datum = some c := by
  rw [datum_eq] at h
  cases h with
  | record hkeys hblocks =>
      have hcanonical : ∀ block ∈ c.entries, (blockDatum block.2).Canonical :=
        fun block hblock => hblocks _ (mem_mapValues.mpr ⟨block, hblock, rfl⟩)
      rw [datum_eq, ofDatum?, blocksOf?_mapValues hcanonical, Option.map_some, Keyed.ofList_entries c.increasing]

/-- Conditions are told apart by their values. -/
theorem eq_of_datum_eq {b c : Conditions} (h : b.datum = c.datum) : b = c := by
  have hinjective : Function.Injective fun block : String × Keyed Datum => (block.1, blockDatum block.2) := by
    intro block block' heq
    obtain ⟨hname, hdatum⟩ := Prod.mk.inj heq
    exact Prod.ext hname (Keyed.ext (Datum.record.inj hdatum))
  rw [datum_eq, datum_eq] at h
  exact Keyed.ext (List.map_injective_iff.mpr hinjective (Datum.record.inj h))

end Conditions

/-! ## Statements -/

namespace Statement

/-- The numbers that the conditions of a statement expect, in order. -/
def numbers (s : Statement) : List Float :=
  match s.conditions with
  | none => []
  | some c => c.datum.numbers

theorem mem_numbers {s : Statement} {x : Float} : x ∈ s.numbers ↔ ∃ c ∈ s.conditions, x ∈ c.datum.numbers := by
  unfold numbers
  cases s.conditions with
  | none => simp
  | some c => simp

/-- What a document keeps of a statement. -/
def storable (s : Statement) : Statement :=
  { s with conditions := s.conditions.map Conditions.storable }

theorem storable_beq_iff (s : Statement) : (s.storable == s) = true ↔ ∀ x ∈ s.numbers, x.isFinite = true := by
  have hrest : (s.storable == s) = Conditions.equal? (s.conditions.map Conditions.storable) s.conditions := by
    show Statement.equal s.storable s = _
    simp [equal, storable]
  rw [hrest]
  cases hconditions : s.conditions with
  | none =>
      have hnone : s.numbers = [] := by rw [numbers, hconditions]
      rw [hnone]
      exact iff_of_true rfl (List.forall_mem_nil _)
  | some c =>
      have hsome : s.numbers = c.datum.numbers := by rw [numbers, hconditions]
      rw [hsome, ← Datum.storable_beq_iff, ← Conditions.datum_storable]
      rfl

theorem storable_eq_self {s : Statement} (h : ∀ x ∈ s.numbers, x.isFinite = true) : s.storable = s := by
  have hconditions : s.conditions.map Conditions.storable = s.conditions := by
    cases hs : s.conditions with
    | none => rfl
    | some c =>
        have hsame : c.datum.storable = c.datum :=
          Datum.storable_eq_self fun x hx => h x (mem_numbers.mpr ⟨c, hs, hx⟩)
        exact congrArg some (Conditions.eq_of_datum_eq ((Conditions.datum_storable c).trans hsame))
  unfold storable
  rw [hconditions]

end Statement

/-! ## The fields of a declaration -/

/-- The fields of a record that was written: each entry with the key of a field, with what is kept of its value. -/
theorem fieldsOf?_entryTrees {entries : List (String × Datum)}
    (h : ∀ e ∈ entries, e.2.tree.datum? (Json.maxDepth - 1) = some e.2.storable) :
    fieldsOf? (Datum.entryTrees entries) =
      some (entries.filterMap fun e => (Field.ofKey? e.1).map (·, e.2.storable)) := by
  induction entries with
  | nil => rfl
  | cons e entries ih =>
      obtain ⟨k, d⟩ := e
      have hd : d.tree.datum? (Json.maxDepth - 1) = some d.storable := h (k, d) List.mem_cons_self
      have hrest := ih fun e' he' => h e' (List.mem_cons_of_mem _ he')
      cases hfield : Field.ofKey? k with
      | none => simp [Datum.entryTrees, fieldsOf?, hfield, hrest]
      | some field => simp [Datum.entryTrees, fieldsOf?, hfield, hrest, hd]

theorem Effect.ofName?_name (e : Effect) : Effect.ofName? e.name = some e := by
  cases e with
  | allow => rfl
  | deny => rfl

theorem textsOf?_map_text (ts : List String) : textsOf? (ts.map .text) = some ts := by
  induction ts with
  | nil => rfl
  | cons t ts ih => rw [List.map_cons, textsOf?, ih, Option.map_some]

/-- The fields of the declaration of a statement. -/
def Statement.fields (s : Statement) : List (Field × Datum) :=
  [(.effect, .text s.effect.name), (.action, .list (s.actions.map .text)),
      (.resource, .list (s.resources.map .text))] ++
    match s.conditions with
    | none => []
    | some c => [(.condition, c.datum)]

/-- The fields of a declaration are read as the declaration. -/
theorem Declaration.ofFields?_fields {s : Statement} (h : ∀ c ∈ s.conditions, c.datum.Canonical) :
    Declaration.ofFields? isNull s.fields = some s.declaration := by
  have heffect : orNull (Effect.ofDatum? isNull) (some (.text s.effect.name)) = some (some s.effect) :=
    congrArg (Option.map some) (Effect.ofName?_name s.effect)
  have htexts (ts : List String) : Patterns.ofDatum? (.list (ts.map .text)) = some (.many ts) :=
    congrArg (Option.map Patterns.many) (textsOf?_map_text ts)
  have hnone : orNull Conditions.ofDatum? none = some none := rfl
  unfold Statement.fields
  cases hs : s.conditions with
  | none => simp [Declaration.ofFields?, valueOf?, heffect, htexts, hnone, Statement.declaration, hs]
  | some c =>
      have hcondition : orNull Conditions.ofDatum? (some c.datum) = some (some c) :=
        congrArg (Option.map some) (Conditions.ofDatum?_datum (h c hs))
      simp [Declaration.ofFields?, valueOf?, heffect, htexts, hcondition, Statement.declaration, hs]

namespace Statement

/-! ## The value of a statement -/

/-- The entries of the record that a statement is written as. -/
def entries (s : Statement) : List (String × Datum) :=
  [("effect", .text s.effect.name), ("action", .list (s.actions.map .text)),
      ("resource", .list (s.resources.map .text))] ++
    match s.conditions with
    | none => []
    | some c => [("condition", c.datum)]

theorem datum_declaration (s : Statement) : s.declaration.datum = .record s.entries := by
  unfold entries declaration Declaration.datum
  cases s.conditions with
  | none => rfl
  | some c => rfl

/-- What holds of texts, of lists of texts and of the conditions holds of every value in the record. -/
theorem forall_entries {s : Statement} {P : Datum → Prop} (htext : ∀ t, P (.text t))
    (htexts : ∀ ts : List String, P (.list (ts.map .text))) (hconditions : ∀ c ∈ s.conditions, P c.datum) :
    ∀ e ∈ s.entries, P e.2 := by
  unfold entries
  refine List.forall_mem_append.mpr ⟨?_, ?_⟩
  · exact List.forall_mem_cons.mpr
      ⟨htext _, List.forall_mem_cons.mpr ⟨htexts _, List.forall_mem_singleton.mpr (htexts _)⟩⟩
  · cases hs : s.conditions with
    | none => exact List.forall_mem_nil _
    | some c => exact List.forall_mem_singleton.mpr (hconditions c hs)

theorem numbers_texts (ts : List String) : ∀ x, x ∉ (Datum.list (ts.map .text)).numbers := by
  intro x hx
  obtain ⟨d, hd, hx⟩ := Datum.mem_numbers_list.mp hx
  obtain ⟨t, -, rfl⟩ := List.mem_map.mp hd
  exact List.not_mem_nil hx

theorem faithful_datum {s : Statement} (h : ∀ x ∈ s.numbers, x.isFinite = true → Json.Rereads x) :
    s.declaration.datum.Faithful := by
  rw [datum_declaration, Datum.faithful_record]
  refine forall_entries (fun t x hx => absurd hx List.not_mem_nil) (fun ts x hx => absurd hx (numbers_texts ts x)) ?_
  exact fun c hc x hx => h x (mem_numbers.mpr ⟨c, hc, hx⟩)

/-- A statement is nested one deeper than its conditions. -/
theorem nesting_datum_le {s : Statement} {depth : Nat} (hdepth : 1 ≤ depth)
    (h : ∀ c ∈ s.conditions, c.datum.nesting ≤ depth) : s.declaration.datum.nesting ≤ depth + 1 := by
  rw [datum_declaration, Datum.nesting_record_le]
  refine forall_entries (P := fun d => d.nesting ≤ depth) (fun t => Nat.zero_le depth) (fun ts => ?_) h
  refine le_trans (Datum.nesting_list_le.mpr fun d hd => ?_) hdepth
  obtain ⟨t, -, rfl⟩ := List.mem_map.mp hd
  exact Nat.le_refl 0

/-- The fields that are read where a statement was written are those of what is kept of it. -/
theorem fieldsOf?_entries {s : Statement}
    (h : ∀ e ∈ s.entries, e.2.tree.datum? (Json.maxDepth - 1) = some e.2.storable) :
    fieldsOf? (Datum.entryTrees s.entries) = some s.storable.fields := by
  have htext (t : String) : (Datum.text t).storable = .text t := rfl
  have htexts (ts : List String) : (Datum.list (ts.map .text)).storable = .list (ts.map .text) :=
    Datum.storable_eq_self fun x hx => absurd hx (numbers_texts ts x)
  rw [fieldsOf?_entryTrees h]
  unfold entries fields storable
  cases s.conditions with
  | none => simp [Field.ofKey?, htext, htexts]
  | some c => simp [Field.ofKey?, htext, htexts, Conditions.datum_storable]

/-! ## Writing and reading again -/

/-- **What is read where a statement was written** is what a document keeps of the statement. -/
theorem ofJson_toJson {s : Statement} (hordered : ∀ c ∈ s.conditions, c.datum.Canonical)
    (hnumbers : ∀ x ∈ s.numbers, x.isFinite = true → Json.Rereads x)
    (hdepth : s.declaration.datum.nesting ≤ Json.maxDepth) : ofJson s.toJson = .ok s.storable := by
  have hfaithful := faithful_datum hnumbers
  have htree : Json.tree? s.toJson = some s.declaration.datum.tree := Datum.tree?_indentedJson hfaithful
  have hvalues : ∀ e ∈ s.entries, e.2.tree.datum? (Json.maxDepth - 1) = some e.2.storable := by
    rw [datum_declaration] at hfaithful hdepth
    exact fun e he => Datum.datum?_tree (Datum.faithful_record.mp hfaithful e he)
      (Datum.nesting_record_le.mp hdepth e he)
  have hkept : ∀ c ∈ s.storable.conditions, c.datum.Canonical := by
    intro c hc
    obtain ⟨c', hc', rfl⟩ := Option.map_eq_some_iff.mp hc
    rw [Conditions.datum_storable]
    exact (hordered c' hc').storable
  have hdeclaration : Declaration.ofJson? s.toJson = some s.storable.declaration := by
    rw [Declaration.ofJson?, htree, Option.bind_some, datum_declaration]
    show (fieldsOf? (Datum.entryTrees s.entries)).bind _ = _
    rw [fieldsOf?_entries hvalues, Option.bind_some, Declaration.ofFields?_fields hkept]
  rw [ofJson, hdeclaration]
  show (declare s.storable.declaration).mapError Document.Fault.defect = .ok s.storable
  rw [declare_declaration]
  rfl

end Statement

/-! ## Conditions in documents -/

theorem mem_of_valueOf? {field : Field} {fields : List (Field × Datum)} {value : Datum}
    (h : valueOf? field fields = some (some value)) : (field, value) ∈ fields := by
  unfold valueOf? at h
  split at h
  · cases h
  · rename_i f d hfilter
    obtain rfl : d = value := Option.some.inj (Option.some.inj h)
    have hmem : (f, d) ∈ fields.filter (·.1 == field) := by
      rw [hfilter]
      exact List.mem_cons_self
    obtain ⟨hin, hfield⟩ := List.mem_filter.mp hmem
    obtain rfl : f = field := eq_of_beq hfield
    exact hin
  · cases h

theorem exists_of_orNull {α : Type} {read? : Datum → Option α} {value : Option Datum} {a : α}
    (h : orNull read? value = some (some a)) : ∃ d, value = some d ∧ read? d = some a := by
  unfold orNull at h
  split at h
  · cases h
  · cases h
  · rename_i d _
    obtain ⟨a', ha', heq⟩ := Option.map_eq_some_iff.mp h
    exact ⟨d, rfl, ha'.trans heq⟩

/-- The conditions of a declaration are read from a field of it. -/
theorem Declaration.exists_of_ofFields? {isEmpty : Datum → Bool} {fields : List (Field × Datum)} {d : Declaration}
    (h : Declaration.ofFields? isEmpty fields = some d) {c : Conditions} (hc : d.condition = some c) :
    ∃ value, (Field.condition, value) ∈ fields ∧ Conditions.ofDatum? value = some c := by
  unfold Declaration.ofFields? at h
  simp only [Option.bind_eq_bind, Option.bind_eq_some_iff] at h
  -- Effect, action and resource come first, and do not matter here.
  obtain ⟨_, _, _, _, _, _, _, _, _, _, _, _, _, _, _, _, value, hvalue, condition, hcondition, hd⟩ := h
  obtain rfl := Option.some.inj hd
  obtain rfl : condition = some c := hc
  obtain ⟨given, rfl, hread⟩ := exists_of_orNull hcondition
  exact ⟨given, mem_of_valueOf? hvalue, hread⟩

namespace Statement

theorem conditions_of_declare {d : Declaration} {s : Statement} (h : declare d = .ok s) :
    s.conditions = d.condition :=
  (declare_eq_ok_iff.mp h).2.2.2

/-- The conditions of a statement from fields are one of the values, in key order. -/
theorem exists_of_fields {isEmpty : Datum → Bool} {fields : List (Field × Datum)} {d : Declaration} {s : Statement}
    (hd : Declaration.ofFields? isEmpty fields = some d) (hs : declare d = .ok s) :
    ∀ c ∈ s.conditions, ∃ value, (Field.condition, value) ∈ fields ∧ c.datum = value.canonical := by
  intro c hc
  rw [conditions_of_declare hs] at hc
  obtain ⟨value, hvalue, hread⟩ := Declaration.exists_of_ofFields? hd hc
  exact ⟨value, hvalue, Conditions.datum_of_ofDatum? hread⟩

theorem declare_of_mapError {d : Declaration} {s : Statement}
    (h : (declare d).mapError Document.Fault.defect = .ok s) : declare d = .ok s := by
  cases hd : declare d with
  | error defect =>
      rw [hd] at h
      cases h
  | ok s' =>
      rw [hd] at h
      exact congrArg Except.ok (Except.ok.inj h)

/-! ## Statements from JSON -/

theorem exists_of_mem_fieldsOf? {entries : List (Option String × Json.Tree)} {fields : List (Field × Datum)}
    (h : fieldsOf? entries = some fields) : ∀ f ∈ fields, ∃ t : Json.Tree, t.datum? (Json.maxDepth - 1) = some f.2 := by
  induction entries generalizing fields with
  | nil =>
      obtain rfl : [] = fields := Option.some.inj h
      exact List.forall_mem_nil _
  | cons entry entries ih =>
      obtain ⟨key, t⟩ := entry
      cases key with
      | none => cases h
      | some key =>
          rw [fieldsOf?] at h
          split at h
          · exact ih h
          · split at h
            · rename_i d rest hd hrest
              obtain rfl := Option.some.inj h
              exact List.forall_mem_cons.mpr ⟨⟨t, hd⟩, ih hrest⟩
            · cases h

theorem exists_of_mem_items? {trees : List Json.Tree} {names : List Field} {fields : List (Field × Datum)}
    (h : (Json.items? (Json.maxDepth - 1) trees).map (names.zip ·) = some fields) :
    ∀ f ∈ fields, ∃ t : Json.Tree, t.datum? (Json.maxDepth - 1) = some f.2 := by
  obtain ⟨ds, hds, rfl⟩ := Option.map_eq_some_iff.mp h
  intro f hf
  obtain ⟨t, -, hread⟩ := Json.exists_of_mem_items? hds f.2 (List.of_mem_zip hf).2
  exact ⟨t, hread⟩

/-- Whichever way the fields are given, their values are read with one level taken up by the declaration. -/
theorem exists_of_mem_fieldsOfTree? {t : Json.Tree} {fields : List (Field × Datum)}
    (h : Declaration.fieldsOfTree? t = some fields) :
    ∀ f ∈ fields, ∃ t : Json.Tree, t.datum? (Json.maxDepth - 1) = some f.2 := by
  unfold Declaration.fieldsOfTree? at h
  split at h
  · exact exists_of_mem_fieldsOf? h
  · exact exists_of_mem_items? h
  · exact exists_of_mem_items? h
  · cases h

/-- **A statement from JSON comes back** as it was from the text that it is written as, if documents give back the
    numbers it expects, and equals itself. -/
theorem ofJson_toJson_of_ofJson {text : String} {s : Statement} (h : ofJson text = .ok s)
    (hnumbers : ∀ x ∈ s.numbers, x.isFinite = true → Json.Rereads x) :
    ofJson s.toJson = .ok s ∧ (s == s) = true := by
  have hconditions : ∀ c ∈ s.conditions, c.datum.Canonical ∧ c.datum.nesting ≤ Json.maxDepth - 1 ∧
      ∀ x ∈ c.datum.numbers, x.isFinite = true := by
    unfold ofJson at h
    split at h
    · cases h
    · rename_i d hd
      obtain ⟨fields, hfields, hread⟩ := Option.bind_eq_some_iff.mp hd
      obtain ⟨tree, -, htree⟩ := Option.bind_eq_some_iff.mp hfields
      intro c hc
      obtain ⟨value, hvalue, hdatum⟩ := exists_of_fields hread (declare_of_mapError h) c hc
      obtain ⟨t, ht⟩ := exists_of_mem_fieldsOfTree? htree _ hvalue
      obtain ⟨hnesting, hfinite⟩ := Json.nesting_and_isFinite_of_datum? ht
      rw [hdatum]
      exact ⟨value.canonical_canonical, Datum.nesting_canonical_le hnesting,
        fun x hx => hfinite x (Datum.mem_numbers_of_canonical hx)⟩
  have hfinite : ∀ x ∈ s.numbers, x.isFinite = true := fun x hx => by
    obtain ⟨c, hc, hx⟩ := mem_numbers.mp hx
    exact (hconditions c hc).2.2 x hx
  have hdepth : s.declaration.datum.nesting ≤ Json.maxDepth :=
    nesting_datum_le (by decide) fun c hc => (hconditions c hc).2.1
  have hback := ofJson_toJson (fun c hc => (hconditions c hc).1) hnumbers hdepth
  have hequal := (storable_beq_iff s).mpr hfinite
  rw [storable_eq_self hfinite] at hback hequal
  exact ⟨hback, hequal⟩

/-- A document that is read, with the numbers that are expected and the nesting of the whole. -/
theorem exists_of_read {result : Except Document.Fault Statement} {xs : List Float} {n : Nat}
    (h : (result.toOption.map fun s => (s.numbers, s.declaration.datum.nesting)) = some (xs, n)) :
    ∃ s, result = .ok s ∧ s.numbers = xs ∧ s.declaration.datum.nesting = n := by
  cases result with
  | error fault => cases h
  | ok s =>
      obtain ⟨hnumbers, hnesting⟩ := Prod.mk.inj (Option.some.inj h)
      exact ⟨s, rfl, hnumbers, hnesting⟩

/-- A statement in JSON with a single action, and a list among what is expected. -/
def nestedJson : String :=
  "\x7b\"Action\": \"read\", \"resource\": [\"docs/*\"], " ++
    "\"condition\": \x7b\"Less\": \x7b\"size\": [1024.5, \x7b\"b\": -0.0\x7d]\x7d\x7d\x7d"

theorem ofJson_toJson_of_ofJson_nestedJson :
    ∃ s, ofJson nestedJson = .ok s ∧ s.numbers = [1024.5, -0.0] ∧ ofJson s.toJson = .ok s ∧ (s == s) = true := by
  obtain ⟨s, hread, hnumbers, -⟩ :
      ∃ s, ofJson nestedJson = .ok s ∧ s.numbers = [1024.5, -0.0] ∧ s.declaration.datum.nesting = 5 :=
    exists_of_read (by decide +kernel)
  have hback : ∀ x ∈ s.numbers, x.isFinite = true → Json.Rereads x := by
    rw [hnumbers]
    decide +kernel
  exact ⟨s, hread, hnumbers, ofJson_toJson_of_ofJson hread hback⟩

/-! ## Statements from TOML -/

theorem canonical_of_ofToml {text : String} {s : Statement} (h : ofToml text = .ok s) :
    ∀ c ∈ s.conditions, c.datum.Canonical := by
  unfold ofToml at h
  split at h
  · cases h
  · rename_i d hd
    obtain ⟨entries, -, hread⟩ := Option.bind_eq_some_iff.mp hd
    intro c hc
    obtain ⟨value, -, hdatum⟩ := exists_of_fields hread (declare_of_mapError h) c hc
    rw [hdatum]
    exact value.canonical_canonical

/-- **A statement from TOML comes back** from the text that it is written as, and equals the first exactly when all the
    numbers that it expects are finite. -/
theorem beq_iff_of_ofToml {text : String} {s : Statement} (h : ofToml text = .ok s)
    (hnumbers : ∀ x ∈ s.numbers, x.isFinite = true → Json.Rereads x)
    (hdepth : s.declaration.datum.nesting ≤ Json.maxDepth) :
    ∃ copy, ofJson s.toJson = .ok copy ∧ ((copy == s) = true ↔ ∀ x ∈ s.numbers, x.isFinite = true) :=
  ⟨s.storable, ofJson_toJson (canonical_of_ofToml h) hnumbers hdepth, storable_beq_iff s⟩

/-- A statement in TOML that expects less than a number. -/
def boundedToml : String :=
  "action = \"a\"\nresource = \"b\"\n[condition.Less]\nsize = 1024.5\n"

theorem beq_iff_of_ofToml_boundedToml :
    ∃ s copy, ofToml boundedToml = .ok s ∧ s.numbers = [1024.5] ∧ s.declaration.datum.nesting ≤ Json.maxDepth ∧
      ofJson s.toJson = .ok copy ∧ (copy == s) = true := by
  obtain ⟨s, hread, hnumbers, hnesting⟩ :
      ∃ s, ofToml boundedToml = .ok s ∧ s.numbers = [1024.5] ∧ s.declaration.datum.nesting = 3 :=
    exists_of_read (by decide +kernel)
  have hdepth : s.declaration.datum.nesting ≤ Json.maxDepth := by
    rw [hnesting]
    decide
  have hback : ∀ x ∈ s.numbers, x.isFinite = true → Json.Rereads x := by
    rw [hnumbers]
    decide +kernel
  obtain ⟨copy, hcopy, hequal⟩ := beq_iff_of_ofToml hread hback hdepth
  have hfinite : ∀ x ∈ s.numbers, x.isFinite = true := by
    rw [hnumbers]
    decide +kernel
  exact ⟨s, copy, hread, hnumbers, hdepth, hcopy, hequal.mpr hfinite⟩

/-- A statement in TOML that expects less than infinity, as any finite number is. -/
def unboundedToml : String :=
  "action = \"a\"\nresource = \"b\"\n[condition.Less]\nsize = inf\n"

/-- The bound is lost: where the statement was written, a statement is read that expects less than `null`. -/
theorem unboundedToml_altered :
    ∃ s copy, ofToml unboundedToml = .ok s ∧ (∀ x ∈ s.numbers, x.isNaN = false) ∧
      s.declaration.datum.nesting ≤ Json.maxDepth ∧ ofJson s.toJson = .ok copy ∧ (copy == s) = false := by
  obtain ⟨s, hread, hnumbers, hnesting⟩ :
      ∃ s, ofToml unboundedToml = .ok s ∧ s.numbers = [Decimal.infinity] ∧ s.declaration.datum.nesting = 3 :=
    exists_of_read (by decide +kernel)
  have hdepth : s.declaration.datum.nesting ≤ Json.maxDepth := by
    rw [hnesting]
    decide
  have hnan : ∀ x ∈ s.numbers, x.isNaN = false := by
    rw [hnumbers]
    decide +kernel
  have hinfinite : ∀ x ∈ s.numbers, x.isFinite = false := by
    rw [hnumbers]
    decide +kernel
  have hback : ∀ x ∈ s.numbers, x.isFinite = true → Json.Rereads x := fun x hx hfinite =>
    absurd ((hinfinite x hx).symm.trans hfinite) Bool.false_ne_true
  have hmem : Decimal.infinity ∈ s.numbers := by
    rw [hnumbers]
    exact List.mem_singleton_self Decimal.infinity
  have haltered : (s.storable == s) = false := by
    rw [Bool.eq_false_iff, ne_eq, storable_beq_iff]
    exact fun hall => absurd ((hinfinite _ hmem).symm.trans (hall _ hmem)) Bool.false_ne_true
  exact ⟨s, s.storable, hread, hnan, hdepth, ofJson_toJson (canonical_of_ofToml hread) hback hdepth, haltered⟩

end Statement

end AccessPolicy
