import AccessPolicy.Proofs.Placeholder.Template

/-!
# Placeholders for lists

A list fills a placeholder with a choice between its items. Lists inside it are written with the same commas and
without braces of their own, so the choice is one between all *leaves*, however deep they lie
(`Datum.Full.itemText_eq`).

The choice is written by rendering and undone by expansion, and nothing but the characters of the text joins the two.
They agree where no leaf can be taken for a delimiter: the parts of the choice are then the leaves
(`cutAll_intercalate`), the braces are those of the placeholder, even at the start of the pattern, and the
alternatives are the template around each leaf (`Template.eq_map_around_of_expand`). A pattern filled with a list
therefore accepts what it accepts filled with one of the leaves (`Template.accepts_iff_of_list`).

Contents:
* `Datum.itemText`, `Datum.leafTexts`, `Datum.Full`;
* `PlainPart`, `choiceBetween`, `cutAll_intercalate`, `Piece.filling_eq_of_follow?`;
* `Template.firstChoice?_around`, `Template.spelledOut_around`, `Template.eq_map_around_of_expand`;
* `Template.accepts_iff_of_choice`, **`Template.accepts_iff_of_list`**.
-/

namespace AccessPolicy

/-! ## The leaves of a value -/

namespace Datum

/-- The text of a value as an item of a list; `null` gives the empty one. -/
def itemText : Datum → String
  | .null => ""
  | d => d.render

theorem renderItems_eq (ds : List Datum) : renderItems ds = ds.map itemText := by
  induction ds with
  | nil => rfl
  | cons d ds ih =>
      rw [List.map_cons, ← ih]
      cases d <;> rfl

mutual

/-- The texts of the leaves of an item, in order. A leaf is whatever is not a list; its text is the one it has as an
    item, so that of `null` is empty. -/
def leafTexts : Datum → List String
  | .list items => leafTextsOfItems items
  | d => [d.itemText]

/-- The texts of the leaves of items. -/
def leafTextsOfItems : List Datum → List String
  | [] => []
  | d :: ds => leafTexts d ++ leafTextsOfItems ds

end

theorem leafTexts_list (items : List Datum) : leafTexts (.list items) = items.flatMap leafTexts := by
  rw [leafTexts]
  induction items with
  | nil => rfl
  | cons d ds ih => rw [leafTextsOfItems, ih, List.flatMap_cons]

theorem leafTexts_of_items?_eq_none {d : Datum} (h : d.items? = none) : leafTexts d = [d.itemText] := by
  cases d with
  | list items => exact absurd h (by simp [items?])
  | _ => rfl

/-- The value is no empty list, and has none among its items at any depth. -/
inductive Full : Datum → Prop where
  | leaf {d : Datum} (h : d.items? = none) : Full d
  | list {items : List Datum} (hne : items ≠ []) (hitems : ∀ d ∈ items, Full d) : Full (.list items)

/-- Texts joined in groups, and then group by group, are joined. -/
theorem intercalate_flatMap {α : Type} (sep : String) {texts : α → List String} {xs : List α}
    (h : ∀ x ∈ xs, texts x ≠ []) :
    sep.intercalate (xs.flatMap texts) = sep.intercalate (xs.map fun x => sep.intercalate (texts x)) := by
  induction xs with
  | nil => rfl
  | cons x xs ih =>
      obtain ⟨hx, hxs⟩ := List.forall_mem_cons.mp h
      cases xs with
      | nil => simp
      | cons y ys =>
          have hrest : (y :: ys).flatMap texts ≠ [] := by
            rw [List.flatMap_cons]
            exact List.append_ne_nil_of_left_ne_nil (hxs y List.mem_cons_self) _
          rw [List.flatMap_cons, String.intercalate_append_of_ne_nil hx hrest, ih hxs]
          simp only [List.map_cons, String.intercalate_cons_cons]

/-- **Lists melt into one:** without empty lists in it, an item is written as its leaves with commas between. -/
theorem Full.itemText_eq {d : Datum} (h : d.Full) :
    d.leafTexts ≠ [] ∧ d.itemText = String.intercalate "," d.leafTexts := by
  induction h with
  | leaf h =>
      rw [leafTexts_of_items?_eq_none h]
      exact ⟨List.cons_ne_nil _ [], String.intercalate_singleton.symm⟩
  | @list items hne hitems ih =>
      obtain ⟨d, ds, rfl⟩ := List.exists_cons_of_ne_nil hne
      rw [leafTexts_list]
      constructor
      · rw [List.flatMap_cons]
        exact List.append_ne_nil_of_left_ne_nil (ih d List.mem_cons_self).1 _
      · -- The commas of an inner list are no different from those of the outer one.
        rw [intercalate_flatMap "," fun x hx => (ih x hx).1, itemText, render, renderItems_eq]
        · congr 1
          apply List.map_congr_left
          intro x hx
          exact (ih x hx).2
        · exact fun heq => absurd heq (by simp)

end Datum

/-! ## A choice between parts -/

/-- A text that is not empty and, between the braces of a choice, is one of its parts. -/
structure PlainPart (cs : List Char) : Prop where
  ne_nil : cs ≠ []
  quiet : Quiet cs
  not_mem_brace : '\x7d' ∉ cs
  not_mem_comma : ',' ∉ cs

instance (cs : List Char) : Decidable (PlainPart cs) :=
  decidable_of_iff (cs ≠ [] ∧ Quiet cs ∧ '\x7d' ∉ cs ∧ ',' ∉ cs)
    ⟨fun ⟨hne, hquiet, hbrace, hcomma⟩ => ⟨hne, hquiet, hbrace, hcomma⟩,
      fun ⟨hne, hquiet, hbrace, hcomma⟩ => ⟨hne, hquiet, hbrace, hcomma⟩⟩

/-- What holds of the comma and of every character of the parts, holds of them joined. -/
theorem forall_intercalate {p : Char → Prop} (hcomma : p ',') {parts : List (List Char)}
    (h : ∀ part ∈ parts, ∀ c ∈ part, p c) : ∀ c ∈ [','].intercalate parts, p c := by
  induction parts with
  | nil => exact fun c hc => absurd hc List.not_mem_nil
  | cons part parts ih =>
      obtain ⟨hpart, hparts⟩ := List.forall_mem_cons.mp h
      cases parts with
      | nil => simpa using hpart
      | cons second parts =>
          rw [List.intercalate_cons_cons]
          exact List.forall_mem_append.mpr
            ⟨List.forall_mem_append.mpr ⟨hpart, List.forall_mem_singleton.mpr hcomma⟩, ih hparts⟩

theorem not_mem_intercalate {d : Char} (hcomma : ',' ≠ d) {parts : List (List Char)} (h : ∀ part ∈ parts, d ∉ part) :
    d ∉ [','].intercalate parts := by
  have hother : ∀ c ∈ [','].intercalate parts, c ≠ d :=
    forall_intercalate hcomma fun part hpart c hc heq => h part hpart (heq ▸ hc)
  exact fun hmem => hother d hmem rfl

/-- **Cutting undoes joining.** -/
theorem cutAll_intercalate {parts : List (List Char)} (hne : parts ≠ []) (h : ∀ part ∈ parts, PlainPart part) :
    cutAll ',' ([','].intercalate parts) = parts := by
  induction parts with
  | nil => exact absurd rfl hne
  | cons part parts ih =>
      obtain ⟨hpart, hparts⟩ := List.forall_mem_cons.mp h
      cases parts with
      | nil => rw [List.intercalate_singleton, cutAll_of_no_cut (cutAt?_of_not_mem hpart.not_mem_comma)]
      | cons second parts =>
          -- The first comma of the text is the one after the first part.
          have hcut := cutAt?_append (by decide) hpart.not_mem_comma hpart.quiet.not_mem_backslash
            ([','].intercalate (second :: parts))
          rw [List.intercalate_cons_cons, List.append_assoc, List.singleton_append, cutAll_of_cutAt? hcut,
            ih (List.cons_ne_nil second parts) hparts]

theorem intercalate_ne_nil {parts : List (List Char)} (hne : parts ≠ []) (h : ∀ part ∈ parts, PlainPart part) :
    [','].intercalate parts ≠ [] := by
  intro hnil
  have hcut := cutAll_intercalate hne h
  rw [hnil, cutAll_of_no_cut rfl] at hcut
  exact (h [] (hcut ▸ List.mem_cons_self)).ne_nil rfl

/-- A pair of braces in front is quoted only if it is empty. -/
theorem quoteLeadingPair_of_firstChoice? {text lead body after : List Char}
    (h : firstChoice? text = some (lead, body, after)) (hbody : body ≠ []) : quoteLeadingPair text = text := by
  unfold quoteLeadingPair
  split
  · rename_i rest
    have hempty : firstChoice? ('\x7b' :: '\x7d' :: rest) = some ([], [], rest) := rfl
    rw [hempty] at h
    obtain ⟨-, rfl, -⟩ : [] = lead ∧ [] = body ∧ rest = after := by simpa using h
    exact absurd rfl hbody
  · rfl

/-- A choice between texts, as it is written. -/
def choiceBetween (parts : List (List Char)) : List Char :=
  '\x7b' :: ([','].intercalate parts ++ ['\x7d'])

theorem isBlank_choiceBetween {parts : List (List Char)} (h : ∀ part ∈ parts, PlainPart part) :
    ∀ c ∈ choiceBetween parts, Text.isBlank c = false := by
  have hjoined : ∀ c ∈ [','].intercalate parts, Text.isBlank c = false :=
    forall_intercalate (by decide) fun part hpart => (h part hpart).quiet.isBlank_eq_false
  exact List.forall_mem_cons.mpr
    ⟨by decide, List.forall_mem_append.mpr ⟨hjoined, List.forall_mem_singleton.mpr (by decide)⟩⟩

/-- A path that leads to a list is filled with a choice between its leaves. -/
theorem Piece.filling_eq_of_follow? {context : Datum} {path : List Char} {items : List Datum}
    (hitems : context.follow? (Datum.steps (String.ofList path)) = some (.list items))
    (hfull : (Datum.list items).Full) :
    filling context path = choiceBetween ((Datum.list items).leafTexts.map String.toList) := by
  have hrender : (Datum.list items).render = String.intercalate "," (Datum.list items).leafTexts :=
    hfull.itemText_eq.2
  rw [filling, Datum.at?, hitems]
  show (Datum.text ("\x7b" ++ (Datum.list items).render ++ "\x7d")).render.toList = _
  rw [Datum.render, hrender, String.toList_append, String.toList_append, String.toList_intercalate]
  rfl

/-! ## Templates filled with a choice -/

namespace Template

variable {parts : List (List Char)}

/-- The first choice of a template around a choice is that choice. -/
theorem firstChoice?_around (t : Template) (h : ∀ part ∈ parts, PlainPart part) :
    firstChoice? (t.around (choiceBetween parts)) = some (t.lead, [','].intercalate parts, t.tail) := by
  have hclose := not_mem_intercalate (by decide) fun part hpart => (h part hpart).not_mem_brace
  have hquote := not_mem_intercalate (by decide) fun part hpart => (h part hpart).quiet.not_mem_backslash
  have htext : t.around (choiceBetween parts) =
      t.lead ++ '\x7b' :: ([','].intercalate parts ++ '\x7d' :: t.tail) := by
    simp [around, choiceBetween]
  rw [htext, firstChoice?, cutAt?_append (by decide) t.lead_quiet.not_mem_brace t.lead_quiet.not_mem_backslash]
  simp only [cutAt?_append (by decide) hclose hquote]

/-- A template around a choice stands for the template around each part. -/
theorem spelledOut_around (t : Template) (hne : parts ≠ []) (h : ∀ part ∈ parts, PlainPart part) :
    spelledOut (t.around (choiceBetween parts)) = parts.map t.around := by
  have hfirst := t.firstChoice?_around h
  rw [eq_of_firstChoice? hfirst, spelledOut_of_choice hfirst,
    spelledOut_of_no_choice t.tail_quiet.firstChoice?_eq_none, joinEach_singleton, ledParts,
    cutAll_intercalate hne h, List.map_map]
  rfl

theorem around_ne_nil (t : Template) {part : List Char} (h : PlainPart part) : t.around part ≠ [] := by
  have hne := h.ne_nil
  simp [around, hne]

/-- If a template around a choice is not refused, its alternatives are the template around each part. No part is empty,
    so no alternative is dropped. -/
theorem eq_map_around_of_expand (t : Template) (hne : parts ≠ []) (h : ∀ part ∈ parts, PlainPart part)
    {found : List (List Char)} (hfound : expand (t.around (choiceBetween parts)) = .ok found) :
    found = parts.map t.around := by
  have hfirst := t.firstChoice?_around h
  have hpair := quoteLeadingPair_of_firstChoice? hfirst (intercalate_ne_nil hne h)
  have hchoice : firstChoice? (quoteLeadingPair (t.around (choiceBetween parts))) ≠ none := by
    rw [hpair, hfirst]
    exact Option.some_ne_none _
  have hkept : (parts.map t.around).filter (!·.isEmpty) = parts.map t.around := by
    rw [List.filter_eq_self]
    intro alternative hmem
    obtain ⟨part, hpart, rfl⟩ := List.mem_map.mp hmem
    simp [t.around_ne_nil (h part hpart)]
  obtain ⟨all, hrun, rfl⟩ := (expand_eq_ok_iff_of_choice hchoice).mp hfound
  rw [eq_of_outcome hrun, joinEach_start, hpair, t.spelledOut_around hne h, hkept]

/-- **A template around a choice** accepts what it accepts around one of the parts, with each of which it compiles. -/
theorem accepts_iff_of_choice (t : Template) (hne : parts ≠ []) (h : ∀ part ∈ parts, PlainPart part) {p : Pattern}
    (hp : Pattern.compile (String.ofList (t.around (choiceBetween parts))) = .ok p) :
    (∀ part ∈ parts, ∃ q, Pattern.compile (String.ofList (t.around part)) = .ok q) ∧
      ∀ candidate, p.accepts candidate = true ↔
        ∃ part ∈ parts, Pattern.matches? (String.ofList (t.around part)) candidate = .ok true := by
  have htrim : Text.trim (String.ofList (t.around (choiceBetween parts))).toList = t.around (choiceBetween parts) := by
    rw [String.toList_ofList, Text.trim_of_forall (t.isBlank_around (isBlank_choiceBetween h))]
  have hfull : Text.trim (String.ofList (t.around (choiceBetween parts))).toList ≠ [] := by
    rw [htrim]
    simp [around, choiceBetween]
  have hpart : ∀ part ∈ parts, Quiet (t.around part) ∧ t.around part ≠ [] := by
    intro part hmem
    exact ⟨t.quiet_around (h part hmem).quiet, t.around_ne_nil (h part hmem)⟩
  obtain ⟨found, hexpand, hcompile⟩ := (Pattern.exists_compile_iff hfull).mp ⟨p, hp⟩
  have hfound := t.eq_map_around_of_expand hne h (htrim ▸ hexpand)
  constructor
  · intro part hmem
    obtain ⟨hquiet, hnonempty⟩ := hpart part hmem
    refine (hquiet.exists_compile_iff hnonempty).mpr (hcompile _ ?_)
    rw [hfound]
    exact List.mem_map_of_mem hmem
  · intro candidate
    rw [Pattern.accepts_iff hfull hexpand hp, hfound]
    constructor
    · rintro ⟨_, halternative, hadmits⟩
      obtain ⟨part, hmem, rfl⟩ := List.mem_map.mp halternative
      obtain ⟨hquiet, hnonempty⟩ := hpart part hmem
      exact ⟨part, hmem, (hquiet.matches?_iff hnonempty).mpr hadmits⟩
    · rintro ⟨part, hmem, haccepts⟩
      obtain ⟨hquiet, hnonempty⟩ := hpart part hmem
      exact ⟨t.around part, List.mem_map_of_mem hmem, (hquiet.matches?_iff hnonempty).mp haccepts⟩

/-- **A list stands for any of its leaves.** Let the path of a template lead to a list, in which there may be lists at
    any depth, but no empty ones, and let its leaves have texts that cannot be taken for more than one part of a choice;
    they may have stars and slashes. If the template, filled from the context, compiles, it accepts a candidate exactly
    if the template around some leaf does; around each of them it compiles. -/
theorem accepts_iff_of_list (t : Template) {context : Datum} {items : List Datum}
    (hitems : context.follow? (Datum.steps (String.ofList t.path)) = some (.list items))
    (hfull : (Datum.list items).Full) (hleaves : ∀ leaf ∈ (Datum.list items).leafTexts, PlainPart leaf.toList)
    {p : Pattern} (hp : Pattern.compile (fill (some context) t.text) = .ok p) :
    (∀ leaf ∈ (Datum.list items).leafTexts, ∃ q, Pattern.compile (String.ofList (t.around leaf.toList)) = .ok q) ∧
      ∀ candidate, p.accepts candidate = true ↔ ∃ leaf ∈ (Datum.list items).leafTexts,
        Pattern.matches? (String.ofList (t.around leaf.toList)) candidate = .ok true := by
  have hne : (Datum.list items).leafTexts.map String.toList ≠ [] := by
    rw [ne_eq, List.map_eq_nil_iff]
    exact hfull.itemText_eq.1
  have hparts : ∀ part ∈ (Datum.list items).leafTexts.map String.toList, PlainPart part :=
    List.forall_mem_map.mpr hleaves
  have hfilling := Piece.filling_eq_of_follow? hitems hfull
  have hblank : ∀ c ∈ Piece.filling context t.path, Text.isBlank c = false := by
    rw [hfilling]
    exact isBlank_choiceBetween hparts
  rw [t.fill_text hblank, hfilling] at hp
  obtain ⟨hcompile, haccepts⟩ := t.accepts_iff_of_choice hne hparts hp
  constructor
  · intro leaf hleaf
    exact hcompile leaf.toList (List.mem_map_of_mem hleaf)
  · intro candidate
    rw [haccepts]
    simp only [List.mem_map, exists_exists_and_eq_and]

/-- The plans of some groups. -/
def groupPlans : Template where
  lead := []
  path := "user.groups".toList
  tail := "/plans/*".toList
  lead_quiet := by decide
  tail_quiet := by decide
  path_readable := by decide

/-- A user in groups, some of them listed within the list, and some with a wildcard or a slash in their names. -/
def memberOfGroups : Datum :=
  .record [("user", .record
    [("groups", .list [.text "dev", .list [.text "ops/eu", .list [.bool true, .text "team*"]]])])]

/-- Each group counts, wherever it is listed. -/
theorem accepts_iff_of_list_memberOfGroups :
    ∃ p, Pattern.compile (fill (some memberOfGroups) groupPlans.text) = .ok p ∧
      ∀ candidate, p.accepts candidate = true ↔ ∃ leaf ∈ ["dev", "ops/eu", "true", "team*"],
        Pattern.matches? (String.ofList (groupPlans.around leaf.toList)) candidate = .ok true := by
  obtain ⟨p, hp⟩ : ∃ p, Pattern.compile (fill (some memberOfGroups) groupPlans.text) = .ok p := ⟨_, rfl⟩
  have hinner : (Datum.list [.bool true, .text "team*"]).Full :=
    .list (by simp) (by simpa using ⟨.leaf rfl, .leaf rfl⟩)
  have hmiddle : (Datum.list [.text "ops/eu", .list [.bool true, .text "team*"]]).Full :=
    .list (by simp) (by simpa using ⟨.leaf rfl, hinner⟩)
  have hfull : (Datum.list [.text "dev", .list [.text "ops/eu", .list [.bool true, .text "team*"]]]).Full :=
    .list (by simp) (by simpa using ⟨.leaf rfl, hmiddle⟩)
  exact ⟨p, hp, (groupPlans.accepts_iff_of_list rfl hfull (by decide) hp).2⟩

end Template

end AccessPolicy
