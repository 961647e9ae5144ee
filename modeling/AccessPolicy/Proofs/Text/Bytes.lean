import AccessPolicy.Proofs.Choice.Text

/-!
# Scanning a text byte by byte

Searching for a delimiter may go over the bytes of a text instead of its characters: it stops at the first byte that is the
delimiter, and jumps over each backslash together with the byte after it. The character that the backslash quotes may have
more bytes than that one, so the search may go on in the middle of a character. It may also jump past the end.

Neither does harm. The bytes of a character that has more than one are all at least 128, so none of them is taken for a
backslash or for an ASCII delimiter, and they are passed over one by one up to the next character (`seek_append`). The
offset that is found is the one that reading character by character gives (`seek_eq`). At such an offset, and right after
it, the text can be sliced (`slice?_append`); so cutting a text by offsets gives its stretches, and never fails
(`sliceAll?_eq`).

Contents:
* `offset`, `unquoted`, `firstUnquoted?` — reading by characters, with offsets;
* `seek`, `slice?`, `sliceAll?` — searching and slicing by bytes;
* `utf8EncodeChar_wide`, `utf8EncodeChar_ascii` — the bytes of a character;
* `seek_backslash`, `seek_target`, `seek_append` — what a search does next;
* **`seek_eq`**, `firstUnquoted?_eq` — where it ends;
* `slice?_append`, `Delimiter`, `seek_of_cutAt?`, **`sliceAll?_eq`**, `exists_sliceAll?` — slices and cuts.
-/

namespace AccessPolicy.Bytes

/-! ## By characters -/

/-- How many bytes a text takes, and so the offset of what comes after it. -/
def offset (before : List Char) : Nat :=
  sumOf Char.utf8Size before

@[simp] theorem offset_nil : offset [] = 0 := rfl

@[simp] theorem offset_cons (c : Char) (cs : List Char) : offset (c :: cs) = c.utf8Size + offset cs :=
  sumOf_cons _ c cs

@[simp] theorem offset_append (cs ds : List Char) : offset (cs ++ ds) = offset cs + offset ds :=
  sumOf_append _ cs ds

theorem utf8ByteSize_ofList (cs : List Char) : (String.ofList cs).utf8ByteSize = offset cs :=
  Glyph.utf8ByteSize_ofList cs

/-- The characters that reading from left to right finds unquoted, each with its offset. A backslash takes the whole
    character after it with it. It is never found itself, even when nothing is left that it could take. -/
def unquoted : (start : Nat) → List Char → List (Nat × Char)
  | _, [] => []
  | _, ['\\'] => []
  | start, '\\' :: c :: rest => unquoted (start + 1 + c.utf8Size) rest
  | start, c :: rest => (start, c) :: unquoted (start + c.utf8Size) rest

/-- The offset of the first unquoted occurrence of a character in a text that stands at an offset. -/
def firstUnquoted? (target : Char) (start : Nat) (text : List Char) : Option Nat :=
  ((unquoted start text).find? fun found => found.2 == target).map Prod.fst

/-! ## By bytes -/

/-- The offset of the first byte from a start on that is the target. A backslash is jumped over, with the byte after it. -/
def seek (bytes : ByteArray) (target : UInt8) (start : Nat) : Option Nat :=
  if h : start < bytes.size then
    if bytes[start] = 0x5C then seek bytes target (start + 2)
    else if bytes[start] = target then some start
    else seek bytes target (start + 1)
  else none
termination_by bytes.size - start

/-- The text between two offsets. There is none unless both are boundaries between characters of the text, or one of its
    ends, and the first is not after the second. -/
def slice? (s : String) (start stop : Nat) : Option String :=
  if h : String.Pos.Raw.IsValid s ⟨start⟩ ∧ String.Pos.Raw.IsValid s ⟨stop⟩ ∧ start ≤ stop then
    some (s.extract (s.pos ⟨start⟩ h.1) (s.pos ⟨stop⟩ h.2.1))
  else none

theorem bounds_of_seek {bytes : ByteArray} {target : UInt8} {start found : Nat} (h : seek bytes target start = some found) :
    start ≤ found ∧ found < bytes.size := by
  fun_induction seek bytes target start with
  | case1 start hlt hquote ih =>
      have hbounds := ih h
      omega
  | case2 start hlt hquote =>
      obtain rfl := Option.some.inj h
      exact ⟨Nat.le_refl _, hlt⟩
  | case3 start hlt hquote htarget ih =>
      have hbounds := ih h
      omega
  | case4 => exact absurd h (by simp)

/-- The slices of a text from a start on, between the places where the separator is found. There are none if one of them
    cannot be taken. -/
def sliceAll? (s : String) (separator : UInt8) (start : Nat) : Option (List String) :=
  match h : seek s.toByteArray separator start with
  | none => (slice? s start s.utf8ByteSize).map fun part => [part]
  | some found =>
    have : start ≤ found ∧ found < s.utf8ByteSize := bounds_of_seek h
    match slice? s start found, sliceAll? s separator (found + 1) with
    | some part, some parts => some (part :: parts)
    | _, _ => none
termination_by s.utf8ByteSize - start

/-! ## The bytes of a character -/

theorem le_toNat_ofNat {n : Nat} (hlow : 128 ≤ n) (hhigh : n < 256) : 128 ≤ (UInt8.ofNat n).toNat := by
  rw [UInt8.toNat_ofNat', Nat.mod_eq_of_lt hhigh]
  exact hlow

/-- All bytes of a character outside ASCII are at least 128, the first and those that continue it. -/
theorem utf8EncodeChar_wide {c : Char} (hc : 128 ≤ c.toNat) : ∀ b ∈ String.utf8EncodeChar c, 128 ≤ b.toNat := by
  have hone : ¬ c.val.toNat ≤ 0x7f := Nat.not_le.mpr hc
  intro b hb
  unfold String.utf8EncodeChar at hb
  rw [if_neg hone] at hb
  split at hb
  · simp only [List.mem_cons, List.not_mem_nil, or_false] at hb
    rcases hb with rfl | rfl
    · exact le_toNat_ofNat (by omega) (by omega)
    · exact le_toNat_ofNat (by omega) (by omega)
  · split at hb
    · simp only [List.mem_cons, List.not_mem_nil, or_false] at hb
      rcases hb with rfl | rfl | rfl
      · exact le_toNat_ofNat (by omega) (by omega)
      · exact le_toNat_ofNat (by omega) (by omega)
      · exact le_toNat_ofNat (by omega) (by omega)
    · simp only [List.mem_cons, List.not_mem_nil, or_false] at hb
      rcases hb with rfl | rfl | rfl | rfl
      · exact le_toNat_ofNat (by omega) (by omega)
      · exact le_toNat_ofNat (by omega) (by omega)
      · exact le_toNat_ofNat (by omega) (by omega)
      · exact le_toNat_ofNat (by omega) (by omega)

theorem utf8Size_ascii {c : Char} (hc : c.toNat < 128) : c.utf8Size = 1 := by
  rw [Char.utf8Size_eq_one_iff, UInt32.le_iff_toNat_le]
  exact Nat.le_of_lt_succ hc

theorem utf8EncodeChar_ascii {c : Char} (hc : c.toNat < 128) : String.utf8EncodeChar c = [c.toUInt8] :=
  String.utf8EncodeChar_eq_singleton (utf8Size_ascii hc)

theorem toNat_toUInt8 {c : Char} (hc : c.toNat < 128) : c.toUInt8.toNat = c.toNat := by
  have hmod : c.toUInt8.toNat = c.toNat % 256 := rfl
  rw [hmod, Nat.mod_eq_of_lt (by omega)]

/-- ASCII characters are told apart by their bytes. -/
theorem toUInt8_inj {c d : Char} (hc : c.toNat < 128) (hd : d.toNat < 128) : c.toUInt8 = d.toUInt8 ↔ c = d := by
  rw [← UInt8.toNat_inj, toNat_toUInt8 hc, toNat_toUInt8 hd, Char.toNat_inj]

/-! ## One search -/

section Search

variable {bytes : ByteArray} {target : UInt8} {start : Nat} {rest : List UInt8}

theorem getElem_of_drop_eq_cons {b : UInt8} (h : bytes.data.toList.drop start = b :: rest) :
    ∃ hlt : start < bytes.size, bytes[start] = b ∧ bytes.data.toList.drop (start + 1) = rest := by
  have hlt : start < bytes.data.toList.length := by
    refine Nat.lt_of_not_le fun hge => ?_
    rw [List.drop_eq_nil_of_le hge] at h
    exact absurd h (by simp)
  rw [List.drop_eq_getElem_cons hlt] at h
  obtain ⟨hb, hrest⟩ := List.cons.inj h
  exact ⟨by simpa using hlt, hb, hrest⟩

theorem seek_end (h : bytes.data.toList.drop start = []) : seek bytes target start = none := by
  have hge : ¬ start < bytes.size := by simpa [List.drop_eq_nil_iff] using h
  rw [seek, dif_neg hge]

theorem seek_backslash (h : bytes.data.toList.drop start = 0x5C :: rest) :
    seek bytes target start = seek bytes target (start + 2) := by
  obtain ⟨hlt, hb, -⟩ := getElem_of_drop_eq_cons h
  rw [seek, dif_pos hlt, if_pos hb]

theorem seek_target (htarget : target ≠ 0x5C) (h : bytes.data.toList.drop start = target :: rest) :
    seek bytes target start = some start := by
  obtain ⟨hlt, hb, -⟩ := getElem_of_drop_eq_cons h
  rw [seek, dif_pos hlt, if_neg (by rw [hb]; exact htarget), if_pos hb]

/-- Bytes that are neither a backslash nor the target are passed over, one by one. -/
theorem seek_append {passed : List UInt8} (hpassed : ∀ b ∈ passed, b ≠ 0x5C ∧ b ≠ target)
    (h : bytes.data.toList.drop start = passed ++ rest) :
    seek bytes target start = seek bytes target (start + passed.length) := by
  induction passed generalizing start with
  | nil => rfl
  | cons b passed ih =>
      obtain ⟨⟨hquote, htarget⟩, hlater⟩ := List.forall_mem_cons.mp hpassed
      obtain ⟨hlt, hb, hdrop⟩ := getElem_of_drop_eq_cons h
      rw [seek, dif_pos hlt, if_neg (by rwa [hb]), if_neg (by rwa [hb]), ih hlater hdrop, List.length_cons]
      congr 1
      omega

end Search

/-! ## Searching in a text -/

theorem length_encode (cs : List Char) : (cs.flatMap String.utf8EncodeChar).length = offset cs := by
  induction cs with
  | nil => rfl
  | cons c cs ih => rw [List.flatMap_cons, List.length_append, String.length_utf8EncodeChar, ih, offset_cons]

/-- The bytes of a text from the offset where a stretch of it starts. -/
theorem drop_offset (before rest : List Char) :
    (String.ofList (before ++ rest)).toByteArray.data.toList.drop (offset before) =
      rest.flatMap String.utf8EncodeChar := by
  rw [String.toByteArray_ofList, List.utf8Encode, List.data_toByteArray, List.toList_toArray, List.flatMap_append]
  exact List.drop_left' (length_encode before)

theorem drop_append {bytes : ByteArray} {start : Nat} {passed rest : List UInt8}
    (h : bytes.data.toList.drop start = passed ++ rest) : bytes.data.toList.drop (start + passed.length) = rest := by
  rw [← List.drop_drop, h, List.drop_left]

/-- Bytes of at least 128 are taken neither for a backslash nor for an ASCII target. -/
theorem ne_of_le_toNat {target : Char} (htarget : target.toNat < 128) {b : UInt8} (h : 128 ≤ b.toNat) :
    b ≠ 0x5C ∧ b ≠ target.toUInt8 := by
  constructor
  · rintro rfl
    exact absurd h (by decide)
  · rintro rfl
    rw [toNat_toUInt8 htarget] at h
    omega

/-- Nor is any byte of a character that is neither of them. -/
theorem ne_of_mem_utf8EncodeChar {c target : Char} (hquote : c ≠ '\\') (hne : c ≠ target)
    (htarget : target.toNat < 128) : ∀ b ∈ String.utf8EncodeChar c, b ≠ 0x5C ∧ b ≠ target.toUInt8 := by
  intro b hb
  by_cases hc : c.toNat < 128
  · rw [utf8EncodeChar_ascii hc, List.mem_singleton] at hb
    have hbackslash : (0x5C : UInt8) = Char.toUInt8 '\\' := rfl
    rw [hb, hbackslash, ne_eq, ne_eq, toUInt8_inj hc (by decide), toUInt8_inj hc htarget]
    exact ⟨hquote, hne⟩
  · exact ne_of_le_toNat htarget (utf8EncodeChar_wide (Nat.le_of_not_lt hc) b hb)

/-- The bytes that continue a character, if any, are at least 128. -/
theorem exists_utf8EncodeChar (c : Char) :
    ∃ first more, String.utf8EncodeChar c = first :: more ∧ ∀ b ∈ more, 128 ≤ b.toNat := by
  by_cases hc : c.toNat < 128
  · exact ⟨c.toUInt8, [], utf8EncodeChar_ascii hc, fun b hb => absurd hb List.not_mem_nil⟩
  · have hwide := utf8EncodeChar_wide (Nat.le_of_not_lt hc)
    cases hbytes : String.utf8EncodeChar c with
    | nil => exact absurd hbytes (by simp)
    | cons first more =>
        rw [hbytes] at hwide
        exact ⟨first, more, rfl, (List.forall_mem_cons.mp hwide).2⟩

/-- A character that neither quotes another nor is a backslash at the very end is no backslash. -/
theorem ne_backslash_of_not_quote {c : Char} {rest : List Char} (hlast : c = '\\' → rest = [] → False)
    (hquote : ∀ (d : Char) (more : List Char), c = '\\' → rest = d :: more → False) : c ≠ '\\' := by
  intro hc
  cases rest with
  | nil => exact hlast hc rfl
  | cons d more => exact hquote d more hc rfl

/-- **Bytes and characters agree,** on any bytes that end in those of a text. The induction is on the reading by characters.
    After a backslash the search may stand in the middle of a character, but whatever is left of that one is passed over. -/
theorem seek_of_drop {bytes : ByteArray} {target : Char} (htarget : target.toNat < 128) {start : Nat} {text : List Char}
    (h : bytes.data.toList.drop start = text.flatMap String.utf8EncodeChar) :
    seek bytes target.toUInt8 start = firstUnquoted? target start text := by
  unfold firstUnquoted?
  fun_induction unquoted start text with
  | case1 start => exact seek_end h
  | case2 start =>
      have hend : bytes.data.toList.drop (start + 2) = [] := by
        rw [← List.drop_drop, h]
        rfl
      rw [seek_backslash h, seek_end hend]
      rfl
  | case3 start c rest ih =>
      obtain ⟨first, more, hbytes, hmore⟩ := exists_utf8EncodeChar c
      have hsize : c.utf8Size = more.length + 1 := by
        rw [← String.length_utf8EncodeChar, hbytes, List.length_cons]
      have hquote : ('\\' :: c :: rest).flatMap String.utf8EncodeChar =
          0x5C :: first :: (more ++ rest.flatMap String.utf8EncodeChar) := by
        rw [List.flatMap_cons, List.flatMap_cons, hbytes]
        rfl
      rw [hquote] at h
      -- The jump ends after the first byte of the quoted character; `more` is what is left of it.
      have hnext : bytes.data.toList.drop (start + 2) = more ++ rest.flatMap String.utf8EncodeChar := by
        rw [← List.drop_drop, h]
        rfl
      have hstart : start + 2 + more.length = start + 1 + c.utf8Size := by omega
      have hrest := drop_append hnext
      rw [hstart] at hrest
      rw [seek_backslash h, seek_append (fun b hb => ne_of_le_toNat htarget (hmore b hb)) hnext, hstart, ih hrest]
  | case4 start c rest hlast hquote ih =>
      have hc := ne_backslash_of_not_quote hlast hquote
      rw [List.flatMap_cons] at h
      rw [List.find?_cons]
      by_cases heq : c = target
      · subst heq
        rw [utf8EncodeChar_ascii htarget] at h
        have hne : c.toUInt8 ≠ 0x5C := fun hbyte => hc ((toUInt8_inj htarget (by decide)).mp hbyte)
        rw [seek_target hne h, beq_self_eq_true]
        rfl
      · have hpassed := drop_append h
        rw [String.length_utf8EncodeChar] at hpassed
        rw [seek_append (ne_of_mem_utf8EncodeChar hc heq htarget) h, String.length_utf8EncodeChar, ih hpassed,
          beq_eq_false_iff_ne.mpr heq]

/-- **A search over bytes finds what reading by characters finds,** from the end of any stretch of a text. -/
theorem seek_eq {target : Char} (htarget : target.toNat < 128) (before rest : List Char) :
    seek (String.ofList (before ++ rest)).toByteArray target.toUInt8 (offset before) =
      firstUnquoted? target (offset before) rest :=
  seek_of_drop htarget (drop_offset before rest)

/-- Where reading by characters finds a character first, the text is cut at it. -/
theorem firstUnquoted?_eq {target : Char} (htarget : target ≠ '\\') (start : Nat) (text : List Char) :
    firstUnquoted? target start text = (cutAt? target text).map fun cut => start + offset cut.1 := by
  unfold firstUnquoted?
  fun_induction unquoted start text with
  | case1 start => rfl
  | case2 start => simp [cutAt?, Ne.symm htarget]
  | case3 start c rest ih =>
      have hbackslash : Char.utf8Size '\\' = 1 := rfl
      rw [ih, cutAt?, Option.map_map]
      congr 1
      funext cut
      simp only [Function.comp_apply, offset_cons, hbackslash]
      omega
  | case4 start c rest hlast hquote ih =>
      have hc := ne_backslash_of_not_quote hlast hquote
      rw [cutAt?_plain target hc, List.find?_cons]
      by_cases heq : c = target
      · rw [if_pos heq, beq_iff_eq.mpr heq]
        rfl
      · rw [if_neg heq, beq_eq_false_iff_ne.mpr heq, ih, Option.map_map]
        congr 1
        funext cut
        simp only [Function.comp_apply, offset_cons]
        omega

/-- A backslash is never found. -/
theorem firstUnquoted?_backslash (start : Nat) (text : List Char) : firstUnquoted? '\\' start text = none := by
  unfold firstUnquoted?
  fun_induction unquoted start text with
  | case1 start => rfl
  | case2 start => rfl
  | case3 start c rest ih => exact ih
  | case4 start c rest hlast hquote ih =>
      rw [List.find?_cons, beq_eq_false_iff_ne.mpr (ne_backslash_of_not_quote hlast hquote)]
      exact ih

/-! ## Slices -/

theorem isValid_offset (before rest : List Char) :
    String.Pos.Raw.IsValid (String.ofList (before ++ rest)) ⟨offset before⟩ := by
  refine String.Pos.Raw.isValid_iff_exists_append.mpr ⟨String.ofList before, String.ofList rest, String.ofList_append, ?_⟩
  ext
  exact (utf8ByteSize_ofList before).symm

/-- Every boundary is the offset of a stretch. -/
theorem exists_of_isValid {s : String} {start : Nat} (h : String.Pos.Raw.IsValid s ⟨start⟩) :
    ∃ before rest : List Char, s = String.ofList (before ++ rest) ∧ start = offset before := by
  obtain ⟨front, back, rfl, hpos⟩ := String.Pos.Raw.isValid_iff_exists_append.mp h
  refine ⟨front.toList, back.toList, ?_, ?_⟩
  · rw [String.ofList_append, String.ofList_toList, String.ofList_toList]
  · rw [← utf8ByteSize_ofList, String.ofList_toList]
    exact congrArg String.Pos.Raw.byteIdx hpos

/-- **The ends of a stretch are boundaries,** and the slice between them is the stretch. -/
theorem slice?_append (before part rest : List Char) :
    slice? (String.ofList (before ++ (part ++ rest))) (offset before) (offset (before ++ part)) =
      some (String.ofList part) := by
  have hstart := isValid_offset before (part ++ rest)
  have hstop := isValid_offset (before ++ part) rest
  rw [List.append_assoc] at hstop
  have hle : offset before ≤ offset (before ++ part) := by
    rw [offset_append]
    exact Nat.le_add_right _ _
  rw [slice?, dif_pos ⟨hstart, hstop, hle⟩]
  refine congrArg some (String.toByteArray_inj.mp ?_)
  rw [String.toByteArray_extract, String.offset_pos, String.offset_pos, String.ofList_append, String.ofList_append,
    String.toByteArray_append, String.toByteArray_append, offset_append]
  calc _ = ((String.ofList part).toByteArray ++ (String.ofList rest).toByteArray).extract 0 (offset part) :=
        ByteArray.extract_append_size_add' (utf8ByteSize_ofList before).symm
    _ = (String.ofList part).toByteArray := ByteArray.extract_append_eq_left (utf8ByteSize_ofList part).symm

theorem utf8ByteSize_of_slice? {s part : String} {start stop : Nat} (h : slice? s start stop = some part) :
    start + part.utf8ByteSize = stop := by
  unfold slice? at h
  split at h
  · rename_i hvalid
    obtain rfl := Option.some.inj h
    have hstop : stop ≤ s.toByteArray.size := hvalid.2.1.le_utf8ByteSize
    rw [← String.size_toByteArray, String.toByteArray_extract, ByteArray.size_extract, String.offset_pos,
      String.offset_pos, Nat.min_eq_left hstop]
    exact Nat.add_sub_of_le hvalid.2.2
  · exact absurd h (by simp)

/-- The last slice goes to the end. -/
theorem slice?_end (before rest : List Char) :
    slice? (String.ofList (before ++ rest)) (offset before) (String.ofList (before ++ rest)).utf8ByteSize =
      some (String.ofList rest) := by
  have hslice := slice?_append before rest []
  rwa [List.append_nil, ← utf8ByteSize_ofList (before ++ rest)] at hslice

/-! ## Cuts -/

/-- A character that a text can be cut at by bytes. -/
structure Delimiter (c : Char) : Prop where
  ascii : c.toNat < 128
  ne_backslash : c ≠ '\\'

instance (c : Char) : Decidable (Delimiter c) :=
  decidable_of_iff (c.toNat < 128 ∧ c ≠ '\\') ⟨fun h => ⟨h.1, h.2⟩, fun h => ⟨h.ascii, h.ne_backslash⟩⟩

section Cuts

variable {target : Char} (htarget : Delimiter target) (before : List Char) {rest part after : List Char}
include htarget

/-- A search finds the end of the first stretch, if there is a cut. -/
theorem seek_of_cutAt? (h : cutAt? target rest = some (part, after)) :
    seek (String.ofList (before ++ rest)).toByteArray target.toUInt8 (offset before) =
      some (offset (before ++ part)) := by
  rw [seek_eq htarget.ascii, firstUnquoted?_eq htarget.ne_backslash, h, offset_append]
  rfl

theorem seek_of_no_cut (h : cutAt? target rest = none) :
    seek (String.ofList (before ++ rest)).toByteArray target.toUInt8 (offset before) = none := by
  rw [seek_eq htarget.ascii, firstUnquoted?_eq htarget.ne_backslash, h]
  rfl

/-- Right after a cut the next stretch starts. -/
theorem offset_cut : offset before + 1 = offset (before ++ [target]) := by
  simp [utf8Size_ascii htarget.ascii]

end Cuts

theorem sliceAll?_of_none {s : String} {separator : UInt8} {start : Nat}
    (h : seek s.toByteArray separator start = none) :
    sliceAll? s separator start = (slice? s start s.utf8ByteSize).map fun part => [part] := by
  rw [sliceAll?]
  split
  · rfl
  · rename_i found hfound
    exact absurd (h.symm.trans hfound) (by simp)

theorem sliceAll?_of_some {s part : String} {parts : List String} {separator : UInt8} {start found : Nat}
    (h : seek s.toByteArray separator start = some found) (hpart : slice? s start found = some part)
    (hparts : sliceAll? s separator (found + 1) = some parts) :
    sliceAll? s separator start = some (part :: parts) := by
  rw [sliceAll?]
  split
  · rename_i hnone
    exact absurd (hnone.symm.trans h) (by simp)
  · rename_i found' hfound
    obtain rfl := Option.some.inj (hfound.symm.trans h)
    simp only [hpart, hparts]

/-- **Slicing at the offsets that are found never fails,** and gives the stretches of the text, from the end of any stretch
    before it. -/
theorem sliceAll?_eq {separator : Char} (hseparator : Delimiter separator) (before rest : List Char) :
    sliceAll? (String.ofList (before ++ rest)) separator.toUInt8 (offset before) =
      some ((cutAll separator rest).map String.ofList) := by
  fun_induction cutAll separator rest generalizing before with
  | case1 rest h =>
      rw [sliceAll?_of_none (seek_of_no_cut hseparator before h), slice?_end]
      rfl
  | case2 rest part after h _ ih =>
      -- The text stays whole: only the place where it is taken apart moves on, behind the separator.
      have htext : before ++ rest = (before ++ part ++ [separator]) ++ after := by
        rw [eq_of_cutAt? h]
        simp
      have hpart := slice?_append before part (separator :: after)
      have hparts := ih (before ++ part ++ [separator])
      rw [← eq_of_cutAt? h] at hpart
      rw [← htext, ← offset_cut hseparator] at hparts
      exact sliceAll?_of_some (seek_of_cutAt? hseparator before h) hpart hparts

/-- Nor does it fail for a backslash, which is never found: the slice is the whole rest of the text. -/
theorem exists_sliceAll? {separator : Char} (hascii : separator.toNat < 128) (before rest : List Char) :
    ∃ parts, sliceAll? (String.ofList (before ++ rest)) separator.toUInt8 (offset before) = some parts ∧
      (separator ≠ '\\' → parts = (cutAll separator rest).map String.ofList) := by
  by_cases hquote : separator = '\\'
  · have hseek := seek_eq hascii before rest
    rw [hquote, firstUnquoted?_backslash] at hseek
    rw [hquote, sliceAll?_of_none hseek, slice?_end]
    exact ⟨_, rfl, fun hne => absurd rfl hne⟩
  · exact ⟨_, sliceAll?_eq ⟨hascii, hquote⟩ before rest, fun _ => rfl⟩

end AccessPolicy.Bytes
