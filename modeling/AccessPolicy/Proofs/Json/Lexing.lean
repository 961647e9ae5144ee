import AccessPolicy.Json.Writer

/-!
# Lexing what was laid out

Tokens that are laid out with one item or entry to a line are read back by the lexer (`tokens?_indented`). Blanks and
line breaks are passed over, quotes give back the text with all its escapes undone, and brackets, commas and colons are
tokens by themselves. Only numbers and words do not say where they end: the lexer goes on to the first character that
cannot stand in them. So the tokens have to be *legible*: behind a number or a word comes a comma, a closing bracket or
the end.

Contents:
* `run_text`, `textOf?_reverse` — texts in quotes;
* `Token.Legible`, `Legible` — tokens that can be told apart;
* `tokensAfter_spell` — one token, with `Token.Ends`, what has to follow it;
* **`tokens?_indented`**.
-/

namespace AccessPolicy.Json

/-- The tokens of the rest of a text, behind those read before, which are given last first. -/
def tokensAfter (tokens : List Token) (cs : List Char) : Option (List Token) :=
  (Lexer.run ⟨.between, tokens⟩ cs).bind Lexer.finish?

namespace Lexer

theorem run_cons {l l' : Lexer} {c : Char} (h : l.step c = some l') (cs : List Char) : l.run (c :: cs) = l'.run cs := by
  rw [run, h]

/-! ## Texts in quotes -/

/-- One character inside quotes is read as its code point, whether or not it was escaped. -/
theorem run_escape (codes : List Nat) (tokens : List Token) (c : Char) (cs : List Char) :
    run ⟨.text codes, tokens⟩ (escape c ++ cs) = run ⟨.text (c.toNat :: codes), tokens⟩ cs := by
  unfold escape
  split
  · rfl
  · rfl
  · rfl
  · rfl
  · rfl
  · rfl
  · rfl
  · rename_i hquote hbackslash _ _ _ _ _
    split
    · -- An escape by number: two zeros, and the code point in two digits.
      rename_i hlow
      have hhigh : Text.hexValue? (Text.hexDigit (c.toNat / 16)) = some (c.toNat / 16) :=
        Text.hexValue?_hexDigit (by omega)
      have hrest : Text.hexValue? (Text.hexDigit (c.toNat % 16)) = some (c.toNat % 16) :=
        Text.hexValue?_hexDigit (by omega)
      have hcode : 16 * (c.toNat / 16) + c.toNat % 16 = c.toNat := Nat.div_add_mod c.toNat 16
      calc run ⟨.text codes, tokens⟩
            ('\\' :: 'u' :: '0' :: '0' :: Text.hexDigit (c.toNat / 16) :: Text.hexDigit (c.toNat % 16) :: cs)
          = run ⟨.hex codes 2 0, tokens⟩ (Text.hexDigit (c.toNat / 16) :: Text.hexDigit (c.toNat % 16) :: cs) := rfl
        _ = run ⟨.hex codes 1 (c.toNat / 16), tokens⟩ (Text.hexDigit (c.toNat % 16) :: cs) := by
            apply run_cons
            simp [step, hhigh]
        _ = run ⟨.text (c.toNat :: codes), tokens⟩ cs := by
            apply run_cons
            simp [step, hrest, hcode]
    · rename_i hlow
      apply run_cons
      rw [step]
      simp only
      rw [if_neg hquote, if_neg hbackslash, if_neg hlow]

theorem run_text (codes : List Nat) (tokens : List Token) (s cs : List Char) :
    run ⟨.text codes, tokens⟩ (s.flatMap escape ++ cs) =
      run ⟨.text ((s.map Char.toNat).reverse ++ codes), tokens⟩ cs := by
  induction s generalizing codes with
  | nil => rfl
  | cons c s ih =>
      rw [List.flatMap_cons, List.append_assoc, run_escape, ih, List.map_cons, List.reverse_cons, List.append_assoc,
        List.singleton_append]

end Lexer

/-- No code point of a character is half of a surrogate pair. -/
theorem toNat_not_surrogate (c : Char) : c.toNat < 0xD800 ∨ 0xE000 ≤ c.toNat := by
  have hvalid := c.valid
  rcases hvalid with h | ⟨h, -⟩
  · exact Or.inl h
  · exact Or.inr h

/-- Code points with no surrogates among them stay as they are. -/
theorem foldl_pairUp {codes : List Nat} (h : ∀ n ∈ codes, n < 0xD800 ∨ 0xE000 ≤ n) (following : List Nat) :
    codes.foldl (fun following code => pairUp code following) following = codes.reverse ++ following := by
  induction codes generalizing following with
  | nil => rfl
  | cons code codes ih =>
      have hcode : pairUp code following = code :: following := by
        have hnot : ¬ (0xD800 ≤ code ∧ code < 0xDC00) := by
          have := h code List.mem_cons_self
          omega
        unfold pairUp
        split
        · rw [if_neg fun hpair => hnot ⟨hpair.1, hpair.2.1⟩]
        · rfl
      rw [List.foldl_cons, hcode, ih (fun n hn => h n (List.mem_cons_of_mem code hn)), List.reverse_cons,
        List.append_assoc, List.singleton_append]

/-- The text of the code points of a text, read last first. -/
theorem textOf?_reverse (s : List Char) : textOf? (s.map Char.toNat).reverse = some (String.ofList s) := by
  have hscalar : ∀ n ∈ (s.map Char.toNat).reverse, n < 0xD800 ∨ 0xE000 ≤ n := by
    intro n hn
    obtain ⟨c, -, rfl⟩ := List.mem_map.mp (List.mem_reverse.mp hn)
    exact toNat_not_surrogate c
  have hall : (s.map Char.toNat).all (fun n => n < 0xD800 || 0xE000 ≤ n) = true := by
    rw [List.all_eq_true]
    intro n hn
    simpa using hscalar n (List.mem_reverse.mpr hn)
  have hback : (s.map Char.toNat).map Char.ofNat = s := by
    rw [List.map_map]
    exact (List.map_congr_left fun c _ => Char.ofNat_toNat c).trans (List.map_id s)
  unfold textOf?
  simp only [foldl_pairUp hscalar, List.reverse_reverse, List.append_nil, hall, if_true, hback]

/-! ## Single tokens -/

/-- A spelling that the lexer takes as one number: it starts like a number, and goes on with characters that may stand
    in one. -/
def NumberSpelling : List Char → Prop
  | [] => False
  | c :: cs => inWord c = false ∧ ∀ d ∈ c :: cs, inNumber d = true

/-- A token that is read as it is spelled. -/
def Token.Legible : Token → Prop
  | .number spelling => NumberSpelling spelling
  | _ => True

/-- Whether a token goes on as long as characters can stand in it. -/
def Token.isOpenEnded : Token → Bool
  | .null | .bool _ | .number _ => true
  | _ => false

/-- Whether the rest of a text ends what comes before it, if that is a number or a word. -/
def Ends (cs : List Char) : Prop :=
  ∀ c ∈ cs.head?, inNumber c = false ∧ inWord c = false

/-- Where a number must end, the lexer ends it: what follows is read as between tokens. -/
theorem tokensAfter_number {spelling : List Char} (tokens : List Token) {cs : List Char} (hends : Ends cs) :
    (Lexer.run ⟨.number spelling, tokens⟩ cs).bind Lexer.finish? =
      tokensAfter (.number spelling.reverse :: tokens) cs := by
  cases cs with
  | nil => rfl
  | cons c cs =>
      obtain ⟨hnumber, -⟩ := hends c rfl
      have hstep : Lexer.step ⟨.number spelling, tokens⟩ c =
          Lexer.step ⟨.between, .number spelling.reverse :: tokens⟩ c := by
        simp [Lexer.step, hnumber]
      rw [tokensAfter, Lexer.run, hstep, Lexer.run]

theorem tokensAfter_word (letters : List Char) {t : Token} (ht : wordToken? letters = some t) (tokens : List Token)
    {cs : List Char} (hends : Ends cs) :
    (Lexer.run ⟨.word letters, tokens⟩ cs).bind Lexer.finish? = tokensAfter (t :: tokens) cs := by
  cases cs with
  | nil => simp [Lexer.run, tokensAfter, Lexer.finish?, ht]
  | cons c cs =>
      obtain ⟨-, hword⟩ := hends c rfl
      have hstep : Lexer.step ⟨.word letters, tokens⟩ c = Lexer.step ⟨.between, t :: tokens⟩ c := by
        simp [Lexer.step, hword, ht]
      rw [tokensAfter, Lexer.run, hstep, Lexer.run]

/-- Inside a number its characters are put to the spelling. -/
theorem run_number {spelling : List Char} (h : ∀ c ∈ spelling, inNumber c = true) (read : List Char)
    (tokens : List Token) (cs : List Char) :
    Lexer.run ⟨.number read, tokens⟩ (spelling ++ cs) = Lexer.run ⟨.number (spelling.reverse ++ read), tokens⟩ cs := by
  induction spelling generalizing read with
  | nil => rfl
  | cons c spelling ih =>
      have hstep : Lexer.step ⟨.number read, tokens⟩ c = some ⟨.number (c :: read), tokens⟩ := by
        simp [Lexer.step, h c List.mem_cons_self]
      rw [List.cons_append, Lexer.run_cons hstep, ih fun d hd => h d (List.mem_cons_of_mem c hd), List.reverse_cons,
        List.append_assoc, List.singleton_append]

/-- A character that may start a number does. -/
theorem start?_number {c : Char} (hnumber : inNumber c = true) (hword : inWord c = false) (tokens : List Token) :
    Lexer.start? tokens c = some ⟨.number [c], tokens⟩ := by
  unfold Lexer.start?
  split
  -- None of the characters that are tokens, blanks or quotes may stand in a number.
  all_goals first
    | exact absurd hnumber (by decide)
    | simp [hnumber, hword]

/-- **One token** is read as it is spelled, if what follows ends it. -/
theorem tokensAfter_spell {t : Token} (ht : t.Legible) {cs : List Char} (hends : t.isOpenEnded = true → Ends cs)
    (tokens : List Token) : tokensAfter tokens (t.spell ++ cs) = tokensAfter (t :: tokens) cs := by
  cases t with
  | listOpen => rfl
  | listClose => rfl
  | recordOpen => rfl
  | recordClose => rfl
  | comma => rfl
  | colon => rfl
  | null => exact tokensAfter_word ['l', 'l', 'u', 'n'] rfl tokens (hends rfl)
  | bool b =>
      cases b with
      | true => exact tokensAfter_word ['e', 'u', 'r', 't'] rfl tokens (hends rfl)
      | false => exact tokensAfter_word ['e', 's', 'l', 'a', 'f'] rfl tokens (hends rfl)
  | number spelling =>
      cases spelling with
      | nil => exact absurd ht id
      | cons c spelling =>
          obtain ⟨hword, hnumber⟩ := ht
          have hstart : Lexer.step ⟨.between, tokens⟩ c = some ⟨.number [c], tokens⟩ :=
            start?_number (hnumber c List.mem_cons_self) hword tokens
          rw [Token.spell, tokensAfter, List.cons_append, Lexer.run_cons hstart,
            run_number fun d hd => hnumber d (List.mem_cons_of_mem c hd), tokensAfter_number tokens (hends rfl),
            List.reverse_append, List.reverse_reverse]
          rfl
  | text content =>
      cases content with
      | none => rfl
      | some s =>
          show ((Lexer.run ⟨.text [], tokens⟩ ((s.toList.flatMap escape ++ ['"']) ++ cs)).bind Lexer.finish?) = _
          rw [List.append_assoc, Lexer.run_text, List.append_nil]
          show tokensAfter (.text (textOf? (s.toList.map Char.toNat).reverse) :: tokens) cs = _
          rw [textOf?_reverse, String.ofList_toList]

/-! ## Layout -/

/-- Whether a token may stand behind a value: it starts with a character that ends any number and any word. -/
def Token.follows : Token → Bool
  | .comma | .listClose | .recordClose => true
  | _ => false

/-- Tokens that can be told apart when they are laid out. -/
def Legible : List Token → Prop
  | [] => True
  | t :: ts => t.Legible ∧ (t.isOpenEnded = true → ts.head?.all Token.follows = true) ∧ Legible ts

/-- A bracket, a comma, a colon or a text needs nothing to end it. -/
theorem Legible.cons {t : Token} {ts : List Token} (ht : t.Legible) (hclosed : t.isOpenEnded = false)
    (hts : Legible ts) : Legible (t :: ts) :=
  ⟨ht, fun hopen => absurd (hclosed.symm.trans hopen) Bool.false_ne_true, hts⟩

/-- The start of a line is passed over. -/
theorem tokensAfter_line (tokens : List Token) (depth : Nat) (cs : List Char) :
    tokensAfter tokens (line depth ++ cs) = tokensAfter tokens cs := by
  have hblanks (n : Nat) : tokensAfter tokens (List.replicate n ' ' ++ cs) = tokensAfter tokens cs := by
    induction n with
    | zero => rfl
    | succ n ih => exact ih
  exact hblanks (2 * depth)

/-- What is laid out behind a value ends it. -/
theorem ends_indented {ts : List Token} (h : ts.head?.all Token.follows = true) (depth : Nat) :
    Ends (indented depth ts) := by
  intro c hc
  match ts with
  | [] => exact absurd hc (by simp [indented])
  | .comma :: ts =>
      obtain rfl : ',' = c := by simpa [indented] using hc
      decide
  | .listClose :: ts =>
      obtain rfl : '\n' = c := by simpa [indented, line] using hc
      decide
  | .recordClose :: ts =>
      obtain rfl : '\n' = c := by simpa [indented, line] using hc
      decide

/-- Tokens that are laid out are read behind those read before. The induction is on the layout. -/
theorem tokensAfter_indented {depth : Nat} {ts : List Token} (h : Legible ts) (tokens : List Token) :
    tokensAfter tokens (indented depth ts) = some (tokens.reverse ++ ts) := by
  fun_induction indented depth ts generalizing tokens with
  | case1 => simp [tokensAfter, Lexer.run, Lexer.finish?]
  | case2 depth ts ih =>
      show tokensAfter (.listClose :: .listOpen :: tokens) (indented depth ts) = _
      rw [ih h.2.2.2.2]
      simp
  | case3 depth ts ih =>
      show tokensAfter (.recordClose :: .recordOpen :: tokens) (indented depth ts) = _
      rw [ih h.2.2.2.2]
      simp
  | case4 depth ts _ ih =>
      show tokensAfter (.listOpen :: tokens) (line (depth + 1) ++ indented (depth + 1) ts) = _
      rw [tokensAfter_line, ih h.2.2]
      simp
  | case5 depth ts _ ih =>
      show tokensAfter (.recordOpen :: tokens) (line (depth + 1) ++ indented (depth + 1) ts) = _
      rw [tokensAfter_line, ih h.2.2]
      simp
  | case6 depth ts ih =>
      rw [tokensAfter_line]
      show tokensAfter (.listClose :: tokens) (indented (depth - 1) ts) = _
      rw [ih h.2.2]
      simp
  | case7 depth ts ih =>
      rw [tokensAfter_line]
      show tokensAfter (.recordClose :: tokens) (indented (depth - 1) ts) = _
      rw [ih h.2.2]
      simp
  | case8 depth ts ih =>
      show tokensAfter (.comma :: tokens) (line depth ++ indented depth ts) = _
      rw [tokensAfter_line, ih h.2.2]
      simp
  | case9 depth ts ih =>
      show tokensAfter (.colon :: tokens) (indented depth ts) = _
      rw [ih h.2.2]
      simp
  | case10 depth t ts _ _ _ _ _ _ _ _ ih =>
      have hends : t.isOpenEnded = true → Ends (indented depth ts) := fun hopen => ends_indented (h.2.1 hopen) depth
      rw [tokensAfter_spell h.1 hends, ih h.2.2]
      simp

/-- **Lexing undoes the layout.** -/
theorem tokens?_indented {ts : List Token} (h : Legible ts) (depth : Nat) : tokens? (indented depth ts) = some ts :=
  tokensAfter_indented h []

end AccessPolicy.Json
