import AccessPolicy.Text.Hex

/-!
# JSON tokens

A JSON text is a sequence of tokens with blanks between them. The lexer is a machine that reads one character at a
time: `Mode` says what it is in the middle of. What a number or a text token holds is judged later, by those who
use it: a number token keeps its spelling, and a text token whose escapes name half of a surrogate pair holds no
text.

Contents:
* `Token`, and how tokens are spelled;
* `Mode`, `Lexer`, `Lexer.step` — the machine;
* `tokens?` — the tokens of a text.
-/

namespace AccessPolicy.Json

/-- A token of a JSON text. -/
inductive Token where
  | listOpen
  | listClose
  | recordOpen
  | recordClose
  | comma
  | colon
  | null
  | bool (b : Bool)
  /-- A number, as spelled. -/
  | number (spelling : List Char)
  /-- A text; none if an escape names half of a surrogate pair. -/
  | text (content : Option String)
  deriving DecidableEq, Repr

/-! ## Spelling -/

/-- A character as it is written inside quotes. -/
def escape (c : Char) : List Char :=
  match c with
  | '"' => ['\\', '"']
  | '\\' => ['\\', '\\']
  | '\x08' => ['\\', 'b']
  | '\x0c' => ['\\', 'f']
  | '\n' => ['\\', 'n']
  | '\r' => ['\\', 'r']
  | '\t' => ['\\', 't']
  | c =>
    if c.toNat < 0x20 then ['\\', 'u', '0', '0', Text.hexDigit (c.toNat / 16), Text.hexDigit (c.toNat % 16)]
    else [c]

/-- A text in quotes. -/
def quote (s : String) : List Char :=
  '"' :: (s.toList.flatMap escape ++ ['"'])

/-- The characters that spell a token. -/
def Token.spell : Token → List Char
  | .listOpen => ['[']
  | .listClose => [']']
  | .recordOpen => ['\x7b']
  | .recordClose => ['\x7d']
  | .comma => [',']
  | .colon => [':']
  | .null => ['n', 'u', 'l', 'l']
  | .bool true => ['t', 'r', 'u', 'e']
  | .bool false => ['f', 'a', 'l', 's', 'e']
  | .number spelling => spelling
  | .text (some s) => quote s
  | .text none => ['"', '\\', 'u', 'd', '8', '0', '0', '"']

/-! ## The machine -/

/-- What the lexer is in the middle of. What has been read of a token is kept last character first. -/
inductive Mode where
  | between
  /-- In a word of lower-case letters. -/
  | word (letters : List Char)
  /-- In a number. -/
  | number (spelling : List Char)
  /-- Inside quotes, with the code points read; an escape may give half of a surrogate pair. -/
  | text (codes : List Nat)
  /-- After a backslash inside quotes. -/
  | escape (codes : List Nat)
  /-- In an escape by number, with the digits still owed and the value of those read. -/
  | hex (codes : List Nat) (owed value : Nat)
  deriving DecidableEq, Repr

/-- The lexer: its mode, and the tokens read, last first. -/
structure Lexer where
  mode : Mode
  tokens : List Token

/-- A code point, put before those that follow it; a high and a low surrogate in a row are one character. -/
def pairUp (code : Nat) (following : List Nat) : List Nat :=
  match following with
  | low :: rest =>
    -- A high half followed by a low half.
    if 0xD800 ≤ code ∧ code < 0xDC00 ∧ 0xDC00 ≤ low ∧ low < 0xE000 then
      (0x10000 + (code - 0xD800) * 0x400 + (low - 0xDC00)) :: rest
    else code :: following
  | [] => [code]

/-- The text of code points, last first; none if half of a surrogate pair is left over. -/
def textOf? (codes : List Nat) : Option String :=
  let paired := codes.foldl (fun following code => pairUp code following) []
  if paired.all (fun n => n < 0xD800 || 0xE000 ≤ n) then some (String.ofList (paired.map Char.ofNat)) else none

/-- The token that a word is. -/
def wordToken? (letters : List Char) : Option Token :=
  match letters.reverse with
  | ['n', 'u', 'l', 'l'] => some .null
  | ['t', 'r', 'u', 'e'] => some (.bool true)
  | ['f', 'a', 'l', 's', 'e'] => some (.bool false)
  | _ => none

/-- The code point that the character after a backslash stands for. -/
def escaped? : Char → Option Nat
  | '"' => some 0x22
  | '\\' => some 0x5C
  | '/' => some 0x2F
  | 'b' => some 0x08
  | 'f' => some 0x0C
  | 'n' => some 0x0A
  | 'r' => some 0x0D
  | 't' => some 0x09
  | _ => none

/-- Whether a character may stand in the spelling of a number. -/
def inNumber (c : Char) : Bool :=
  ('0' ≤ c && c ≤ '9') || c == '-' || c == '+' || c == '.' || c == 'e' || c == 'E'

/-- Whether a character may stand in a word. -/
def inWord (c : Char) : Bool :=
  'a' ≤ c && c ≤ 'z'

namespace Lexer

/-- One character between tokens. -/
def start? (tokens : List Token) (c : Char) : Option Lexer :=
  match c with
  | ' ' | '\t' | '\n' | '\r' => some ⟨.between, tokens⟩
  | '[' => some ⟨.between, .listOpen :: tokens⟩
  | ']' => some ⟨.between, .listClose :: tokens⟩
  | '\x7b' => some ⟨.between, .recordOpen :: tokens⟩
  | '\x7d' => some ⟨.between, .recordClose :: tokens⟩
  | ',' => some ⟨.between, .comma :: tokens⟩
  | ':' => some ⟨.between, .colon :: tokens⟩
  | '"' => some ⟨.text [], tokens⟩
  | c =>
    if inWord c then some ⟨.word [c], tokens⟩
    else if inNumber c then some ⟨.number [c], tokens⟩
    else none

/-- One character. A word and a number end where a character comes that cannot stand in them. -/
def step (l : Lexer) (c : Char) : Option Lexer :=
  match l.mode with
  | .between => start? l.tokens c
  | .word letters =>
    if inWord c then some ⟨.word (c :: letters), l.tokens⟩
    -- The character that ends a word is not part of it, and starts whatever comes next.
    else (wordToken? letters).bind fun t => start? (t :: l.tokens) c
  | .number spelling =>
    if inNumber c then some ⟨.number (c :: spelling), l.tokens⟩
    else start? (.number spelling.reverse :: l.tokens) c
  | .text codes =>
    if c = '"' then some ⟨.between, .text (textOf? codes) :: l.tokens⟩
    else if c = '\\' then some ⟨.escape codes, l.tokens⟩
    else if c.toNat < 0x20 then none
    else some ⟨.text (c.toNat :: codes), l.tokens⟩
  | .escape codes =>
    if c = 'u' then some ⟨.hex codes 4 0, l.tokens⟩
    else (escaped? c).map fun code => ⟨.text (code :: codes), l.tokens⟩
  | .hex codes owed value =>
    (Text.hexValue? c).map fun digit =>
      if owed ≤ 1 then ⟨.text ((16 * value + digit) :: codes), l.tokens⟩
      else ⟨.hex codes (owed - 1) (16 * value + digit), l.tokens⟩

/-- All characters in turn. -/
def run : Lexer → List Char → Option Lexer
  | l, [] => some l
  | l, c :: cs =>
    match l.step c with
    | some l' => run l' cs
    | none => none

/-- The tokens in order, if the text may end here. -/
def finish? (l : Lexer) : Option (List Token) :=
  match l.mode with
  | .between => some l.tokens.reverse
  | .word letters => (wordToken? letters).map fun t => (t :: l.tokens).reverse
  | .number spelling => some (.number spelling.reverse :: l.tokens).reverse
  | _ => none

end Lexer

/-- The tokens of a text. -/
def tokens? (cs : List Char) : Option (List Token) :=
  (Lexer.run ⟨.between, []⟩ cs).bind Lexer.finish?

end AccessPolicy.Json
