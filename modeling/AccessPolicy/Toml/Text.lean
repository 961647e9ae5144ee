import AccessPolicy.Positional
import AccessPolicy.Text.Hex

/-!
# TOML: blanks, comments, keys and texts

The lexical level of TOML. Every reader takes the rest of the document and gives back what it read and what
follows, or nothing if the document does not go on as it must. Where a reader does not go through the document
character by character it takes *fuel*; the length of the document is always enough.

Contents:
* `skipBlanks`, `skipComment`, `lineEnd?`, `skipGap`;
* `basicText?`, `literalText?` and their forms over several lines, `text?`;
* `keyPath?` — a key of one or several parts.
-/

namespace AccessPolicy.Toml

/-! ## Blanks and comments -/

/-- Skips spaces and tabs. -/
def skipBlanks (cs : List Char) : List Char :=
  cs.dropWhile fun c => c == ' ' || c == '\t'

/-- Whether a character may stand in a comment, or in a text unless it delimits or escapes there. -/
def isPrintable (c : Char) : Bool :=
  c == '\t' || (0x20 ≤ c.toNat && c.toNat ≠ 0x7F)

/-- Skips a comment, if one starts here. -/
def skipComment (cs : List Char) : List Char :=
  match cs with
  | '#' :: rest => rest.dropWhile isPrintable
  | cs => cs

/-- What follows a line break. -/
def newline? : List Char → Option (List Char)
  | '\n' :: rest => some rest
  | '\r' :: '\n' :: rest => some rest
  | _ => none

/-- What follows the end of a line, which may bring blanks and a comment first; also the end of the document. -/
def lineEnd? (cs : List Char) : Option (List Char) :=
  match skipComment (skipBlanks cs) with
  | [] => some []
  | cs => newline? cs

/-- Skips blanks, line breaks and comments. -/
def skipGap : (fuel : Nat) → List Char → List Char
  | 0, cs => cs
  | _, [] => []
  | fuel + 1, c :: cs =>
    if c == ' ' || c == '\t' || c == '\n' then skipGap fuel cs
    else if c == '#' then skipGap fuel (skipComment (c :: cs))
    else if c == '\r' then
      match cs with
      | '\n' :: rest => skipGap fuel rest
      | _ => c :: cs
    else c :: cs

/-! ## Texts

The readers of texts are called behind the opening delimiter; `read` holds what has been read, last character
first. -/

/-- The character that an escape of one letter stands for. -/
def escaped? : Char → Option Char
  | 'b' => some '\x08'
  | 'f' => some '\x0c'
  | 'n' => some '\n'
  | 'r' => some '\r'
  | 't' => some '\t'
  | '"' => some '"'
  | '\\' => some '\\'
  | _ => none

/-- The character with a code point written in base sixteen with exactly `count` digits. -/
def codePoint? (count : Nat) (cs : List Char) : Option (Char × List Char) :=
  match (cs.take count).mapM Text.hexValue? with
  | none => none
  | some ds =>
    let n := Positional.valueOf 16 ds
    if ds.length = count ∧ (n < 0xD800 ∨ 0xE000 ≤ n ∧ n < 0x110000) then some (Char.ofNat n, cs.drop count)
    else none

/-- The character that an escape stands for, behind its backslash. -/
def escape? : List Char → Option (Char × List Char)
  | 'u' :: rest => codePoint? 4 rest
  | 'U' :: rest => codePoint? 8 rest
  | c :: rest => (escaped? c).map (·, rest)
  | [] => none

/-- A text in quotes, on one line. -/
def basicText? : (fuel : Nat) → (read : List Char) → List Char → Option (List Char × List Char)
  | 0, _, _ => none
  | _, _, [] => none
  | fuel + 1, read, c :: cs =>
    if c == '"' then some (read.reverse, cs)
    else if c == '\\' then
      match escape? cs with
      | some (e, rest) => basicText? fuel (e :: read) rest
      | none => none
    else if isPrintable c then basicText? fuel (c :: read) cs
    else none

/-- A text in apostrophes, on one line. -/
def literalText? : (read : List Char) → List Char → Option (List Char × List Char)
  | _, [] => none
  | read, c :: cs =>
    if c == '\'' then some (read.reverse, cs)
    else if isPrintable c then literalText? (c :: read) cs
    else none

/-- How many times a delimiter stands at the start of a text, up to five times, and what follows. -/
def takeRun (delimiter : Char) (cs : List Char) : Nat × List Char :=
  let n := ((cs.take 5).takeWhile (· == delimiter)).length
  (n, cs.drop n)

/-- Skips spaces, tabs and line breaks. -/
def skipSpace : List Char → List Char
  | ' ' :: rest | '\t' :: rest | '\n' :: rest | '\r' :: '\n' :: rest => skipSpace rest
  | cs => cs

/-- What follows a backslash that ends its line: all blanks and line breaks are passed over. -/
def continuation? (cs : List Char) : Option (List Char) :=
  (newline? (skipBlanks cs)).map skipSpace

/-- A text in threefold delimiters, which may span lines. The delimiters may be preceded by one or two of the same
    character, which belong to the text. Line breaks are read as line feeds; `escapes` says whether backslashes
    escape. -/
def longText? (delimiter : Char) (escapes : Bool) :
    (fuel : Nat) → (read : List Char) → List Char → Option (List Char × List Char)
  | 0, _, _ => none
  | _, _, [] => none
  | fuel + 1, read, c :: cs =>
    if c == delimiter then
      -- Of up to five in a row the last three close the text, and those before belong to it.
      let (n, rest) := takeRun delimiter (c :: cs)
      if 3 ≤ n then some (read.reverse ++ List.replicate (n - 3) delimiter, rest)
      else longText? delimiter escapes fuel (List.replicate n delimiter ++ read) rest
    else if escapes && c == '\\' then
      match continuation? cs with
      | some rest => longText? delimiter escapes fuel read rest
      | none =>
        match escape? cs with
        | some (e, rest) => longText? delimiter escapes fuel (e :: read) rest
        | none => none
    else
      match newline? (c :: cs) with
      | some rest => longText? delimiter escapes fuel ('\n' :: read) rest
      | none => if isPrintable c then longText? delimiter escapes fuel (c :: read) cs else none

/-- What follows a line break right behind an opening delimiter, which is not part of the text. -/
def skipFirstNewline (cs : List Char) : List Char :=
  (newline? cs).getD cs

/-- A text of any of the four kinds. -/
def text? (fuel : Nat) (cs : List Char) : Option (String × List Char) :=
  let content :=
    match cs with
    | '"' :: '"' :: '"' :: rest => longText? '"' true fuel [] (skipFirstNewline rest)
    | '\'' :: '\'' :: '\'' :: rest => longText? '\'' false fuel [] (skipFirstNewline rest)
    | '"' :: rest => basicText? fuel [] rest
    | '\'' :: rest => literalText? [] rest
    | _ => none
  content.map fun (s, rest) => (String.ofList s, rest)

/-! ## Keys -/

/-- Whether a character may stand in a bare key. -/
def isBare (c : Char) : Bool :=
  ('A' ≤ c && c ≤ 'Z') || ('a' ≤ c && c ≤ 'z') || ('0' ≤ c && c ≤ '9') || c == '-' || c == '_'

/-- One part of a key. -/
def keyPart? (fuel : Nat) (cs : List Char) : Option (String × List Char) :=
  match cs with
  | '"' :: rest => (basicText? fuel [] rest).map fun (s, rest) => (String.ofList s, rest)
  | '\'' :: rest => (literalText? [] rest).map fun (s, rest) => (String.ofList s, rest)
  | cs =>
    match cs.span isBare with
    | ([], _) => none
    | (part, rest) => some (String.ofList part, rest)

/-- The parts of a key, with dots between them and blanks around each; at most `depth` of them. -/
def keyParts? (fuel : Nat) : (depth : Nat) → List Char → Option (List String × List Char)
  | 0, _ => none
  | depth + 1, cs =>
    match keyPart? fuel (skipBlanks cs) with
    | none => none
    | some (part, rest) =>
      match skipBlanks rest with
      | '.' :: rest => (keyParts? fuel depth rest).map fun (parts, rest) => (part :: parts, rest)
      | rest => some ([part], rest)

/-- The deepest nesting of tables by one key, and of lists and tables in one value. -/
def maxDepth : Nat := 79

/-- A key, given as the parts before the last and the last. -/
def keyPath? (fuel : Nat) (cs : List Char) : Option (List String × String × List Char) :=
  match keyParts? fuel maxDepth cs with
  | none => none
  | some (parts, rest) =>
    match parts.reverse with
    | last :: before => some (before.reverse, last, rest)
    | [] => none

end AccessPolicy.Toml
