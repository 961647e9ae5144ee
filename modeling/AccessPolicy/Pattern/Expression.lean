import AccessPolicy.Sum
import AccessPolicy.Text.Glyph
import AccessPolicy.Text.Split

/-!
# Expressions: one alternative, written out

An alternative is cut into segments at every `/`, quoted or not. Within a segment a plain `*` stands for any run of
characters other than `/`; a segment that is nothing but stars asks for at least one character. Written out for the
whole candidate this is one flat expression, in which every segment but the first has a `/` in front.

An expression is matched by an automaton, and an automaton is not built if it would take more than two mebibytes
(`Expression.builds`). What it takes is counted on the automaton that reads the candidate from its end, the larger of
the two there are: a state for each byte of a character, and for each run the states that read one character other
than `/` and a fork that leads back to them.

Contents:
* `Token`, `tokens` — what the characters of an alternative stand for;
* `tokenSegments`, `onlyStars` — segments;
* `Expression.Part`, `expression` — the expression for an alternative;
* `Expression.bytes`, `Expression.builds` — what its automaton takes.
-/

namespace AccessPolicy

/-! ## Tokens -/

/-- What a character of an alternative stands for. -/
inductive Token where
  /-- A character that must be matched as it is. -/
  | char (c : Char)
  /-- Any run of characters within a segment. -/
  | star
  /-- The end of one segment and the start of the next. -/
  | separator
  deriving DecidableEq, Repr

/-- A slash separates whether quoted or not; a star is special only when plain. -/
def Token.ofGlyph : Glyph → Token
  | .plain '*' => .star
  | .plain '/' | .quoted '/' => .separator
  | .plain c | .quoted c => .char c

/-- The character a token asks for, a star asking for none. -/
def Token.char? : Token → Option Char
  | .char c => some c
  | .separator => some '/'
  | .star => none

namespace Token

theorem ofGlyph_plain {c : Char} (hstar : c ≠ '*') (hslash : c ≠ '/') : ofGlyph (.plain c) = .char c := by
  unfold ofGlyph
  split <;> simp_all

theorem ofGlyph_plain_eq_star_iff (c : Char) : ofGlyph (.plain c) = .star ↔ c = '*' := by
  unfold ofGlyph
  split <;> simp_all

/-- What separates is the slash. -/
theorem ofGlyph_plain_beq_separator (c : Char) : (ofGlyph (.plain c) == .separator) = (c == '/') := by
  by_cases hstar : c = '*'
  · subst hstar
    decide
  · by_cases hslash : c = '/'
    · subst hslash
      decide
    · rw [ofGlyph_plain hstar hslash, beq_eq_false_iff_ne.mpr hslash]
      rfl

end Token

/-- The tokens of an alternative. -/
def tokens (alternative : List Char) : List Token :=
  (Glyph.read alternative).map Token.ofGlyph

/-- Where nothing is quoted, each character is a token. -/
theorem tokens_of_not_mem {cs : List Char} (h : '\\' ∉ cs) : tokens cs = cs.map fun c => Token.ofGlyph (.plain c) := by
  rw [tokens, Glyph.read_of_not_mem h, List.map_map]
  rfl

/-! ## Segments -/

/-- The segments of tokens. -/
def tokenSegments (ts : List Token) : List (List Token) :=
  splitAll (· == .separator) ts

/-- Whether a segment is nothing but stars, at least one of them. -/
def onlyStars (segment : List Token) : Bool :=
  !segment.isEmpty && segment.all (· == .star)

/-! ## Expressions -/

/-- A part of an expression. -/
inductive Expression.Part where
  | char (c : Char)
  /-- Any characters but `/`, none included. -/
  | run
  /-- Any characters but `/`, at least one. -/
  | someRun
  deriving DecidableEq, Repr

/-- The part for a token. -/
def Token.part : Token → Expression.Part
  | .char c => .char c
  | .star => .run
  | .separator => .char '/'

/-- The parts for a segment. -/
def segmentParts (segment : List Token) : List Expression.Part :=
  if onlyStars segment then [.someRun] else segment.map Token.part

/-- The expression for a whole alternative: the parts of its segments with slashes between. -/
def expression (ts : List Token) : List Expression.Part :=
  [Token.separator.part].intercalate ((tokenSegments ts).map segmentParts)

/-! ## The size of an automaton -/

namespace Expression

/-- How many bytes a state takes. -/
def stateBytes : Nat := 32

/-- How many bytes a state takes that leads to one of several others. -/
def forkBytes (branches : Nat) : Nat :=
  stateBytes + 4 * branches

/-- The characters other than `/` in the ranges that are told apart in UTF-8, each by how many bytes its characters
    have: those below the slash and those above it of one byte, then those of two, three and four bytes. Ranges of
    the same length differ in their first byte and in what may follow it. -/
def otherRanges : List Nat := [1, 1, 2, 3, 3, 3, 3, 4, 4, 4]

/-- How many bytes it takes to read one character other than `/`: a fork into the ranges, a state for each byte of
    each, and one where they meet again. -/
def otherBytes : Nat :=
  forkBytes otherRanges.length + stateBytes * sumOf id otherRanges + stateBytes

/-- How many bytes a part takes. After each character of a run a fork leads back, or on. -/
def Part.bytes : Part → Nat
  | .char c => stateBytes * c.utf8Size
  | .run | .someRun => otherBytes + forkBytes 2

/-- How many bytes an expression takes: what its parts do, and four states for the entry, the two ends of the
    candidate, and success. -/
def bytes (parts : List Part) : Nat :=
  4 * stateBytes + sumOf Part.bytes parts

/-- The most bytes that an expression may take. -/
def maxBytes : Nat := 2 * 1024 * 1024

/-- Whether an automaton is built for an expression. -/
def builds (parts : List Part) : Bool :=
  bytes parts ≤ maxBytes

end Expression

end AccessPolicy
