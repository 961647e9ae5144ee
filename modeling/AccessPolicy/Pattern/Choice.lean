import AccessPolicy.Pattern.Fault
import AccessPolicy.Text.Glyph
import AccessPolicy.Text.Split

/-!
# Choices: what a pattern with braces spells out

`a{b,c}d` spells out `abd` and `acd`. A choice runs from the first plain `{` to the first plain `}` after it, so
choices do not nest; its parts are what stands between plain commas. Quoted characters never delimit, and keep
their backslash in what is spelled out. A `{` that is not closed stands for itself, with all that follows it.

Choices multiply, so the size of the product is computed before each choice is applied, and a product over
budget is refused without being built. Sizes are held in 64 bits; one that would not fit counts as the largest.

Contents:
* `Choice`, `Choice.read` — the choices of a text, and what follows the last;
* `Product` — the openings spelled out so far, with their total size; `Product.apply` extends each by each part;
* `expand` — the alternatives of a pattern.
-/

namespace AccessPolicy

/-! ## Choices -/

/-- A choice between parts, with the text that leads up to it. -/
structure Choice where
  lead : List Glyph
  parts : List (List Glyph)
  deriving DecidableEq, Repr

namespace Choice

/-- The choice with a lead and the text between its braces, both given last glyph first. -/
def ofBody (lead body : List Glyph) : Choice :=
  ⟨lead.reverse, splitAll (· == .plain ',') body.reverse⟩

/-- Reading with the choices found so far, last first, and the lead of the next. Inside braces, `body` holds what
    has been read of them. Lead and body are kept last glyph first. -/
def readOnto : (found : List Choice) → (lead : List Glyph) → (body : Option (List Glyph)) → List Glyph →
    List Choice × List Glyph
  | found, lead, none, g :: gs =>
    if g = .plain '\x7b' then readOnto found lead (some []) gs else readOnto found (g :: lead) none gs
  | found, lead, some body, g :: gs =>
    if g = .plain '\x7d' then readOnto (ofBody lead body :: found) [] none gs
    else readOnto found lead (some (g :: body)) gs
  | found, lead, none, [] => (found.reverse, lead.reverse)
  -- The braces were not closed: the opening one and what follows it belong to the tail.
  | found, lead, some body, [] => (found.reverse, lead.reverse ++ .plain '\x7b' :: body.reverse)

/-- The choices of a text, and what follows the last. -/
def read (gs : List Glyph) : List Choice × List Glyph :=
  readOnto [] [] none gs

/-- The bytes one round of the choice adds: each part with the lead before it. -/
def size (c : Choice) : Nat :=
  sumOf (fun part => Glyph.widths part + Glyph.widths c.lead) c.parts

end Choice

/-! ## The product of the choices so far -/

/-- The openings that the choices read so far spell out, and how many bytes they have together.
    Each opening is kept last glyph first, so that openings with a common start share it. -/
structure Product where
  openings : List (List Glyph)
  bytes : Nat
  deriving DecidableEq, Repr

namespace Product

/-- Before any choice there is one opening, the empty one. -/
def start : Product := ⟨[[]], 0⟩

/-- The most alternatives that one pattern may spell out. -/
def maxAlternatives : Nat := 4096

/-- The most bytes that the alternatives of one pattern may have together. -/
def maxBytes : Nat := 1048576

/-- The largest size that can be held. -/
def maxSize : Nat := UInt64.size - 1

/-- A size as it is held: the largest stands for all that would be larger. -/
def saturate (n : Nat) : Nat :=
  min n maxSize

theorem saturate_of_le {n : Nat} (h : n ≤ maxSize) : saturate n = n :=
  Nat.min_eq_left h

/-- Up to the largest size, what is held is compared as the size itself would be. -/
theorem lt_saturate_iff {bound n : Nat} (h : bound < maxSize) : bound < saturate n ↔ bound < n := by
  unfold saturate
  omega

/-- Refuses sizes over budget. -/
def checkBudget (alternatives bytes : Nat) : Except Pattern.Fault Unit :=
  if maxAlternatives < alternatives ∨ maxBytes < bytes then .error (.expansionTooLarge alternatives bytes)
  else .ok ()

/-- Each opening continued by the lead and each part of a choice in turn. -/
def extend (openings : List (List Glyph)) (c : Choice) : List (List Glyph) :=
  openings.flatMap fun opening =>
    let led := c.lead.reverseAux opening
    c.parts.map fun part => part.reverseAux led

/-- How many openings there will be with one more choice. -/
def countWith (p : Product) (c : Choice) : Nat :=
  saturate (p.openings.length * c.parts.length)

/-- How many bytes the openings will have together with one more choice. -/
def bytesWith (p : Product) (c : Choice) : Nat :=
  saturate (saturate (p.bytes * c.parts.length) + saturate (p.openings.length * c.size))

/-- How many bytes the openings have together once they are closed by a text. -/
def bytesClosed (p : Product) (tail : List Glyph) : Nat :=
  saturate (p.bytes + saturate (p.openings.length * Glyph.widths tail))

/-- The product with one more choice; refused, before it is built, when it would be over budget. -/
def apply (p : Product) (c : Choice) : Except Pattern.Fault Product :=
  match checkBudget (p.countWith c) (p.bytesWith c) with
  | .error f => .error f
  | .ok () => .ok ⟨extend p.openings c, p.bytesWith c⟩

/-- The product with more choices, up to the first that is refused. -/
def applyAll : Product → List Choice → Except Pattern.Fault Product
  | p, [] => .ok p
  | p, c :: cs =>
    match p.apply c with
    | .error f => .error f
    | .ok q => applyAll q cs

/-- The openings closed by the text after the last choice; refused when over budget. -/
def close (p : Product) (tail : List Glyph) : Except Pattern.Fault (List (List Glyph)) :=
  match checkBudget p.openings.length (p.bytesClosed tail) with
  | .error f => .error f
  | .ok () => .ok (p.openings.map fun opening => opening.reverseAux tail)

end Product

/-! ## The alternatives of a pattern -/

/-- A pattern that opens with an empty pair of braces means those two characters. -/
def quoteEmptyPair : List Glyph → List Glyph
  | .plain '\x7b' :: .plain '\x7d' :: rest => .quoted '\x7b' :: .quoted '\x7d' :: rest
  | gs => gs

/-- The alternatives that a pattern spells out, in order. A pattern without a choice is its own single
    alternative, whatever its size; of the others, empty alternatives are dropped. -/
def expandGlyphs (gs : List Glyph) : Except Pattern.Fault (List (List Glyph)) :=
  match Choice.read (quoteEmptyPair gs) with
  | ([], tail) => .ok [tail]
  | (choices, tail) =>
    match Product.start.applyAll choices with
    | .error f => .error f
    | .ok p => (p.close tail).map (·.filter (!·.isEmpty))

/-- `expandGlyphs` on texts. -/
def expand (pattern : List Char) : Except Pattern.Fault (List (List Char)) :=
  (expandGlyphs (Glyph.read pattern)).map (·.map Glyph.write)

end AccessPolicy
