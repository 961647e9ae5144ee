/-!
# Blank characters

Which characters count as blank, and the two things done with them: cutting them off the ends of a text
(`trim`) and reducing each run of them to one character (`squeeze`).

Contents:
* `isBlank` — the Unicode property `White_Space`;
* `trimStart`, `trimEnd`, `trim`;
* `squeeze`, with its two unfolding equations, and `tidy`, the form in which filled-in patterns are kept.
-/

namespace AccessPolicy.Text

/-- Whether a character has the Unicode property `White_Space`. -/
def isBlank (c : Char) : Bool :=
  let n := c.toNat
  (0x09 ≤ n && n ≤ 0x0D) || n == 0x20 || n == 0x85 || n == 0xA0 || n == 0x1680 ||
    (0x2000 ≤ n && n ≤ 0x200A) || n == 0x2028 || n == 0x2029 || n == 0x202F || n == 0x205F ||
    n == 0x3000

/-! ## The ends of a text -/

/-- The text without the blanks it starts with. -/
def trimStart (cs : List Char) : List Char :=
  cs.dropWhile isBlank

/-- The text without the blanks it ends with. -/
def trimEnd (cs : List Char) : List Char :=
  (cs.reverse.dropWhile isBlank).reverse

/-- The text without the blanks at either end. -/
def trim (cs : List Char) : List Char :=
  trimEnd (trimStart cs)

/-! ## Runs of blanks -/

/-- Each run of blanks is reduced to its last character. -/
def squeeze (cs : List Char) : List Char :=
  cs.foldr
    (fun c kept =>
      match kept with
      | d :: _ => if isBlank c && isBlank d then kept else c :: kept
      | [] => [c])
    []

@[simp] theorem squeeze_nil : squeeze [] = [] := rfl

/-- A character is kept unless it and the first one kept after it are both blank. -/
theorem squeeze_cons (c : Char) (cs : List Char) :
    squeeze (c :: cs) =
      match squeeze cs with
      | d :: kept => if isBlank c && isBlank d then d :: kept else c :: d :: kept
      | [] => [c] := by
  show (match squeeze cs with
    | d :: _ => if isBlank c && isBlank d then squeeze cs else c :: squeeze cs
    | [] => [c]) = _
  cases squeeze cs <;> rfl

/-- Trimmed, and with each run of blanks reduced to its last character. -/
def tidy (cs : List Char) : List Char :=
  squeeze (trim cs)

end AccessPolicy.Text
