import AccessPolicy.Pattern.Expression
import AccessPolicy.Pattern.Fault

/-!
# Globs: one alternative, compiled

An alternative without stars is compiled to a text, and one with stars to its segments, provided that its expression
can be built. A glob accepts a candidate whole, segment by segment.

Contents:
* `Segment`, `Segment.accepts` — a segment as the texts between its stars, matched greedily from the left;
* `Glob`, `Glob.accepts`;
* `Glob.compileWith` — compiling, given which expressions can be built; `Glob.compile`.
-/

namespace AccessPolicy

/-! ## Segments -/

/-- One segment of an alternative with stars. -/
inductive Segment where
  /-- Nothing but stars: any text that is not empty. -/
  | nonempty
  /-- A text; or texts with any run of characters between each and the next. -/
  | texts (first : List Char) (rest : List (List Char))
  deriving DecidableEq, Repr

namespace Segment

/-- The segment that tokens without a separator describe. -/
def ofTokens (ts : List Token) : Segment :=
  if onlyStars ts then .nonempty
  else
    match (splitAll (· == .star) ts).map (·.filterMap Token.char?) with
    | first :: rest => .texts first rest
    | [] => .texts [] []

/-- What is left of a text after a text it starts with. -/
def after? : (start : List Char) → List Char → Option (List Char)
  | [], cs => some cs
  | _ :: _, [] => none
  | a :: start, c :: cs => if a = c then after? start cs else none

/-- What is left of a text after the first place where another occurs in it. -/
def afterFirst? (text : List Char) : List Char → Option (List Char)
  | [] => after? text []
  | c :: cs =>
    match after? text (c :: cs) with
    | some left => some left
    | none => afterFirst? text cs

/-- Whether a text, entered after a star, holds the given texts in order without overlap, the last of them at
    its very end. Taking each text at the first place it occurs leaves the most room for those that follow. -/
def acceptsAfterStar : List (List Char) → List Char → Bool
  | [], _ => true
  -- The star before the last text takes all that the last one leaves over.
  | [last], cs => last.isSuffixOf cs
  | text :: rest, cs =>
    match afterFirst? text cs with
    | some left => acceptsAfterStar rest left
    | none => false

/-- Whether a segment accepts a text. -/
def accepts : Segment → List Char → Bool
  | .nonempty, cs => !cs.isEmpty
  | .texts first [], cs => first == cs
  | .texts first rest, cs =>
    match after? first cs with
    | some left => acceptsAfterStar rest left
    | none => false

end Segment

/-! ## Globs -/

/-- One alternative, compiled. -/
inductive Glob where
  /-- No star: exactly this text. -/
  | exact (text : List Char)
  /-- Segment by segment. -/
  | segments (parts : List Segment)
  /-- The expression cannot be built: accepts nothing. -/
  | unmatchable
  deriving DecidableEq, Repr

namespace Glob

/-- Compiles one alternative, given which expressions can be built. The empty alternative gives nothing; one that is
    too long is refused. -/
def compileWith (builds : List Expression.Part → Bool) (alternative : List Char) :
    Except Pattern.Fault (Option Glob) :=
  if alternative.length > Pattern.maxLength then
    .error (.alternativeTooLong alternative.length)
  else
    let ts := tokens alternative
    if ts.isEmpty then .ok none
    -- Without a star every segment is a single text, and these put together are the alternative unquoted.
    else if !ts.contains .star then .ok (some (.exact (ts.filterMap Token.char?)))
    else if builds (expression ts) then .ok (some (.segments ((tokenSegments ts).map Segment.ofTokens)))
    else .ok (some .unmatchable)

/-- Compiles one alternative. -/
def compile (alternative : List Char) : Except Pattern.Fault (Option Glob) :=
  compileWith Expression.builds alternative

/-- Whether segments accept texts one for one. -/
def acceptsEach : List Segment → List (List Char) → Bool
  | [], [] => true
  | p :: ps, t :: ts => p.accepts t && acceptsEach ps ts
  | _, _ => false

/-- Whether a glob accepts a candidate, all of it. -/
def accepts : Glob → List Char → Bool
  | .exact text, candidate => text == candidate
  | .segments parts, candidate => acceptsEach parts (splitAll (· == '/') candidate)
  | .unmatchable, _ => false

end Glob

end AccessPolicy
