import AccessPolicy.Pattern.Choice
import AccessPolicy.Pattern.Glob
import AccessPolicy.Text.Blank

/-!
# Compiled patterns

A pattern is trimmed, its choices are spelled out, and each alternative is compiled; a candidate is accepted when
some alternative accepts it. The blank pattern accepts the empty candidate and no other.
-/

namespace AccessPolicy

/-- A compiled pattern. -/
structure Pattern where
  /-- The pattern, trimmed. -/
  text : String
  /-- Its alternatives, in order; empty ones left out. -/
  globs : List Glob
  deriving DecidableEq, Repr

namespace Pattern

/-- Whether there was nothing but blanks. -/
def isBlank (p : Pattern) : Bool :=
  p.text.isEmpty

/-- Compiles alternatives in order, up to the first that is refused; `done` holds those before, last first. -/
def compileAll (done : List Glob) : List (List Char) → Except Fault (List Glob)
  | [] => .ok done.reverse
  | alternative :: rest =>
    match Glob.compile alternative with
    | .error f => .error f
    | .ok none => compileAll done rest
    | .ok (some glob) => compileAll (glob :: done) rest

/-- Compiles a pattern. -/
def compile (pattern : String) : Except Fault Pattern :=
  let trimmed := Text.trim pattern.toList
  if trimmed.isEmpty then .ok ⟨"", []⟩
  else
    match expand trimmed with
    | .error f => .error f
    | .ok alternatives =>
      (compileAll [] alternatives).map fun globs => ⟨String.ofList trimmed, globs⟩

/-- Whether a pattern accepts a candidate. -/
def accepts (p : Pattern) (candidate : String) : Bool :=
  if p.isBlank then candidate.isEmpty
  else
    let cs := candidate.toList
    p.globs.any (·.accepts cs)

/-- Compiles a pattern for one candidate. -/
def matches? (pattern candidate : String) : Except Fault Bool :=
  (compile pattern).map (·.accepts candidate)

end Pattern

end AccessPolicy
