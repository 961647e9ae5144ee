/-!
# Why a pattern is refused

A pattern that asks for too much is refused before it is compiled: by the size of what its choices spell out,
or by the length of one alternative.
-/

namespace AccessPolicy

/-- Why a pattern cannot be compiled. -/
inductive Pattern.Fault where
  /-- One alternative has more characters than may be compiled. -/
  | alternativeTooLong (length : Nat)
  /-- The choices spell out too many alternatives, or too many bytes. -/
  | expansionTooLarge (alternatives bytes : Nat)
  deriving DecidableEq, Repr

/-- The most characters one alternative may have. -/
def Pattern.maxLength : Nat := 65536

/-- The text that reports a fault. -/
def Pattern.Fault.message : Pattern.Fault → String
  | .alternativeTooLong length =>
    s!"Pattern alternative too long: {length} characters (max {Pattern.maxLength})"
  | .expansionTooLarge alternatives bytes =>
    s!"Brace expansion too large: {alternatives} alternatives, {bytes} bytes"

end AccessPolicy
