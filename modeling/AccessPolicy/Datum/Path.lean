import AccessPolicy.Datum.Render
import AccessPolicy.Text.Split

/-!
# Paths into a value

A path is a text of keys with dots between them. Following it takes one step for each key; a list at its end is
given as a text of its items in braces, so that in a pattern it reads as a choice between them.
-/

namespace AccessPolicy.Datum

/-- The keys of a path; at least one. -/
def steps (path : String) : List String :=
  (splitAll (· == '.') path.toList).map String.ofList

/-- Follows keys one after the other. -/
def follow? : Datum → List String → Option Datum
  | d, [] => some d
  | d, key :: keys =>
    match d.get? key with
    | some inner => follow? inner keys
    | none => none

/-- A list as a choice between its items; any other value as it is. -/
def asChoice : Datum → Datum
  | .list items => .text ("\x7b" ++ render (.list items) ++ "\x7d")
  | d => d

/-- What a path leads to. -/
def at? (d : Datum) (path : String) : Option Datum :=
  (d.follow? (steps path)).map asChoice

end AccessPolicy.Datum
