import AccessPolicy.Statement.Decision

/-!
# The shelf of compiled patterns

Compiled patterns are kept on a shelf with room for a fixed number of them, under the text they were asked for by.
The one used last stands first; when there is no room the last one goes. Each pattern that is compiled gets a stamp
of its own, so that a pattern found on the shelf can be told from one compiled again.

Contents:
* `Shelf`, `Shelf.ofCapacity`, `Shelf.clear`;
* `Shelf.fetch` — a compiled pattern, from the shelf if it is there;
* `Statement.decideOn` — deciding requests with patterns from a shelf.
-/

namespace AccessPolicy

/-- A compiled pattern on a shelf. -/
structure Shelf.Entry where
  /-- The text it was asked for by. -/
  key : String
  pattern : Pattern
  stamp : Nat
  deriving DecidableEq, Repr

/-- A shelf. -/
structure Shelf where
  /-- How many patterns there is room for. -/
  capacity : Nat
  /-- The patterns on it, the one used last first. -/
  entries : List Shelf.Entry
  /-- The stamp for the next pattern to be compiled. -/
  nextStamp : Nat
  deriving Repr

namespace Shelf

/-- An empty shelf with room for at least one pattern. -/
def ofCapacity (capacity : Nat) : Shelf :=
  ⟨max capacity 1, [], 0⟩

/-- How many patterns a shelf has room for if nothing else is asked for. -/
def defaultCapacity : Nat := 1000

/-- How many patterns are on the shelf. -/
def size (s : Shelf) : Nat :=
  s.entries.length

/-- Takes everything off the shelf. -/
def clear (s : Shelf) : Shelf :=
  { s with entries := [] }

/-- The entry under a key. -/
def find? (s : Shelf) (key : String) : Option Entry :=
  s.entries.find? (·.key == key)

/-- The shelf with an entry put first, and what there is no room for taken off. -/
def putFirst (s : Shelf) (e : Entry) : Shelf :=
  { s with entries := (e :: s.entries.filter (·.key != e.key)).take s.capacity }

/-- The compiled pattern for a text: from the shelf, or else compiled and put there. A pattern that is refused
    leaves the shelf as it was. -/
def fetch (s : Shelf) (key : String) : Except Pattern.Fault Entry × Shelf :=
  match s.find? key with
  -- Being asked for counts as use, so what is found moves to the front.
  | some e => (.ok e, s.putFirst e)
  | none =>
    match Pattern.compile key with
    | .error f => (.error f, s)
    | .ok p =>
      let e : Entry := ⟨key, p, s.nextStamp⟩
      (.ok e, { s.putFirst e with nextStamp := s.nextStamp + 1 })

/-- A shelf as a supply of compiled patterns. -/
def supply : Supply Shelf := fun pattern s =>
  let (found, s) := s.fetch pattern
  (found.map (·.pattern), s)

end Shelf

/-- Whether the statement matches a request, with compiled patterns from a shelf. -/
def Statement.decideOn (shelf : Shelf) (s : Statement) (r : Request) : Except Fault Bool × Shelf :=
  s.decideBy Shelf.supply r shelf

end AccessPolicy
