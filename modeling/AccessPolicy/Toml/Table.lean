import AccessPolicy.Datum.Basic

/-!
# TOML: tables under construction

While a document is read its tables are kept with how each came to be, because that decides what may still be added
to it. A table may be *defined* by its own header, which happens once; *implied* by the header of a table inside
it, and may then still be defined; or made by a *dotted* key, and then only other dotted keys add to it directly.

Contents:
* `Origin`, `Node`, `alter?`;
* `inside?` — a change to the table that a header names;
* `define?`, `append?` — headers of tables and of lists of tables;
* `put?` — keys with their values;
* `Node.datum` — the finished value.
-/

namespace AccessPolicy.Toml

/-- How a table came to be. -/
inductive Origin where
  | defined
  | implied
  | dotted
  deriving DecidableEq, Repr

/-- What stands under a key of a table. -/
inductive Node where
  /-- A value, to which nothing can be added. -/
  | value (d : Datum)
  | table (origin : Origin) (entries : List (String × Node))
  /-- A list of tables made by headers, the last first. -/
  | tables (elements : List (List (String × Node)))

/-- The entries of a table, in the order in which they were made. -/
abbrev Entries := List (String × Node)

/-- Changes what stands under a key; a new key comes last. -/
def alter? (key : String) (change? : Option Node → Option Node) : Entries → Option Entries
  | [] => (change? none).map fun n => [(key, n)]
  | (k, n) :: rest =>
    if k = key then (change? (some n)).map fun n => (k, n) :: rest
    else (alter? key change? rest).map ((k, n) :: ·)

/-- Changes the table that a path leads to. Tables that are missing on the way are implied; in a list of tables the
    way goes through the last. -/
def inside? (change? : Entries → Option Entries) : (path : List String) → Entries → Option Entries
  | [], entries => change? entries
  | key :: path, entries =>
    alter? key (fun
      | none => (inside? change? path []).map (.table .implied)
      | some (.table origin inner) => (inside? change? path inner).map (.table origin)
      | some (.tables (last :: earlier)) => (inside? change? path last).map fun last => .tables (last :: earlier)
      | some _ => none) entries

/-- Defines a table, which must be new or implied. -/
def define? (key : String) : Entries → Option Entries :=
  alter? key fun
    | none => some (.table .defined [])
    | some (.table .implied inner) => some (.table .defined inner)
    | some _ => none

/-- Adds an empty table to a list of tables, which may be new. -/
def append? (key : String) : Entries → Option Entries :=
  alter? key fun
    | none => some (.tables [[]])
    | some (.tables elements) => some (.tables ([] :: elements))
    | some _ => none

/-- Puts a value under a new key, inside the tables that the path of a dotted key names. None of these may be
    defined, and the last must be made by dotted keys. -/
def put? (key : String) (d : Datum) : (path : List String) → Entries → Option Entries
  | [], entries =>
    alter? key (fun
      | none => some (.value d)
      | some _ => none) entries
  | part :: path, entries =>
    alter? part (fun
      | none => (put? key d path []).map (.table .dotted)
      | some (.table origin inner) =>
        if origin = .dotted ∨ origin = .implied ∧ path ≠ [] then (put? key d path inner).map (.table origin)
        else none
      | some (.tables (last :: earlier)) =>
        if path ≠ [] then (put? key d path last).map fun last => .tables (last :: earlier) else none
      | some _ => none) entries

mutual

/-- The finished value. -/
def Node.datum : Node → Datum
  | .value d => d
  | .table _ entries => .record (datumEntries entries)
  | .tables elements => .list (datumTables elements).reverse

/-- The finished entries of a table. -/
def datumEntries : List (String × Node) → List (String × Datum)
  | [] => []
  | (key, n) :: rest => (key, n.datum) :: datumEntries rest

/-- The finished tables of a list, the last first. -/
def datumTables : List (List (String × Node)) → List Datum
  | [] => []
  | entries :: rest => .record (datumEntries entries) :: datumTables rest

end

end AccessPolicy.Toml
