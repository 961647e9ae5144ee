import AccessPolicy.Toml.Scalar
import AccessPolicy.Toml.Table
import AccessPolicy.Toml.Text

/-!
# TOML: values and documents

A document is read line by line. Headers choose the table that the keys below them go to; each key with its value
is put there. The value of a document is a record.

Contents:
* `value?`, with lists and tables in braces;
* `Document`, `lines?` — the tables read so far;
* `entries?`, `datum?` — the record that a document holds.
-/

namespace AccessPolicy.Toml

/-! ## Values -/

mutual

/-- A value. `depth` is how deep lists and tables may still be nested. -/
def value? : (fuel depth : Nat) → List Char → Option (Datum × List Char)
  | 0, _, _ => none
  | fuel + 1, depth, cs =>
    match cs with
    | '"' :: _ | '\'' :: _ => (text? fuel cs).map fun (s, rest) => (.text s, rest)
    | '[' :: rest =>
      match depth with
      | 0 => none
      | depth + 1 => (items? fuel depth [] rest).map fun (ds, rest) => (.list ds, rest)
    | '\x7b' :: rest =>
      match depth with
      | 0 => none
      | depth + 1 =>
        match skipBlanks rest with
        | '\x7d' :: rest => some (.record [], rest)
        | rest => (inline? fuel depth [] rest).map fun (entries, rest) => (.record (datumEntries entries), rest)
    | cs => scalar? cs

/-- The items of a list up to its end; `read` holds those before, the last first. -/
def items? : (fuel depth : Nat) → (read : List Datum) → List Char → Option (List Datum × List Char)
  | 0, _, _, _ => none
  | fuel + 1, depth, read, cs =>
    match skipGap fuel cs with
    | ']' :: rest => some (read.reverse, rest)
    | cs =>
      match value? fuel depth cs with
      | none => none
      | some (d, rest) =>
        match skipGap fuel rest with
        | ',' :: rest => items? fuel depth (d :: read) rest
        | ']' :: rest => some ((d :: read).reverse, rest)
        | _ => none

/-- The entries of a table in braces up to its end, the first being due; `read` holds those before. -/
def inline? : (fuel depth : Nat) → (read : Entries) → List Char → Option (Entries × List Char)
  | 0, _, _, _ => none
  | fuel + 1, depth, read, cs =>
    match keyPath? fuel cs with
    | some (path, key, '=' :: rest) =>
      match value? fuel depth (skipBlanks rest) with
      | none => none
      | some (d, rest) =>
        match put? key d path read with
        | none => none
        | some read =>
          match skipBlanks rest with
          | ',' :: rest => inline? fuel depth read rest
          | '\x7d' :: rest => some (read, rest)
          | _ => none
    | _ => none

end

/-! ## Documents -/

/-- What has been read of a document: its tables, and the path of the table that keys go to. -/
structure Document where
  entries : Entries
  path : List String

/-- Reads a header behind its opening, up to the end of its line. -/
def header? (fuel : Nat) (closing : List Char) (open? : String → Entries → Option Entries) (doc : Document)
    (cs : List Char) : Option (Document × List Char) := do
  let (path, key, rest) ← keyPath? fuel cs
  if closing.isPrefixOf rest then
    let rest ← lineEnd? (rest.drop closing.length)
    let entries ← inside? (open? key) path doc.entries
    return (⟨entries, path ++ [key]⟩, rest)
  else none

/-- Reads a key with its value, up to the end of its line. -/
def entry? (fuel : Nat) (doc : Document) (cs : List Char) : Option (Document × List Char) := do
  let (path, key, rest) ← keyPath? fuel cs
  match rest with
  | '=' :: rest => do
    -- Each opening bracket takes two units of fuel, one as a value and one as a list.
    let (d, rest) ← value? (2 * fuel) maxDepth (skipBlanks rest)
    let rest ← lineEnd? rest
    let entries ← inside? (put? key d path) doc.path doc.entries
    return (⟨entries, doc.path⟩, rest)
  | _ => none

/-- Reads the lines of a document, at most `fuel` of them. -/
def lines? : (fuel : Nat) → Document → List Char → Option Document
  | 0, _, _ => none
  | fuel + 1, doc, cs =>
    match skipBlanks cs with
    | [] => some doc
    | '[' :: '[' :: rest =>
      match header? fuel [']', ']'] append? doc rest with
      | some (doc, rest) => lines? fuel doc rest
      | none => none
    | '[' :: rest =>
      match header? fuel [']'] define? doc rest with
      | some (doc, rest) => lines? fuel doc rest
      | none => none
    | c :: rest =>
      if c == '#' || c == '\n' || c == '\r' then
        match lineEnd? (c :: rest) with
        | some rest => lines? fuel doc rest
        | none => none
      else
        match entry? fuel doc (c :: rest) with
        | some (doc, rest) => lines? fuel doc rest
        | none => none

/-- The entries that a document holds, in the order in which they were made. A byte order mark at the start is
    skipped. -/
def entries? (text : String) : Option (List (String × Datum)) :=
  let cs :=
    match text.toList with
    | '\ufeff' :: rest => rest
    | cs => cs
  (lines? (cs.length + 1) ⟨[], []⟩ cs).map fun doc => datumEntries doc.entries

/-- The value that a document holds. -/
def datum? (text : String) : Option Datum :=
  (entries? text).map fun entries => (Datum.record entries).canonical

end AccessPolicy.Toml
