import BuildDelta.Toml.Value
/-!
# Documents

A document is a list of lines: headers, which open a table, and fields, which go into the table that
was opened last. The lines before the first header belong to the document itself.
-/

namespace BuildDelta.Toml

inductive Line where
  | field (keys : List String) (value : Value)
  /-- A header in single brackets, or in double ones for one of several tables. -/
  | header (repeated : Bool) (keys : List String)

namespace Scanner

private def header (fuel : Nat) : Scanner Line := do
  let repeated ← accept '['
  let keys ← keyPath fuel
  char ']'
  if repeated then char ']'
  endOfLine
  pure (.header repeated keys)

private def field (fuel : Nat) : Scanner Line := do
  let keys ← keyPath fuel
  char '='
  blanks
  let v ← value fuel
  endOfLine
  pure (.field keys v)

/-- The lines of a whole text. Each takes at least one character; `depth` bounds keys and values in
the same way. -/
def lines (depth : Nat) : (fuel : Nat) → Scanner (List Line)
  | 0 => failure
  | fuel + 1 => do
    blanks
    if ← atEnd then pure []
    else if ← accept '#' then
      let _ ← spanOf isPlain
      unless ← atEnd do newline
      lines depth fuel
    else if ← accept '[' then
      let line ← header depth
      let rest ← lines depth fuel
      pure (line :: rest)
    else
      (newline *> lines depth fuel) <|> do
        let line ← field depth
        let rest ← lines depth fuel
        pure (line :: rest)

end Scanner

/-- A header and the fields under it. -/
structure Section where
  repeated : Bool
  keys : List String
  fields : List (List String × Value)

/-- The fields in front of the first header, and the sections. -/
def sections : List Line → List (List String × Value) × List Section
  | [] => ([], [])
  | .field keys value :: lines =>
    let (fields, rest) := sections lines
    ((keys, value) :: fields, rest)
  | .header repeated keys :: lines =>
    let (fields, rest) := sections lines
    ([], ⟨repeated, keys, fields⟩ :: rest)

namespace Entries

def assignAll (fields : List (List String × Value)) (entries : Entries) : Option Entries :=
  fields.foldlM (fun entries (keys, value) => entries.assign value keys) entries

/-- Opens the table of a header and fills it. A table that only headers inside it have implied so far
may be opened once; a repeated header adds a table to those under the same header. -/
def enter (repeated : Bool) (fields : List (List String × Value)) :
    List String → Entries → Option Entries
  | [], _ => none
  | [key], entries =>
    entries.alter (fun
      | none =>
        (assignAll fields []).map (if repeated then .tables [] else .table .header)
      | some (.table .implied inner) =>
        if repeated then none else (assignAll fields inner).map (.table .header)
      | some (.tables earlier last) =>
        if repeated then (assignAll fields []).map (.tables (earlier ++ [last])) else none
      | some _ => none) key
  | key :: next :: keys, entries =>
    let below := enter repeated fields (next :: keys)
    entries.alter (fun
      | none => (below []).map (.table .implied)
      | some (.table .closed _) => none
      | some (.table origin inner) => (below inner).map (.table origin)
      | some (.tables earlier last) => (below last).map (.tables earlier)
      | some _ => none) key

def ofLines (lines : List Line) : Option Entries := do
  let (fields, rest) := sections lines
  let root ← assignAll fields []
  rest.foldlM (fun entries s => entries.enter s.repeated s.fields s.keys) root

end Entries

/-- A byte order mark in front of a text does not count. -/
private def afterMark : List Char → List Char
  | '\ufeff' :: cs => cs
  | cs => cs

/-- The table that a text spells, or nothing if any of it is out of order. -/
def read? (s : String) : Option Entries := do
  let cs := afterMark s.toList
  let (lines, _) ← Scanner.lines (2 * cs.length + 2) (cs.length + 1) cs
  Entries.ofLines lines

end BuildDelta.Toml
