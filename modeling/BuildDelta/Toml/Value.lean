import BuildDelta.Toml.Moment
import BuildDelta.Toml.Number
import BuildDelta.Toml.Text
/-!
# Values and tables

A table may be filled from several places of a text, and what may still be added to it depends on
how it came about. `assign` sets a dotted key below a table and refuses whatever would define
something twice.
-/

namespace BuildDelta.Toml

/-- How a table came about. -/
inductive Origin where
  /-- By a header of its own. -/
  | header
  /-- By the header of a table inside it. A header of its own may still follow. -/
  | implied
  /-- By a dotted key. Further dotted keys may add to it. -/
  | dotted
  /-- Between braces. Nothing may be added. -/
  | closed
deriving DecidableEq

/-- A value, as far as settings depend on it: numbers with fractions and dates are only told apart
from the rest. -/
inductive Value where
  | text (s : String)
  | integer (n : Int)
  | boolean (b : Bool)
  | real
  | moment
  | array (elements : List Value)
  | table (origin : Origin) (entries : List (String × Value))
  /-- Tables under a repeated header: the earlier ones, and the last one, which is still open. -/
  | tables (earlier : List (List (String × Value))) (last : List (String × Value))

def Value.ofNumber : Number → Value
  | .integer n => .integer n
  | .real => .real

abbrev Entries := List (String × Value)

namespace Entries

/-- Sets the value of one key to what `f` makes of the value that is there. -/
def alter (f : Option Value → Option Value) (key : String) : Entries → Option Entries
  | [] => (f none).map fun v => [(key, v)]
  | (k, v) :: rest =>
    if k = key then (f (some v)).map fun v => (k, v) :: rest
    else (alter f key rest).map ((k, v) :: ·)

/-- Sets a dotted key. The table that receives the value is one that dotted keys made; on the way
there, tables without a header of their own may be passed. -/
def assign (value : Value) : List String → Entries → Option Entries
  | [], _ => none
  | [key], entries =>
    entries.alter (fun
      | none => some value
      | some _ => none) key
  | key :: next :: keys, entries =>
    let below := assign value (next :: keys)
    entries.alter (fun
      | none => (below []).map (.table .dotted)
      | some (.table .dotted inner) => (below inner).map (.table .dotted)
      | some (.table .implied inner) =>
        if keys.isEmpty then none else (below inner).map (.table .implied)
      | some (.tables earlier last) =>
        if keys.isEmpty then none else (below last).map (.tables earlier)
      | some _ => none) key

end Entries

namespace Scanner

mutual

def value : (fuel : Nat) → Scanner Value
  | 0 => failure
  | fuel + 1 => fun cs =>
    match cs with
    | '"' :: _ | '\'' :: _ => (.text <$> text) cs
    | 't' :: _ => (word ['t', 'r', 'u', 'e'] *> pure (.boolean true)) cs
    | 'f' :: _ => (word ['f', 'a', 'l', 's', 'e'] *> pure (.boolean false)) cs
    | '[' :: cs => (.array <$> elements fuel) cs
    | '\x7b' :: cs => (.table .closed <$> inline fuel) cs
    | cs => ((moment *> pure Value.moment) <|> Value.ofNumber <$> number) cs

/-- Elements up to the closing bracket; a comma may stand before it. -/
def elements : (fuel : Nat) → Scanner (List Value)
  | 0 => failure
  | fuel + 1 => do
    filler
    if ← accept ']' then return []
    let v ← value fuel
    filler
    if ← accept ',' then
      let vs ← elements fuel
      pure (v :: vs)
    else
      char ']'
      pure [v]

/-- An inline table up to its closing brace, on one line. -/
def inline : (fuel : Nat) → Scanner Entries
  | 0 => failure
  | fuel + 1 => do
    blanks
    if ← accept '\x7d' then pure [] else fields fuel []

/-- At least one field; no comma stands before the closing brace. -/
def fields : (fuel : Nat) → Entries → Scanner Entries
  | 0, _ => failure
  | fuel + 1, done => do
    let keys ← keyPath fuel
    char '='
    blanks
    let v ← value fuel
    blanks
    let done ← (done.assign v keys : Option Entries)
    if ← accept ',' then fields fuel done
    else
      char '\x7d'
      pure done

end

end Scanner

end BuildDelta.Toml
