import BuildDelta.Diff.Basic
/-!
# Reports

A difference as JSON: a list in order of keys, with null for the side on which an item is missing.
-/

namespace BuildDelta

namespace Status

def name : Status → String
  | .added => "added"
  | .removed => "removed"
  | .changed => "changed"

def ofName? (s : String) : Option Status :=
  [added, removed, changed].find? (·.name = s)

/-- A name, or an object that holds null under the name. -/
instance : Json.Format Status where
  tokens s := [.text s.name]
  read
    | .openObject :: .text name :: .colon :: .null :: .closeObject :: ts
    | .text name :: ts => (Json.Reader.ofOption (ofName? name)) ts
    | _ => .error .malformed

end Status

variable {τ : Type} [Item τ] [Json.Format τ]

def Change.tokens (c : Change τ) : List Json.Token :=
  Json.object [
    ("status", Json.Format.tokens c.status),
    ("key", Json.Format.tokens (key c)),
    ("current", Json.optional c.current?),
    ("previous", Json.optional c.previous?)]

namespace Diff

def tokens (d : Diff τ) : List Json.Token :=
  Json.array (d.toList.map Change.tokens)

/-- The report on one line. -/
def report (d : Diff τ) : String :=
  Json.compact d.tokens

/-- The report over several lines. -/
def reportIndented (d : Diff τ) : String :=
  Json.indented d.tokens

end Diff

end BuildDelta
