import BuildDelta.Settings.Basic
import BuildDelta.Toml.Document
/-!
# Settings from a text

Settings are read from the tables `snapshot` and `merge` of a TOML text. A section may also be an
array of its settings in order, of which the last ones may be missing. Names that mean nothing are
passed over; a value of the wrong sort makes the whole text unusable.
-/

namespace BuildDelta

namespace Toml.Value

def text? : Value → Option String
  | .text s => some s
  | _ => none

def boolean? : Value → Option Bool
  | .boolean b => some b
  | _ => none

def natural? : Value → Option Nat
  | .integer n => if 0 ≤ n then some n.toNat else none
  | _ => none

/-- The elements of an array, or the tables under a repeated header. -/
def elements? : Value → Option (List Value)
  | .array elements => some elements
  | .tables earlier last => some ((earlier ++ [last]).map (.table .header))
  | _ => none

def texts? (v : Value) : Option (List String) := do
  (← v.elements?).mapM text?

/-- Whether there is nothing inside. -/
def isVoid : Value → Bool
  | .table _ [] | .array [] => true
  | _ => false

/-- One setting of a section. -/
structure Setting (σ : Type) where
  name : String
  read : Value → Option (σ → σ)

/-- Changes the default section by the settings that a value holds. A date has no fields, so it
leaves everything at its default. -/
def section? {σ : Type} (settings : List (Setting σ)) (default : σ) : Value → Option σ
  | .table _ entries => settings.foldlM (fun s setting =>
    match entries.lookup setting.name with
    | some v => (setting.read v).map (· s)
    | none => some s) default
  | .moment => some default
  | v => do
    let elements ← v.elements?
    (settings.zip elements).foldlM (fun s (setting, v) => (setting.read v).map (· s)) default

end Toml.Value

namespace FingerprintMode

def ofName? (s : String) : Option FingerprintMode :=
  if s = "metadata" then some .metadata
  else if s = "content" then some .content
  else none

/-- A name, or a table with nothing but an empty value under the name. -/
def ofValue? : Toml.Value → Option FingerprintMode
  | .text s => ofName? s
  | .table _ [(name, v)] => if v.isVoid then ofName? name else none
  | _ => none

end FingerprintMode

namespace Settings

/-- One extension, or a list of them. -/
def extensions? : Toml.Value → Option (List String)
  | .text s => some [s]
  | v => v.texts?

def snapshotSettings : List (Toml.Value.Setting SnapshotSettings) := [
  ⟨"state_dir", fun v => v.text?.map fun x s => { s with stateDirectory := x }⟩,
  ⟨"fingerprint", fun v => (FingerprintMode.ofValue? v).map fun x s => { s with fingerprint := x }⟩,
  ⟨"extensions", fun v => (extensions? v).map fun x s => { s with extensions := x }⟩,
  ⟨"skip_hidden", fun v => v.boolean?.map fun x s => { s with skipHidden := x }⟩,
  ⟨"parallel", fun v => v.boolean?.map fun x s => { s with parallel := x }⟩]

def capacitySettings : List (Toml.Value.Setting Packing.Capacity) := [
  ⟨"field_capacity", fun v => v.natural?.map fun n c => { c with fields := n }⟩,
  ⟨"method_capacity", fun v => v.natural?.map fun n c => { c with methods := n }⟩]

def allSettings : List (Toml.Value.Setting Settings) := [
  ⟨"snapshot", fun v =>
    (v.section? snapshotSettings {}).map fun x s => { s with snapshot := x }⟩,
  ⟨"merge", fun v =>
    (v.section? capacitySettings .default).map fun c s => { s with capacity := c }⟩]

/-- The settings in a document, checked for their sorts only. -/
def ofEntries? (entries : Toml.Entries) : Option Settings :=
  Toml.Value.section? allSettings {} (.table .header entries)

inductive Error where
  /-- The text is no TOML, or a setting is of the wrong sort. -/
  | malformed
  | invalid (violation : Violation)
deriving DecidableEq, Repr

/-- The settings in a text, or the first thing that is wrong with it. -/
def ofText (s : String) : Except Error Settings := do
  let some settings := (Toml.read? s).bind ofEntries? | throw .malformed
  match settings.firstViolation? with
  | some violation => throw (.invalid violation)
  | none => pure settings

end Settings

end BuildDelta
