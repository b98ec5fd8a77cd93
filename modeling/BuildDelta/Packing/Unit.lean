import BuildDelta.Packing.Reference
/-!
# Units to be packed

Whatever is packed lists the references that it brings into its group. A list may name a reference
more than once; it still counts once.
-/

namespace BuildDelta.Packing

class HasReferences (υ : Type) where
  fields : υ → List FieldRef
  methods : υ → List MethodRef

/-- A unit whose references have been read off already. -/
structure CompilationUnit where
  name : String
  fields : List FieldRef := []
  methods : List MethodRef := []
deriving DecidableEq, Repr

instance : HasReferences CompilationUnit where
  fields u := u.fields
  methods u := u.methods

/-- A unit as far as its text has been read. -/
structure CompilationUnit.Draft where
  name : Option String := none
  fields : Option (List FieldRef) := none
  methods : Option (List MethodRef) := none

def CompilationUnit.Draft.build (d : CompilationUnit.Draft) : Option CompilationUnit := do
  some ⟨← d.name, d.fields.getD [], d.methods.getD []⟩

/-- The name must be there; a missing list is an empty one. -/
instance : Json.Format CompilationUnit where
  tokens u := Json.object [
    ("name", Json.Format.tokens u.name),
    ("fields", Json.Format.tokens u.fields),
    ("methods", Json.Format.tokens u.methods)]
  read := Json.Reader.record [
    .of "name" (·.name) (fun d s => { d with name := some s }) .text,
    .of "fields" (·.fields) (fun d rs => { d with fields := some rs }) Json.Format.read,
    .of "methods" (·.methods) (fun d rs => { d with methods := some rs }) Json.Format.read]
    {} CompilationUnit.Draft.build

end BuildDelta.Packing
