import BuildDelta.Json.Reader
/-!
# Symbolic references

A unit names fields and methods of classes. Two references are the same when all their parts are:
methods that differ in one parameter type or in the return type are different methods, even where
their displayed texts agree.
-/

namespace BuildDelta.Packing

structure FieldRef where
  declaringType : String
  name : String
  typeDescriptor : String
deriving DecidableEq, Hashable, Ord, Repr

structure MethodRef where
  declaringType : String
  name : String
  parameterTypes : List String
  returnType : String
deriving DecidableEq, Hashable, Ord, Repr

-- What a set of references asks for.
instance : EquivBEq FieldRef := inferInstance
instance : LawfulHashable FieldRef := inferInstance
instance : EquivBEq MethodRef := inferInstance
instance : LawfulHashable MethodRef := inferInstance

def FieldRef.display (r : FieldRef) : String :=
  r.declaringType ++ "->" ++ r.name ++ ":" ++ r.typeDescriptor

def MethodRef.display (r : MethodRef) : String :=
  r.declaringType ++ "->" ++ r.name ++ "(" ++ String.join r.parameterTypes ++ ")" ++ r.returnType

/-- References in ascending order, part by part. Repeated ones stay. -/
def sortReferences {α : Type} [Ord α] (refs : List α) : List α :=
  refs.mergeSort fun a b => (compare a b).isLE

/-- A field reference as far as its text has been read. -/
structure FieldRef.Draft where
  declaringType : Option String := none
  name : Option String := none
  typeDescriptor : Option String := none

def FieldRef.Draft.build (d : FieldRef.Draft) : Option FieldRef := do
  some ⟨← d.declaringType, ← d.name, ← d.typeDescriptor⟩

instance : Json.Format FieldRef where
  tokens r := Json.object [
    ("declaring_type", Json.Format.tokens r.declaringType),
    ("name", Json.Format.tokens r.name),
    ("type_descriptor", Json.Format.tokens r.typeDescriptor)]
  read := Json.Reader.record [
    .of "declaring_type" (·.declaringType) (fun d s => { d with declaringType := some s }) .text,
    .of "name" (·.name) (fun d s => { d with name := some s }) .text,
    .of "type_descriptor" (·.typeDescriptor) (fun d s => { d with typeDescriptor := some s }) .text]
    {} FieldRef.Draft.build

/-- A method reference as far as its text has been read. -/
structure MethodRef.Draft where
  declaringType : Option String := none
  name : Option String := none
  parameterTypes : Option (List String) := none
  returnType : Option String := none

def MethodRef.Draft.build (d : MethodRef.Draft) : Option MethodRef := do
  some ⟨← d.declaringType, ← d.name, ← d.parameterTypes, ← d.returnType⟩

instance : Json.Format MethodRef where
  tokens r := Json.object [
    ("declaring_type", Json.Format.tokens r.declaringType),
    ("name", Json.Format.tokens r.name),
    ("parameter_types", Json.Format.tokens r.parameterTypes),
    ("return_type", Json.Format.tokens r.returnType)]
  read := Json.Reader.record [
    .of "declaring_type" (·.declaringType) (fun d s => { d with declaringType := some s }) .text,
    .of "name" (·.name) (fun d s => { d with name := some s }) .text,
    .of "parameter_types" (·.parameterTypes) (fun d s => { d with parameterTypes := some s })
      (.list .text),
    .of "return_type" (·.returnType) (fun d s => { d with returnType := some s }) .text]
    {} MethodRef.Draft.build

end BuildDelta.Packing
