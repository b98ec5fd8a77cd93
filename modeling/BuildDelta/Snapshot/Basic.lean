import BuildDelta.Item
/-!
# Snapshots

A snapshot is every item under one root at one point in time. It is built from a list of items with
different keys; that two items share a key is a fault of whoever made the list, and is reported with
the root it happened under.
-/

namespace BuildDelta

structure Snapshot (τ : Type) [Item τ] where
  root : String
  items : Table τ

/-- Two items for one place. -/
structure DuplicateKey where
  key : String
  root : String
deriving DecidableEq, Repr

def DuplicateKey.message (e : DuplicateKey) : String :=
  "internal error: duplicate key '" ++ e.key ++ "' in snapshot of " ++ e.root

namespace Snapshot

variable {τ : Type} [Item τ]

instance [DecidableEq τ] : DecidableEq (Snapshot τ) := fun s t =>
  decidable_of_iff (s.root = t.root ∧ s.items = t.items) (by
    cases s
    cases t
    simp)

def empty (root : String) : Snapshot τ := ⟨root, .empty⟩

/-- The error names the first item whose key occurred before. -/
def ofItems (root : String) (items : List τ) : Except DuplicateKey (Snapshot τ) :=
  match Table.ofList? items with
  | .ok table => .ok ⟨root, table⟩
  | .error key => .error ⟨key, root⟩

def ofNames (root : String) (names : List String) : Except DuplicateKey (Snapshot KeyItem) :=
  ofItems root (names.map KeyItem.mk)

def get? (s : Snapshot τ) (key : String) : Option τ := s.items.get? key

end Snapshot

end BuildDelta
