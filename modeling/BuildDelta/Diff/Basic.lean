import BuildDelta.Snapshot.Basic
import BuildDelta.Table.Align
/-!
# Differences between snapshots

A difference lists the keys whose items are not the same on both sides. A key that it does not
mention is unchanged or unknown to both. Later differences are merged over earlier ones: under a key
that both mention, the later change stands.
-/

namespace BuildDelta

inductive Status where
  | added
  | removed
  | changed
deriving DecidableEq, Repr

/-- What became of one key. -/
inductive Change (τ : Type) where
  | added (current : τ)
  | removed (previous : τ)
  | changed (current previous : τ)
deriving DecidableEq

variable {τ : Type}

namespace Change

def status : Change τ → Status
  | .added _ => .added
  | .removed _ => .removed
  | .changed .. => .changed

def current? : Change τ → Option τ
  | .added current | .changed current _ => some current
  | .removed _ => none

def previous? : Change τ → Option τ
  | .removed previous | .changed _ previous => some previous
  | .added _ => none

/-- A change goes by the key of the newest item in it. -/
instance [Keyed τ] : Keyed (Change τ) where
  key
    | .added item | .removed item | .changed item _ => key item

end Change

abbrev Diff (τ : Type) [Keyed τ] := Table (Change τ)

variable [Item τ]

/-- What the two sides of one key say: nothing, if they agree. -/
def Change.ofAligned? : Aligned τ τ → Option (Change τ)
  | .left current => some (.added current)
  | .right previous => some (.removed previous)
  | .both current previous _ =>
    if Item.unchanged current previous then none else some (.changed current previous)

theorem Change.key_of_ofAligned? {c : Aligned τ τ} {d : Change τ} (h : ofAligned? c = some d) :
    key d = key c := by
  cases c with
  | left a => obtain rfl := Option.some.inj h; rfl
  | right b => obtain rfl := Option.some.inj h; rfl
  | both a b heq =>
    simp only [ofAligned?] at h
    split at h
    · simp at h
    · obtain rfl := Option.some.inj h
      rfl

/-- Compares what is there now with what was there before. The roots play no part. -/
def Snapshot.diff (current previous : Snapshot τ) : Diff τ :=
  (current.items.align previous.items).filterMap Change.ofAligned?
    fun _ _ => Change.key_of_ofAligned?

namespace Diff

def withStatus (d : Diff τ) (status : Status) : List (Change τ) :=
  d.toList.filter (·.status = status)

def count (d : Diff τ) (status : Status) : Nat :=
  (d.withStatus status).length

def keysWithStatus (d : Diff τ) (status : Status) : List String :=
  (d.withStatus status).map key

/-- The keys whose outputs have to be built again. -/
def addedOrChangedKeys (d : Diff τ) : List String :=
  (d.toList.filter (·.status ≠ .removed)).map key

end Diff

end BuildDelta
