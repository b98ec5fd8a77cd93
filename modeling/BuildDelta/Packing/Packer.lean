import BuildDelta.Packing.Pool
import BuildDelta.Packing.Unit
/-!
# Packers

A packer decides, unit by unit, what joins the open group. A refusal is no failure: the group is
sealed and the unit is offered again to a new one.

`ReferenceCounter` accepts a unit as long as the group's distinct references stay within capacity.
-/

namespace BuildDelta.Packing

/-- A packer with states `σ` for units `υ`. -/
class Packer (σ : Type) (υ : outParam Type) where
  /-- Offers a unit to the open group, and says whether it was accepted. -/
  tryAdd : σ → υ → Bool × σ
  /-- Drops the open group. -/
  startNewGroup : σ → σ
  /-- The open group's units, in the order in which they were accepted. -/
  batch : σ → List υ
  /-- Hands out the open group and starts a new one. -/
  sealGroup : σ → List υ × σ := fun s => (batch s, startNewGroup s)

export Packer (tryAdd startNewGroup batch sealGroup)

structure ReferenceCounter (υ : Type) where
  pool : Pool
  batch : List υ

namespace ReferenceCounter

variable {υ : Type}

def new (capacity : Capacity) : ReferenceCounter υ :=
  ⟨.empty capacity, []⟩

instance [HasReferences υ] : Packer (ReferenceCounter υ) υ where
  tryAdd s u :=
    match s.pool.offer (HasReferences.fields u) (HasReferences.methods u) with
    | (.admitted .., pool) => (true, ⟨pool, s.batch ++ [u]⟩)
    | _ => (false, s)
  startNewGroup s := ⟨s.pool.clear, []⟩
  batch s := s.batch

end ReferenceCounter

end BuildDelta.Packing
