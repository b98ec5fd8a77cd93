import BuildDelta.Packing.Packer
/-!
# Packing a sequence of units

Units are packed in order. One that does not fit seals the open group and is offered to a fresh one;
one that does not fit into an empty group ends the packing, for no group can hold it.
-/

namespace BuildDelta.Packing

inductive PackError where
  /-- The unit at this place has more distinct references than a group may hold. -/
  | unitTooLarge (index fields methods : Nat)
  /-- Packing starts with an empty group only. -/
  | groupNotEmpty (units : Nat)
deriving DecidableEq, Repr

def PackError.message : PackError → String
  | .unitTooLarge index fields methods =>
    "unit #" ++ toString index ++ " cannot be packaged: " ++ toString fields ++ " field refs, " ++
      toString methods ++ " method refs"
  | .groupNotEmpty units =>
    "cannot start packing: the open group already holds " ++ toString units ++ " units"

variable {σ υ : Type} [Packer σ υ] [HasReferences υ]

/-- Packs the units from place `index` on into the open group and further ones. -/
def packFrom (index : Nat) (s : σ) : List υ → Except PackError (List (List υ)) × σ
  | [] =>
    if (batch s).isEmpty then (.ok [], s)
    else
      let (group, s) := sealGroup s
      (.ok [group], s)
  | u :: us =>
    let tooLarge := PackError.unitTooLarge index
      (distinct (HasReferences.fields u)) (distinct (HasReferences.methods u))
    match tryAdd s u with
    | (true, s) => packFrom (index + 1) s us
    | (false, s) =>
      if (batch s).isEmpty then (.error tooLarge, startNewGroup s)
      else
        let (group, s) := sealGroup s
        match tryAdd s u with
        | (true, s) =>
          let (groups, s) := packFrom (index + 1) s us
          (groups.map (group :: ·), s)
        | (false, s) => (.error tooLarge, startNewGroup s)

/-- The units cut into groups, and the packer's state afterwards. Only an open group that holds
units already is left as it was. -/
def pack (s : σ) (units : List υ) : Except PackError (List (List υ)) × σ :=
  if (batch s).isEmpty then packFrom 0 s units
  else (.error (.groupNotEmpty (batch s).length), s)

end BuildDelta.Packing
