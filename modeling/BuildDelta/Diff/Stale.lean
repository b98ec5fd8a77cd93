import BuildDelta.Diff.Basic
import BuildDelta.Text.Extension
/-!
# Stale outputs

A source that is new or changed makes the outputs derived from it stale: the one with its own stem,
and those whose stem goes on after a dollar sign.
-/

namespace BuildDelta

/-- Bare texts are their own keys, so a table of them is a sorted set. -/
instance : Keyed String where
  key s := s

namespace Diff

variable {τ : Type} [Item τ]

def outputPatterns (sourceExt outputExt key : String) : List String :=
  match Text.stem? ("." ++ Text.dropDots sourceExt) key with
  | some stem =>
    let ending := "." ++ Text.dropDots outputExt
    [stem ++ ending, stem ++ "$*" ++ ending]
  | none => []

def stalePatterns (d : Diff τ) (sourceExt outputExt : String) : Table String :=
  .ofList (d.addedOrChangedKeys.flatMap (outputPatterns sourceExt outputExt))

end Diff

end BuildDelta
