import BuildDelta.Proofs.Table.Building
import BuildDelta.Proofs.Text.Strict
import BuildDelta.Proofs.Wire.Script
import BuildDelta.SourceSet.Persisted
import Mathlib.Algebra.Order.BigOperators.Group.List
import Mathlib.Algebra.Order.Group.Nat
/-!
# Every format has a script

A format is `Scripted` when a script spells out its reader, and the bytes of a value pay for all that is
done to read it and for putting it in a place of its own. A value may be `worth` more than that: items are
worth the bytes of their keys, which is what the places in the index of a snapshot are paid with, since no
key but the empty one has no bytes (`Table.affords_index`).
-/

namespace BuildDelta

namespace Wire

namespace Script

def fixed (width : Nat) : Script Nat := do
  let bs ← bytes width
  pure (Bytes.toNat bs)

def unsigned (w : Width) : Script Nat := do
  let refuse (found : Announced) : Script Nat :=
    .refuse (fun left => .refusedMarker (w.reported (left + 1)) found) fun _ => rfl
  let marker ← fixed 1
  if marker < 251 then pure marker
  else if marker = 251 then fixed 2
  else if marker = 252 then fixed 4
  else if marker = 253 then
    if w = .word32 then refuse .word64 else fixed 8
  else if marker = 254 then refuse .word128
  else refuse .reserved

@[simp] theorem run_fixed (width : Nat) : (fixed width).run = Wire.fixed width := by
  simp only [fixed, run_bind, run_bytes, run_pure]
  rfl

theorem fixed_one (marker : UInt8) (rest : Bytes) :
    Wire.fixed 1 (marker :: rest) = .ok (marker.toNat, rest) := by
  show Except.ok (Bytes.toNat [marker], rest) = _
  rw [Bytes.toNat, Bytes.toNat, Nat.mul_zero, Nat.add_zero]

@[simp] theorem run_unsigned (w : Width) : (unsigned w).run = readUnsigned w := by
  funext bs
  simp only [unsigned, run_bind, run_fixed]
  cases bs with
  | nil => rfl
  | cons marker rest =>
    have hmarker : ∀ n : UInt8, marker.toNat = n.toNat ↔ marker = n := fun _ => UInt8.toNat_inj
    have htwo : marker.toNat = 251 ↔ marker = 251 := hmarker 251
    have hfour : marker.toNat = 252 ↔ marker = 252 := hmarker 252
    have height : marker.toNat = 253 ↔ marker = 253 := hmarker 253
    have hlong : marker.toNat = 254 ↔ marker = 254 := hmarker 254
    rw [Reader.bind_ok (fixed_one marker rest), readUnsigned]
    simp only [htwo, hfour, height, hlong]
    split
    · rfl
    split
    · exact congrFun (run_fixed 2) rest
    split
    · exact congrFun (run_fixed 4) rest
    split
    · split
      · rfl
      · exact congrFun (run_fixed 8) rest
    · split <;> rfl

variable {t : Tariff}

theorem affords_fixed {width credit left : Nat} (h : t.perLook + left ≤ credit + t.perByte * width) :
    (fixed width).Affords t (fun _ => left) credit :=
  (affords_bytes fun _ _ => h).bind fun _ => affords_pure (Nat.le_refl left)

/-- The bytes of a number also pay for making room for as many bytes as it says and looking at them. -/
theorem affords_unsigned (w : Width) : (unsigned w).Affords t (fun _ => 1 + 2 * t.perLook) 0 := by
  have hfair := t.fair
  have hmarker : (fixed 1).Affords t (fun _ => 1 + 2 * t.perLook) 0 := affords_fixed (by omega)
  have hmore : ∀ width, 0 < width →
      (fixed width).Affords t (fun _ => 1 + 2 * t.perLook) (1 + 2 * t.perLook) := by
    intro width hwidth
    have hone : t.perByte ≤ t.perByte * width := Nat.le_mul_of_pos_right _ hwidth
    exact affords_fixed (by omega)
  apply hmarker.bind
  intro marker
  dsimp only
  split
  · exact affords_pure (Nat.le_refl _)
  split
  · exact hmore 2 (by decide)
  split
  · exact hmore 4 (by decide)
  split
  · split
    · exact affords_refuse _ _
    · exact hmore 8 (by decide)
  · split <;> exact affords_refuse _ _

theorem quiet_fixed (width : Nat) : (fixed width).Quiet :=
  (quiet_bytes width).bind fun _ => .done _

theorem quiet_unsigned (w : Width) : (unsigned w).Quiet := by
  apply (quiet_fixed 1).bind
  intro marker
  dsimp only
  split
  · exact .done marker
  split
  · exact quiet_fixed 2
  split
  · exact quiet_fixed 4
  split
  · split
    · exact .refuse _ _
    · exact quiet_fixed 8
  · split <;> exact .refuse _ _

end Script

/-- A format with a script, whose reading is paid for by the bytes that are read. -/
class Scripted (α : Type) [Format α] where
  script : Script α
  run_script : script.run = read
  /-- What is left of the bytes of a value once it is in its place. -/
  worth : α → Nat
  affords_script : ∀ t, script.Affords t (fun a => 1 + worth a) 0
  /-- The list elements and map entries in a value. -/
  held : α → Nat
  fills_script : script.Fills held 0

export Scripted (script run_script worth affords_script held fills_script)

open Script

instance : Scripted UInt64 where
  script := UInt64.ofNat <$> unsigned .word64
  run_script := by
    show (unsigned .word64 >>= fun n => pure (UInt64.ofNat n)).run = _
    simp only [run_bind, run_unsigned, run_pure]
    rfl
  worth _ := 0
  affords_script t := (affords_unsigned .word64).bind fun _ => affords_pure (Nat.le_add_right 1 _)
  held _ := 0
  fills_script := fills_none _

instance : Scripted String where
  script := do
    let n ← unsigned .word64
    let bs ← text n
    ofExcept .notUtf8 (fun _ => rfl) (Utf8.decode bs)
  run_script := by
    simp only [run_bind, run_unsigned, run_text]
    show _ = (readUnsigned .word64 >>= fun n => Reader.take n (.shortText n) >>= fun bs => _ :
      Reader String)
    congr 1
    funext n
    congr 1
    funext bs
    cases Utf8.decode bs <;> rfl
  worth s := (Utf8.encode s).length
  affords_script t := by
    have hfair := t.fair
    apply (affords_unsigned .word64).bind
    intro n
    have htext : (text n).Affords t (fun bs => 1 + bs.length) (t.perLook + (1 + t.perLook)) := by
      apply affords_text
      intro bs hbs
      have hn : n ≤ t.perByte * n := Nat.le_mul_of_pos_left n (by omega)
      omega
    apply (htext.mono (by omega)).bind
    intro bs
    cases hdecode : Utf8.decode bs with
    | ok s =>
      rw [← Utf8.decode_eq_ok_iff.1 hdecode]
      exact affords_pure (Nat.le_refl _)
    | error flaw => exact affords_refuse _ _
  held _ := 0
  fills_script := fills_none _

theorem quiet_text : (script : Script String).Quiet := by
  apply (quiet_unsigned .word64).bind
  intro n
  apply (quiet_textBytes n).bind
  intro bs
  cases Utf8.decode bs with
  | ok s => exact .done s
  | error flaw => exact .refuse _ _

section

variable {α : Type} [Format α] [Scripted α]

instance : Scripted (List α) where
  script := do
    let n ← unsigned .count
    script.times n
  run_script := by
    simp only [run_bind, run_unsigned, run_times, run_script]
    rfl
  worth as := (as.map worth).sum
  affords_script t := by
    apply (affords_unsigned .count).bind
    intro n
    apply ((affords_script (α := α) t).times n |>.frame (1 + 2 * t.perLook)).weaken
    intro as
    show 1 + (as.map worth).sum ≤ 1 + 2 * t.perLook + (as.map worth).sum
    omega
  held as := (as.map fun a => 1 + held a).sum
  fills_script := (fills_none _).bind fun n => (fills_script (α := α)).times n

variable {β γ : Type} [Format β] [Scripted β]

/-- One value behind the other. -/
theorem affords_both {t : Tariff} {left : γ → Nat} {combine : α → β → γ} {credit : Nat}
    (h : ∀ a b, left (combine a b) ≤ credit + (1 + worth a) + (1 + worth b)) :
    (do let a ← script; let b ← script; pure (combine a b) : Script γ).Affords t left credit := by
  apply ((affords_script (α := α) t).frame credit).bind
  intro a
  apply ((affords_script (α := β) t).frame (credit + (1 + worth a))).bind
  intro b
  exact affords_pure (h a b)

/-- The name is worth a place of its own. -/
instance : Scripted (String × α) where
  script := do
    let name ← script
    let a ← script
    pure (name, a)
  run_script := by
    simp only [run_bind, run_script, run_pure]
    rfl
  worth p := 1 + worth p.2
  affords_script t := by
    apply affords_both
    intro name a
    show 1 + (1 + worth a) ≤ 0 + (1 + worth name) + (1 + worth a)
    omega
  held p := held p.2
  fills_script := (fills_none _).bind fun _ => fills_script.bind fun _ => fills_pure (Nat.le_refl _)

end

end Wire

open Wire Script

/-- The bytes of a hash, one by one. -/
def ContentHash.bytesScript : (n : Nat) → Script { bs : Bytes // bs.length = n }
  | 0 => pure ⟨[], List.length_nil⟩
  | n + 1 => do
    let b ← bytes 1
    let ⟨bs, h⟩ ← bytesScript n
    pure ⟨b.headD 0 :: bs, by rw [List.length_cons, h]⟩

theorem ContentHash.run_bytesScript (n : Nat) : (bytesScript n).run = readBytes n := by
  induction n with
  | zero => rfl
  | succ n ih =>
    simp only [bytesScript, run_bind, run_bytes, ih, run_pure]
    rfl

theorem ContentHash.affords_bytesScript (t : Tariff) (n : Nat) :
    (bytesScript n).Affords t (fun _ => n) 0 := by
  induction n with
  | zero => exact affords_pure (Nat.le_refl 0)
  | succ n ih =>
    have hfair := t.fair
    have hbyte : (bytes 1).Affords t (fun _ => 1) 0 := affords_bytes fun _ _ => by omega
    apply hbyte.bind
    intro b
    apply (ih.frame 1).bind
    intro bs
    exact affords_pure (Nat.le_of_eq (Nat.add_comm n 1))

theorem ContentHash.quiet_bytesScript (n : Nat) : (bytesScript n).Quiet := by
  induction n with
  | zero => exact .done _
  | succ n ih => exact (quiet_bytes 1).bind fun b => ih.bind fun bs => .done _

instance : Scripted ContentHash where
  script := do
    let ⟨bs, h⟩ ← ContentHash.bytesScript 16
    pure ⟨bs, h⟩
  run_script := by
    simp only [run_bind, ContentHash.run_bytesScript, run_pure]
    rfl
  worth _ := 0
  affords_script t := (ContentHash.affords_bytesScript t 16).bind fun _ => affords_pure (by decide)
  held _ := 0
  fills_script := fills_none _

instance : Scripted FileFingerprint where
  script := do
    let sort ← unsigned .word32
    if sort = 0 then do
      let modifiedNs ← script
      let len ← script
      pure (.metadata modifiedNs len)
    else if sort = 1 then do
      let hash ← script
      let len ← script
      pure (.content hash len)
    else .refuse (fun _ => .unknownVariant sort 2) fun _ => rfl
  run_script := by
    simp only [run_bind, run_unsigned]
    show _ = (readUnsigned .word32 >>= fun sort => _ : Reader FileFingerprint)
    congr 1
    funext sort
    match sort with
    | 0 => simp only [if_true, run_bind, run_script, run_pure]
    | 1 => simp only [Nat.one_ne_zero, if_false, if_true, run_bind, run_script, run_pure]
    | n + 2 => rfl
  worth _ := 0
  affords_script t := by
    apply (affords_unsigned .word32).bind
    intro sort
    split
    · exact affords_both fun _ _ => by omega
    split
    · exact affords_both fun _ _ => by omega
    · exact affords_refuse _ _
  held _ := 0
  fills_script := fills_none _

/-- Items that are worth the bytes of their keys. -/
class ScriptedItem (τ : Type) [Item τ] [Format τ] extends Scripted τ where
  length_key_le : ∀ a : τ, (Utf8.encode (key a)).length ≤ worth a

instance : ScriptedItem FileItem where
  script := do
    let relativePath ← script
    let fingerprint ← script
    pure ⟨relativePath, fingerprint⟩
  run_script := by
    simp only [run_bind, run_script, run_pure]
    rfl
  worth i := worth i.relativePath
  affords_script t := by
    apply affords_both
    intro relativePath fingerprint
    show 1 + worth relativePath ≤ 0 + (1 + worth relativePath) + (1 + worth fingerprint)
    omega
  held _ := 0
  fills_script := fills_none _
  length_key_le _ := Nat.le_refl _

instance : ScriptedItem KeyItem where
  script := do
    let name ← script
    pure ⟨name⟩
  run_script := by
    simp only [run_bind, run_script, run_pure]
    rfl
  worth i := worth i.name
  affords_script t := (affords_script t).bind fun _ => affords_pure (Nat.le_refl _)
  held _ := 0
  fills_script := fills_none _
  length_key_le _ := Nat.le_refl _

namespace Table

variable {α : Type} [Keyed α]

/-- Puts values under their keys, in a table in which others may stand already. -/
def index : Table α → List α → Script (Table α)
  | t, [] => pure t
  | t, a :: as =>
    if t.contains (key a) then .refuse (fun _ => .repeatedKey (key a)) fun _ => rfl
    else built >>= fun _ => (t.insert a).index as

theorem run_index (t : Table α) (as : List α) : (t.index as).run = match t.insertNew as with
    | .ok u => pure u
    | .error k => .fail (.repeatedKey k) := by
  induction as generalizing t with
  | nil => rfl
  | cons a as ih =>
    rw [index, insertNew]
    split
    · rfl
    · exact ih (t.insert a)

/-- What is owed for the place of the empty key, as long as it is free: no byte of a key pays for it. -/
def owed (t : Table α) : Nat := if t.contains "" then 0 else 1

theorem owed_insert {t : Table α} {a : α} (h : ¬t.contains (key a) = true) :
    1 + (t.insert a).owed ≤ (Utf8.encode (key a)).length + t.owed := by
  by_cases hkey : key a = ""
  · rw [hkey] at h
    have htaken : (t.insert a).contains "" = true := by
      rw [contains_insert, hkey, beq_self_eq_true, Bool.or_true]
    rw [owed, if_pos htaken, owed, if_neg h]
    exact Nat.le_add_left _ _
  · have hsame : (t.insert a).contains "" = t.contains "" := by
      rw [contains_insert, beq_false_of_ne (Ne.symm hkey), Bool.or_false]
    have hbytes : (Utf8.encode (key a)).length ≠ 0 := by
      intro hzero
      exact hkey (Utf8.encode_injective (List.length_eq_zero_iff.1 hzero))
    rw [owed, hsame, ← owed]
    omega

/-- The bytes of the keys pay for their places. -/
theorem affords_index (tariff : Tariff) (t : Table α) (as : List α) (extra : Nat) :
    (t.index as).Affords tariff (fun _ => extra)
      ((as.map fun a => (Utf8.encode (key a)).length).sum + t.owed + extra) := by
  induction as generalizing t with
  | nil => exact affords_pure (Nat.le_add_left _ _)
  | cons a as ih =>
    rw [index]
    split
    · exact affords_refuse _ _
    · rename_i hnew
      have howed := owed_insert hnew
      apply Affords.mono (affords_built.bind fun _ => ih (t.insert a))
      rw [List.map_cons, List.sum_cons]
      omega

theorem fills_index (t : Table α) (as : List α) : (t.index as).Fills size t.size := by
  induction as generalizing t with
  | nil => exact fills_pure (Nat.le_refl _)
  | cons a as ih =>
    rw [index]
    split
    · intro _ _ _ _ _ hrun
      cases hrun
    · rename_i hnew
      have hsize : (t.insert a).size = t.size + 1 :=
        (perm_insert (eq_false_of_ne_true hnew)).length_eq
      apply fills_built.bind
      intro _
      rw [← hsize]
      exact ih (t.insert a)

end Table

namespace Snapshot

variable {τ : Type} [Item τ] [Format τ]

theorem readParts_index : (do
    let parts ← readParts
    let table ← (Table.empty.index parts.2).run
    pure ⟨parts.1, table⟩ : Reader (Snapshot τ)) = Wire.read := by
  show (readParts >>= _ : Reader (Snapshot τ)) = readParts >>= _
  congr 1
  funext parts
  dsimp only
  rw [Table.run_index, ofItems, Table.ofList?]
  cases Table.empty.insertNew parts.2 <;> rfl

/-- The bytes of the parts pay for the index. -/
theorem affords_index [ScriptedItem τ] (t : Tariff) (parts : String × List τ) :
    (Table.empty.index parts.2).Affords t (fun _ => 1) (1 + worth parts) := by
  have hkeys : (parts.2.map fun a => (Utf8.encode (key a)).length).sum ≤ worth parts.2 :=
    List.sum_le_sum fun (a : τ) _ => ScriptedItem.length_key_le a
  have hparts : worth parts = 1 + worth parts.2 := rfl
  have howed : (Table.empty : Table τ).owed = 1 := rfl
  exact (Table.affords_index t Table.empty parts.2 1).mono (by omega)

/-- The items are taken off first, and then put under their keys. -/
instance [ScriptedItem τ] : Scripted (Snapshot τ) where
  script := do
    let parts ← (script : Script (String × List τ))
    let table ← Table.empty.index parts.2
    pure ⟨parts.1, table⟩
  run_script := by
    simp only [run_bind, run_script, run_pure]
    exact readParts_index
  worth _ := 0
  affords_script t := by
    apply (affords_script (α := String × List τ) t).bind
    intro parts
    apply (affords_index t parts).bind
    intro table
    exact affords_pure (Nat.le_refl 1)
  held s := s.items.size
  fills_script := by
    apply (fills_none _).bind
    intro parts
    apply (Table.fills_index Table.empty parts.2).bind
    intro table
    exact fills_pure (Nat.le_refl _)

end Snapshot

instance {τ : Type} [Item τ] [Format τ] [ScriptedItem τ] : Scripted (SourceSet τ) where
  script := do
    let projectRoot ← script
    let directories ← script
    let sets ← script
    pure ⟨projectRoot, directories, .ofList sets⟩
  run_script := by
    simp only [run_bind, run_script, run_pure]
    rfl
  worth _ := 0
  affords_script t := by
    apply (affords_script t).bind
    intro projectRoot
    exact affords_both fun _ _ => by omega
  held s := held s.directories + held s.sets.toList
  fills_script := by
    apply (fills_none _).bind
    intro projectRoot
    apply fills_script.bind
    intro directories
    apply (fills_script.frame (held directories)).bind
    intro sets
    apply fills_pure
    obtain ⟨kept, hperm, hsub⟩ := Table.subperm_ofList sets
    have hkept : (kept.map fun p => 1 + held p).sum ≤ (sets.map fun p => 1 + held p).sum :=
      (hsub.map _).sum_le_sum fun _ _ => Nat.zero_le _
    rw [(hperm.map _).sum_eq] at hkept
    exact Nat.add_le_add_left hkept _

instance : Scripted Frame.Header where
  script := do
    let version ← unsigned .word32
    let kind ← script
    let checksum ← script
    pure ⟨version, kind, checksum⟩
  run_script := by
    simp only [run_bind, run_unsigned, run_script, run_pure]
    rfl
  worth _ := 0
  affords_script t := by
    apply (affords_unsigned .word32).bind
    intro version
    exact affords_both fun _ _ => by omega
  held _ := 0
  fills_script := fills_none _

theorem ContentHash.quiet_script : (script : Script ContentHash).Quiet :=
  (quiet_bytesScript 16).bind fun _ => .done _

theorem Frame.quiet_script : (script : Script Header).Quiet :=
  (quiet_unsigned .word32).bind fun _ => quiet_text.bind fun _ =>
    ContentHash.quiet_script.bind fun _ => .done _

end BuildDelta
