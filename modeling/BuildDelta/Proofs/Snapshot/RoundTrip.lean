import BuildDelta.Proofs.Frame.RoundTrip
import BuildDelta.Snapshot.Persisted
/-!
# A snapshot survives its state file

Fingerprints, items and snapshots are read back as they were written. A list in order of keys is
taken as a table without a change (`Table.ofList?_toList`), so that reading a state refuses nothing
that was written (`Snapshot.deserialize_serialize`).
-/

namespace BuildDelta

instance : Wire.Lawful FileFingerprint where
  Fits _ := True
  read_write p _ rest := by
    cases p with
    | metadata modifiedNs len =>
      have hsort := Wire.readUnsigned_writeUnsigned (w := .word32) (n := 0) (by decide)
      have hmodified := Wire.read_write modifiedNs trivial
      have hlen := Wire.read_write len trivial
      simp only [Wire.write, List.append_assoc] at hmodified hlen ⊢
      refine (Wire.Reader.bind_ok (hsort _)).trans ?_
      refine (Wire.Reader.bind_ok (hmodified _)).trans ?_
      exact Wire.Reader.bind_ok (hlen rest)
    | content hash len =>
      have hsort := Wire.readUnsigned_writeUnsigned (w := .word32) (n := 1) (by decide)
      have hhash := Wire.read_write hash trivial
      have hlen := Wire.read_write len trivial
      simp only [Wire.write, List.append_assoc] at hhash hlen ⊢
      refine (Wire.Reader.bind_ok (hsort _)).trans ?_
      refine (Wire.Reader.bind_ok (hhash _)).trans ?_
      exact Wire.Reader.bind_ok (hlen rest)

instance : Wire.Lawful FileItem where
  Fits i := Wire.Fits i.relativePath
  read_write i hpath rest := by
    have hread := Wire.read_write i.relativePath hpath
    have hfingerprint := Wire.read_write i.fingerprint trivial
    have hassoc : Wire.write i ++ rest =
        Wire.write i.relativePath ++ (Wire.write i.fingerprint ++ rest) :=
      List.append_assoc ..
    rw [hassoc]
    refine (Wire.Reader.bind_ok (hread _)).trans ?_
    exact Wire.Reader.bind_ok (hfingerprint rest)

@[simp] theorem FileItem.fits_iff (i : FileItem) : Wire.Fits i ↔ Wire.Fits i.relativePath := Iff.rfl

instance : Wire.Lawful KeyItem where
  Fits i := Wire.Fits i.name
  read_write i hname rest := Wire.Reader.map_ok KeyItem.mk (Wire.read_write i.name hname rest)

@[simp] theorem KeyItem.fits_iff (i : KeyItem) : Wire.Fits i ↔ Wire.Fits i.name := Iff.rfl

namespace Table

variable {α : Type} [Keyed α]

theorem insert_of_ascending (t : Table α) {a : α} (h : Ascending (t.toList ++ [a])) :
    t.insert a = ⟨t.toList ++ [a], h⟩ := by
  apply ext_get?
  intro k
  rw [get?_insert, get?, get?, List.find?_append]
  split
  · rename_i hk
    have hnone : t.toList.find? (fun b => key b = k) = none := by
      rw [List.find?_eq_none]
      intro b hb heq
      have hlt := (List.pairwise_append.1 h).2.2 b hb a (by simp)
      rw [of_decide_eq_true heq, hk] at hlt
      exact String.lt_irrefl k hlt
    rw [hnone]
    simp [hk]
  · rename_i hk
    simp [hk]

/-- Keys that go on ascending are all new. -/
theorem insertNew_of_ascending (t : Table α) {as : List α} (h : Ascending (t.toList ++ as)) :
    t.insertNew as = .ok ⟨t.toList ++ as, h⟩ := by
  induction as generalizing t with
  | nil => simp [insertNew]
  | cons a as ih =>
    have hsplit : t.toList ++ a :: as = t.toList ++ [a] ++ as := by simp
    have hfirst : Ascending (t.toList ++ [a]) :=
      (hsplit ▸ h).sublist (List.sublist_append_left ..)
    have hnew : t.contains (key a) = false := by
      rw [contains, Option.isSome_eq_false_iff, Option.isNone_iff_eq_none, get?_eq_none_iff]
      intro b hb heq
      have hlt := (List.pairwise_append.1 hfirst).2.2 b hb a (by simp)
      exact String.lt_irrefl _ (heq ▸ hlt)
    rw [insertNew, hnew, insert_of_ascending t hfirst, if_neg (by simp)]
    rw [ih ⟨t.toList ++ [a], hfirst⟩ (hsplit ▸ h)]
    simp

theorem ofList?_toList (t : Table α) : ofList? t.toList = .ok t :=
  insertNew_of_ascending empty t.ascending

end Table

namespace Snapshot

variable {τ : Type} [Item τ]

theorem ofItems_toList (s : Snapshot τ) : ofItems s.root s.items.toList = .ok s := by
  rw [ofItems, Table.ofList?_toList]

/-- The last step of deserialising, behind all that is read. -/
def ofParts (parts : String × List τ) : Except CorruptState (Snapshot τ) :=
  (ofItems parts.1 parts.2).mapError fun e => .duplicateKey e.key

variable [Wire.Format τ]

theorem deserialize_eq (bytes : Bytes) (checksum : Frame.Checksum) (memory : Nat) :
    deserialize bytes checksum memory =
      Frame.decode (frameKind τ) (readParts : Wire.Reader (String × List τ)) bytes checksum memory >>=
        ofParts := by
  unfold deserialize
  refine congrArg (_ >>= ·) (funext fun parts => ?_)
  dsimp only [ofParts]
  cases ofItems parts.1 parts.2 <;> rfl

variable [Wire.Lawful τ]

theorem readParts_write {s : Snapshot τ} (h : Wire.Fits s.root ∧ Wire.Fits s.items.toList)
    (rest : Bytes) : readParts (Wire.write s ++ rest) = .ok ((s.root, s.items.toList), rest) := by
  have hroot := Wire.read_write s.root h.1
  have hitems := Wire.read_write s.items.toList h.2
  have hassoc : Wire.write s ++ rest = Wire.write s.root ++ (Wire.write s.items.toList ++ rest) :=
    List.append_assoc ..
  rw [hassoc]
  refine (Wire.Reader.bind_ok (hroot _)).trans ?_
  exact Wire.Reader.bind_ok (hitems rest)

theorem readParts_write_self {s : Snapshot τ} (h : Wire.Fits s.root ∧ Wire.Fits s.items.toList) :
    readParts (Wire.write s) = .ok ((s.root, s.items.toList), []) := by
  have hread := readParts_write h []
  rwa [List.append_nil] at hread

instance : Wire.Lawful (Snapshot τ) where
  Fits s := Wire.Fits s.root ∧ Wire.Fits s.items.toList
  read_write s hfits rest := by
    refine (Wire.Reader.bind_ok (readParts_write hfits rest)).trans ?_
    simp only [ofItems_toList]
    rfl

@[simp] theorem fits_iff (s : Snapshot τ) :
    Wire.Fits s ↔ Wire.Fits s.root ∧ Wire.Fits s.items.toList := Iff.rfl

/-- A state that was written is read as what it was written from, with however little memory. -/
theorem deserialize_serialize {s : Snapshot τ} {memory : Nat} (h : Wire.Fits s)
    (checksum : Frame.Checksum) : deserialize (s.serialize checksum) checksum memory = .ok s := by
  have hparts : Frame.decode (frameKind τ) readParts (s.serialize checksum) checksum memory =
      .ok (s.root, s.items.toList) := Frame.decode_encode (readParts_write_self h) checksum
  unfold deserialize
  simp only [hparts, bind, Except.bind, ofItems_toList]
  rfl

omit [Wire.Lawful τ] in
theorem deserialize_wrongKind {kind : Frame.Kind} {memory : Nat}
    (h : kind.name ≠ (frameKind τ).name) (payload : Bytes) (checksum : Frame.Checksum) :
    (deserialize (Frame.encode kind payload checksum) checksum memory :
      Except CorruptState (Snapshot τ)) = .error (.wrongKind (frameKind τ).name kind.name) := by
  unfold deserialize
  rw [Frame.decode_wrongKind h]
  rfl

end Snapshot

end BuildDelta
