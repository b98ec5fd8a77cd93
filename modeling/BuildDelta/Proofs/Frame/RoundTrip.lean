import BuildDelta.Frame
import BuildDelta.Proofs.Except
import BuildDelta.Proofs.Wire.RoundTrip
/-!
# A frame gives back its payload

The header of every frame that is written fits its length field (`length_header_lt`). What a frame
is taken for is said once for all payloads that can stand behind a header (`parse_assemble`); behind
its own header a payload is read as whatever its reader makes of it (`decode_encode`), with however
little memory. The checksum may be any function.
-/

namespace BuildDelta

theorem ContentHash.readBytes_append {n : Nat} {bs : Bytes} (h : bs.length = n) (rest : Bytes) :
    ContentHash.readBytes n (bs ++ rest) = .ok (⟨bs, h⟩, rest) := by
  induction n generalizing bs with
  | zero =>
    have hnil : bs = [] := List.length_eq_zero_iff.1 h
    subst hnil
    rfl
  | succ n ih =>
    cases bs with
    | nil => simp at h
    | cons b bs =>
      have hbs : bs.length = n := by simpa using h
      have hone : Wire.Reader.take 1 .unexpectedEnd (b :: (bs ++ rest)) = .ok ([b], bs ++ rest) :=
        Wire.Reader.take_append (rfl : [b].length = 1) (bs ++ rest)
      refine (Wire.Reader.bind_ok hone).trans ?_
      exact (Wire.Reader.bind_ok (ih hbs)).trans rfl

instance : Wire.Lawful ContentHash where
  Fits _ := True
  read_write h _ rest := Wire.Reader.bind_ok (ContentHash.readBytes_append h.length_toBytes rest)

namespace CorruptState

variable {memory : Nat} {e e' : CorruptState} {crash : OutOfMemory}

theorem within_cases (memory : Nat) (e : CorruptState) : e.within memory = e ∨
    ∃ length, e.missingText? = some length ∧ memory < length ∧
      e.within memory = .outOfMemory ⟨length⟩ := by
  unfold within
  cases hlength : e.missingText? with
  | none => exact .inl rfl
  | some length =>
    by_cases hmemory : memory < length
    · exact .inr ⟨length, rfl, hmemory, if_pos hmemory⟩
    · exact .inl (if_neg hmemory)

/-- Where there is room for what is not there, an error stays what it is. -/
theorem within_eq_self (h : ∀ length, e.missingText? = some length → length ≤ memory) :
    e.within memory = e := by
  obtain hself | ⟨length, hlength, hmemory, -⟩ := within_cases memory e
  · exact hself
  · exact absurd hmemory (Nat.not_lt.2 (h length hlength))

theorem eq_of_within_eq (h : e.within memory = e') (he' : ∀ crash, e' ≠ .outOfMemory crash) :
    e = e' := by
  obtain hself | ⟨length, -, -, hcrash⟩ := within_cases memory e
  · exact hself.symm.trans h
  · exact absurd (h.symm.trans hcrash) (he' _)

/-- A program that has not ended yet ends when there is no room for what is not there. -/
theorem within_eq_outOfMemory_iff (h : e ≠ .outOfMemory crash) : e.within memory = .outOfMemory crash ↔
    e.missingText? = some crash.length ∧ memory < crash.length := by
  constructor
  · intro heq
    obtain hself | ⟨length, hlength, hmemory, hcrash⟩ := within_cases memory e
    · exact absurd (hself.symm.trans heq) h
    · cases hcrash.symm.trans heq
      exact ⟨hlength, hmemory⟩
  · rintro ⟨hlength, hmemory⟩
    rw [within, hlength]
    exact if_pos hmemory

end CorruptState

namespace Frame

instance : Wire.Lawful Header where
  Fits h := h.version < Wire.Width.word32.bound ∧ Wire.Fits h.kind
  read_write h hfits rest := by
    have hversion := Wire.readUnsigned_writeUnsigned (w := .word32) hfits.1
    have hkind := Wire.read_write h.kind hfits.2
    have hchecksum := Wire.read_write h.checksum trivial
    simp only [Wire.write, List.append_assoc] at hkind hchecksum ⊢
    refine (Wire.Reader.bind_ok (hversion _)).trans ?_
    refine (Wire.Reader.bind_ok (hkind _)).trans ?_
    exact Wire.Reader.bind_ok (hchecksum rest)

theorem fits_header (kind : Kind) (checksum : ContentHash) :
    Wire.Fits (⟨version, kind.name, checksum⟩ : Header) := by
  have hversion : version < Wire.Width.word32.bound := by decide
  exact ⟨hversion, Nat.lt_trans kind.fits (by decide)⟩

theorem length_writeUnsigned_le (n : Nat) : (Wire.writeUnsigned n).length ≤ 9 := by
  unfold Wire.writeUnsigned
  repeat' split
  all_goals simp

theorem length_header_lt (kind : Kind) (checksum : ContentHash) :
    (Wire.write (⟨version, kind.name, checksum⟩ : Header)).length < Nat.pow 256 4 := by
  have hversion := length_writeUnsigned_le version
  have hlength := length_writeUnsigned_le (Utf8.encode kind.name).length
  have hkind := kind.fits
  have hchecksum := checksum.length_toBytes
  simp only [Wire.write, List.length_append]
  have hpow : Nat.pow 256 4 = 0x100000000 := rfl
  omega

/-- The bytes of a frame with this header and this payload. -/
def assemble (header data : Bytes) : Bytes :=
  magic ++ Bytes.littleEndian 4 header.length ++ header ++ data

theorem assemble_eq (header data : Bytes) :
    assemble header data = magic ++ (Bytes.littleEndian 4 header.length ++ (header ++ data)) := by
  simp only [assemble, List.append_assoc]

theorem length_assemble (header data : Bytes) :
    (assemble header data).length = 8 + (header ++ data).length := by
  rw [assemble_eq, List.length_append, List.length_append, Bytes.length_littleEndian]
  exact (Nat.add_assoc 4 4 _).symm

theorem take_assemble (header data : Bytes) : (assemble header data).take 4 = magic := by
  rw [assemble_eq]
  exact List.take_left' rfl

theorem headerLength_assemble {header : Bytes} (h : header.length < Nat.pow 256 4) (data : Bytes) :
    Bytes.toNat (((assemble header data).drop 4).take 4) = header.length := by
  rw [assemble_eq, List.drop_left' (by rfl), List.take_left' (Bytes.length_littleEndian _ _),
    Bytes.toNat_littleEndian h]

theorem drop_assemble (header data : Bytes) : (assemble header data).drop 8 = header ++ data := by
  rw [assemble, List.append_assoc]
  exact List.drop_left' (by simp [magic])

/-- What the bytes behind a header are read as. -/
def readWhole {α : Type} (reader : Wire.Reader α) (data : Bytes) : Except CorruptState α :=
  match reader data with
  | .ok (value, []) => .ok value
  | .ok (_, rest) => .error (.trailingBytes rest.length)
  | .error e => .error (.badPayload e)

/-- The header that is written in front of a payload. -/
def headerOf (kind : Kind) (payload : Bytes) (checksum : Checksum) : Bytes :=
  Wire.write (⟨version, kind.name, checksum payload⟩ : Header)

/-- Whatever stands behind a header, first the kind is looked at, then the checksum. -/
theorem parse_assemble {α : Type} (kind expected : Kind) (reader : Wire.Reader α)
    (payload data : Bytes) (checksum : Checksum) :
    parse expected reader (assemble (headerOf kind payload checksum) data) checksum =
      if kind.name ≠ expected.name then .error (.wrongKind expected.name kind.name)
      else if checksum data ≠ checksum payload then
        .error (.checksumMismatch (checksum payload) (checksum data))
      else readWhole reader data := by
  have hlength : (headerOf kind payload checksum).length < Nat.pow 256 4 := length_header_lt ..
  have hheader : Wire.read (headerOf kind payload checksum) =
      .ok ((⟨version, kind.name, checksum payload⟩ : Header), []) :=
    Wire.read_write_self (fits_header kind (checksum payload))
  generalize headerOf kind payload checksum = header at *
  have hlong : ¬(assemble header data).length < 8 := by
    rw [length_assemble]
    omega
  have hwhole : ¬(header ++ data).length < header.length := by
    rw [List.length_append]
    omega
  simp only [parse, hlong, take_assemble, headerLength_assemble hlength, drop_assemble, hwhole,
    List.take_left, List.drop_left, hheader, if_false, ne_eq, not_true_eq_false, pure_bind]
  by_cases hkind : kind.name = expected.name
  · by_cases hsum : checksum data = checksum payload
    · simp only [hkind, hsum, not_true_eq_false, if_false]
      rfl
    · simp only [hkind, hsum, not_true_eq_false, not_false_eq_true, if_false, if_true]
      rfl
  · simp only [hkind, not_false_eq_true, if_true]
    rfl

section Decode

variable {α : Type} {kind expected : Kind} {reader : Wire.Reader α} {memory : Nat} {a : α}

/-- What decodes needs no memory but for what is there. -/
theorem decode_eq_ok {bytes : Bytes} {checksum : Checksum} :
    decode kind reader bytes checksum memory = .ok a ↔ parse kind reader bytes checksum = .ok a :=
  mapError_eq_ok

theorem parse_eq_error_of_decode {bytes : Bytes} {checksum : Checksum} {e : CorruptState}
    (he : ∀ crash, e ≠ .outOfMemory crash) (h : decode kind reader bytes checksum memory = .error e) :
    parse kind reader bytes checksum = .error e := by
  obtain ⟨e', hparse, hwithin⟩ := mapError_eq_error.1 h
  rw [hparse, CorruptState.eq_of_within_eq hwithin he]

/-- A frame of another kind is refused before its payload is looked at. -/
theorem decode_wrongKind (h : kind.name ≠ expected.name) (reader : Wire.Reader α) (payload : Bytes)
    (checksum : Checksum) : decode expected reader (encode kind payload checksum) checksum memory =
      .error (.wrongKind expected.name kind.name) := by
  have hparse : parse expected reader (encode kind payload checksum) checksum = _ :=
    parse_assemble kind expected reader payload payload checksum
  rw [if_pos h] at hparse
  rw [decode, hparse]
  rfl

/-- A frame decodes to what its payload is read as. -/
theorem decode_encode {payload : Bytes} (hread : reader payload = .ok (a, []))
    (checksum : Checksum) :
    decode kind reader (encode kind payload checksum) checksum memory = .ok a := by
  have hwhole : readWhole reader payload = .ok a := by
    rw [readWhole, hread]
  have hparse := parse_assemble kind kind reader payload payload checksum
  rw [if_neg (not_not_intro rfl), if_neg (not_not_intro rfl), hwhole] at hparse
  exact decode_eq_ok.2 hparse

theorem decode_encode_write [Wire.Format α] [Wire.Lawful α] (h : Wire.Fits a) (kind : Kind)
    (checksum : Checksum) :
    decode kind Wire.read (encode kind (Wire.write a) checksum) checksum memory = .ok a :=
  decode_encode (Wire.read_write_self h) checksum

end Decode

end Frame

end BuildDelta
