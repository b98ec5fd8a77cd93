import BuildDelta.Proofs.Except
import BuildDelta.Proofs.Frame.RoundTrip
import BuildDelta.Proofs.Wire.Grammar
/-!
# The frames of a payload

What a frame can look like (`Frame.Frames`): the magic bytes, a length in four bytes, a form of the
header with anything behind it up to that length, and the payload. These are all the byte strings that
decode, and each decodes to what its payload is read as (`Frame.decode_eq_ok_iff`). How much memory there
is makes no difference to that.
-/

namespace BuildDelta

open Wire

theorem ContentHash.reads_readBytes (n : Nat) :
    (ContentHash.readBytes n).Reads fun used bs => used = bs.val := by
  induction n with
  | zero =>
    refine (Reader.reads_pure _).congr fun used bs => ⟨?_, ?_⟩
    · rintro ⟨rfl, rfl⟩
      rfl
    · rintro rfl
      have hnil : bs.val = [] := List.length_eq_zero_iff.1 bs.property
      exact ⟨hnil, Subtype.ext hnil⟩
  | succ n ih =>
    refine ((Reader.reads_take 1).bind fun b => ih.map _).congr fun used bs => ⟨?_, ?_⟩
    · rintro ⟨b, _, _, rfl, ⟨rfl, hone⟩, rest, rfl, rfl⟩
      obtain ⟨b, rfl⟩ := List.length_eq_one_iff.1 hone
      rfl
    · rintro rfl
      obtain ⟨bs, hlength⟩ := bs
      cases bs with
      | nil => cases hlength
      | cons b rest =>
        have hrest : rest.length = n := Nat.succ.inj hlength
        exact ⟨[b], [b], rest, rfl, ⟨rfl, rfl⟩, ⟨rest, hrest⟩, rfl, rfl⟩

instance : Grammar ContentHash where
  Denotes used h := used = h.toBytes
  reads := by
    refine ((ContentHash.reads_readBytes 16).map _).congr fun used h => ⟨?_, ?_⟩
    · rintro ⟨bs, rfl, rfl⟩
      rfl
    · rintro rfl
      exact ⟨⟨h.toBytes, h.length_toBytes⟩, rfl, rfl⟩
  fits _ _ _ := trivial
  shortest _ _ h := .inl h

namespace Frame

instance : Grammar Header where
  Denotes used h := ∃ version kind checksum, used = version ++ (kind ++ checksum) ∧
    Numeral .word32 version h.version ∧ Denotes kind h.kind ∧ Denotes checksum h.checksum
  reads := by
    refine ((reads_numeral .word32).bind fun version => reads.both reads _).congr
      fun used h => ⟨?_, ?_⟩
    · rintro ⟨_, version, _, rfl, hversion, _, _, kind, checksum, rfl, hkind, hchecksum, rfl⟩
      exact ⟨version, kind, checksum, rfl, hversion, hkind, hchecksum⟩
    · rintro ⟨version, kind, checksum, rfl, hversion, hkind, hchecksum⟩
      exact ⟨_, version, _, rfl, hversion, _, _, kind, checksum, rfl, hkind, hchecksum, rfl⟩
  fits _ _ := by
    rintro ⟨_, _, _, -, hversion, hkind, -⟩
    exact ⟨hversion.lt_bound, Grammar.fits _ _ hkind⟩
  shortest _ h := by
    rintro ⟨_, _, _, rfl, hversion, hkind, hchecksum⟩
    have hparts := hversion.shortest.append
      ((Grammar.shortest _ _ hkind).append (Grammar.shortest _ _ hchecksum))
    rwa [← List.append_assoc (writeUnsigned h.version)] at hparts

/-- The frames that a payload of this kind can stand in. -/
def Frames (kind : Kind) (checksum : Checksum) (payload bytes : Bytes) : Prop :=
  ∃ header surplus, bytes = assemble (header ++ surplus) payload ∧
    (header ++ surplus).length < 0x100000000 ∧
    Denotes header (⟨version, kind.name, checksum payload⟩ : Header)

variable {α : Type} {kind : Kind} {reader : Reader α} {bytes : Bytes} {checksum : Checksum} {memory : Nat}
  {a : α}

/-- A byte string that is long enough falls into the parts of a frame. -/
theorem eq_assemble {length : Nat} (hlong : 8 ≤ bytes.length) (hmagic : bytes.take 4 = magic)
    (hlength : Bytes.toNat ((bytes.drop 4).take 4) = length)
    (hbody : length ≤ (bytes.drop 8).length) :
    bytes = assemble ((bytes.drop 8).take length) ((bytes.drop 8).drop length) ∧
      ((bytes.drop 8).take length).length < 0x100000000 := by
  have hwidth : ((bytes.drop 4).take 4).length = 4 := by
    rw [List.length_take, List.length_drop]
    omega
  have hfour : Bytes.littleEndian 4 length = (bytes.drop 4).take 4 := by
    have hround := Bytes.littleEndian_toNat ((bytes.drop 4).take 4)
    rwa [hwidth, hlength] at hround
  have hrest : (bytes.drop 4).drop 4 = bytes.drop 8 := by rw [List.drop_drop]
  have hbound := Bytes.toNat_lt ((bytes.drop 4).take 4)
  rw [hlength, hwidth] at hbound
  have htake : ((bytes.drop 8).take length).length = length := List.length_take_of_le hbody
  refine ⟨?_, Nat.lt_of_le_of_lt (Nat.le_of_eq htake) hbound⟩
  rw [assemble_eq, htake, hfour, List.take_append_drop, ← hmagic, ← hrest, List.take_append_drop,
    List.take_append_drop]

/-- Where the payload begins, by what the header's length says. -/
def payloadStart (bytes : Bytes) : Nat := 8 + Bytes.toNat ((bytes.drop 4).take 4)

/-- The bytes that are read as a header. -/
def headerPart (bytes : Bytes) : Bytes := (bytes.drop 8).take (Bytes.toNat ((bytes.drop 4).take 4))

/-- All that parsing can come to: bytes are refused with no text missing, or the header is no header, or
there is a frame. -/
theorem parse_cases (kind : Kind) (reader : Reader α) (bytes : Bytes) (checksum : Checksum) :
    (∃ e, parse kind reader bytes checksum = .error e ∧ e.missingText? = none ∧
      ∀ crash, e ≠ .outOfMemory crash) ∨
    (∃ cause, bytes.take 4 = magic ∧ payloadStart bytes ≤ bytes.length ∧
      (read : Reader Header) (headerPart bytes) = .error cause ∧
      parse kind reader bytes checksum = .error (.badHeader cause)) ∨
    ∃ payload, Frames kind checksum payload bytes ∧
      parse kind reader bytes checksum = readWhole reader payload := by
  unfold parse
  by_cases hlong : bytes.length < 8
  · exact .inl ⟨_, if_pos hlong, rfl, nofun⟩
  rw [if_neg hlong]
  by_cases hmagic : bytes.take 4 ≠ magic
  · exact .inl ⟨_, if_pos hmagic, rfl, nofun⟩
  rw [if_neg hmagic]
  dsimp only
  by_cases hbody : (bytes.drop 8).length < Bytes.toNat ((bytes.drop 4).take 4)
  · exact .inl ⟨_, if_pos hbody, rfl, nofun⟩
  rw [if_neg hbody]
  cases hheader : (read : Reader Header) ((bytes.drop 8).take (Bytes.toNat ((bytes.drop 4).take 4))) with
  | error cause =>
    have hstart : payloadStart bytes ≤ bytes.length := by
      rw [List.length_drop] at hbody
      rw [payloadStart]
      omega
    exact .inr (.inl ⟨cause, not_not.1 hmagic, hstart, hheader, rfl⟩)
  | ok p =>
    obtain ⟨header, surplus⟩ := p
    dsimp only
    rw [pure_bind]
    by_cases hversion : header.version ≠ version
    · exact .inl ⟨_, if_pos hversion, rfl, nofun⟩
    rw [if_neg hversion]
    by_cases hkind : header.kind ≠ kind.name
    · exact .inl ⟨_, if_pos hkind, rfl, nofun⟩
    rw [if_neg hkind]
    by_cases hsum : checksum ((bytes.drop 8).drop (Bytes.toNat ((bytes.drop 4).take 4))) ≠ header.checksum
    · exact .inl ⟨_, if_pos hsum, rfl, nofun⟩
    rw [if_neg hsum]
    obtain ⟨used, hused, hdenotes⟩ := (reads _ _ _).1 hheader
    obtain ⟨heq, hwidth⟩ :=
      eq_assemble (Nat.not_lt.1 hlong) (not_not.1 hmagic) rfl (Nat.not_lt.1 hbody)
    refine .inr (.inr ⟨_, ⟨used, surplus, hused ▸ heq, hused ▸ hwidth, ?_⟩, rfl⟩)
    obtain ⟨version', kind', sum⟩ := header
    rw [not_not] at hversion hkind hsum
    cases hversion
    cases hkind
    cases hsum
    exact hdenotes

theorem readWhole_eq_ok {payload : Bytes} :
    readWhole reader payload = .ok a ↔ reader payload = .ok (a, []) := by
  unfold readWhole
  constructor
  · intro h
    split at h
    · cases h
      assumption
    · cases h
    · cases h
  · intro h
    rw [h]

theorem exists_frames_of_parse (h : parse kind reader bytes checksum = .ok a) :
    ∃ payload, Frames kind checksum payload bytes ∧ reader payload = .ok (a, []) := by
  obtain ⟨e, he, -⟩ | ⟨cause, -, -, -, hcause⟩ | ⟨payload, hframes, hparse⟩ :=
    parse_cases kind reader bytes checksum
  · cases he.symm.trans h
  · cases hcause.symm.trans h
  · exact ⟨payload, hframes, readWhole_eq_ok.1 (hparse.symm.trans h)⟩

/-- With room for everything no program ends. -/
theorem parse_ne_outOfMemory (crash : OutOfMemory) :
    parse kind reader bytes checksum ≠ .error (.outOfMemory crash) := by
  intro h
  obtain ⟨e, he, -, hcrash⟩ | ⟨cause, -, -, -, hcause⟩ | ⟨payload, -, hparse⟩ :=
    parse_cases kind reader bytes checksum
  · exact hcrash crash (Except.error.inj (he.symm.trans h))
  · cases hcause.symm.trans h
  · have hwhole := hparse.symm.trans h
    unfold readWhole at hwhole
    split at hwhole <;> cases hwhole

/-- Behind any header of this kind, first the checksum is looked at. -/
theorem parse_of_denotes {header surplus : Bytes} {sum : ContentHash}
    (hwidth : (header ++ surplus).length < 0x100000000)
    (hdenotes : Denotes header (⟨version, kind.name, sum⟩ : Header)) (data : Bytes) :
    parse kind reader (assemble (header ++ surplus) data) checksum =
      if checksum data ≠ sum then .error (.checksumMismatch sum (checksum data))
      else readWhole reader data := by
  have hheader := reads.read_eq hdenotes surplus
  generalize header ++ surplus = whole at hheader hwidth
  have hlong : ¬(assemble whole data).length < 8 := by
    rw [length_assemble]
    omega
  have hbody : ¬(whole ++ data).length < whole.length := by
    rw [List.length_append]
    omega
  simp only [parse, hlong, take_assemble, headerLength_assemble hwidth, drop_assemble, hbody,
    List.take_left, List.drop_left, hheader, if_false, ne_eq, not_true_eq_false, pure_bind]
  by_cases hsum : checksum data = sum
  · simp only [hsum, not_true_eq_false, if_false]
    rfl
  · simp only [hsum, not_false_eq_true, if_true]
    rfl

theorem decode_of_frames {payload : Bytes} (h : Frames kind checksum payload bytes)
    (hread : reader payload = .ok (a, [])) : decode kind reader bytes checksum memory = .ok a := by
  obtain ⟨header, surplus, rfl, hwidth, hdenotes⟩ := h
  rw [decode_eq_ok, parse_of_denotes hwidth hdenotes, if_neg (not_not_intro rfl)]
  exact readWhole_eq_ok.2 hread

/-- What is written is a frame. -/
theorem frames_encode (kind : Kind) (payload : Bytes) (checksum : Checksum) :
    Frames kind checksum payload (encode kind payload checksum) := by
  have hdenotes := denotes_write reads (fits_header kind (checksum payload))
  have hwidth := length_header_lt kind (checksum payload)
  refine ⟨_, [], by rw [List.append_nil]; rfl, ?_, hdenotes⟩
  rwa [List.append_nil]

/-- What decodes is a frame, and it decodes to what its payload is read as. -/
theorem decode_eq_ok_iff : decode kind reader bytes checksum memory = .ok a ↔
    ∃ payload, Frames kind checksum payload bytes ∧ reader payload = .ok (a, []) := by
  constructor
  · intro h
    exact exists_frames_of_parse (decode_eq_ok.1 h)
  · rintro ⟨payload, hframes, hread⟩
    exact decode_of_frames hframes hread

/-- Of all frames of a payload, the one that is written is not longer than any other. -/
theorem Frames.length_encode_le {payload payload' : Bytes} (h : Frames kind checksum payload bytes)
    (hpayload : payload'.length ≤ payload.length) :
    (encode kind payload' checksum).length ≤ bytes.length := by
  obtain ⟨header, surplus, rfl, -, hdenotes⟩ := h
  have hencode : encode kind payload' checksum =
    assemble (headerOf kind payload' checksum) payload' := rfl
  have hheader := (Grammar.shortest _ _ hdenotes).length_le
  have hsame : (headerOf kind payload' checksum).length = (headerOf kind payload checksum).length := by
    simp only [headerOf, Wire.write, List.length_append, ContentHash.length_toBytes]
  have hheader' : (headerOf kind payload checksum).length ≤ header.length := hheader
  rw [hencode, length_assemble, length_assemble]
  simp only [List.length_append]
  omega

end Frame

end BuildDelta
