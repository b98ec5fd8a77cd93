import BuildDelta.Proofs.Frame.Grammar
import BuildDelta.Proofs.Wire.Scripted
/-!
# A changed byte is noticed

A frame in which one byte was changed is no frame any more, wherever the byte stands. The checksum is
needed for the payload alone. Elsewhere the damage gives itself away, although it can move all that
follows: what is left must still hold the checksum of the payload, and there is no other header for that
of the same length (`ByteDamage.not_frames`).

So nothing is read, and mostly with an error. But two bytes stand in front of the name of the kind, and
after a change to one of them the name can seem to be longer than any memory. A byte anywhere else leaves
no text that is longer than the frame was (`ByteDamage.length_le_or_inFront`).
-/

namespace BuildDelta

namespace Frame

open Wire

/-- One byte has another value. -/
def OneByteChanged (bytes damaged : Bytes) : Prop :=
  ∃ (i : Nat) (h : i < bytes.length) (b : UInt8), b ≠ bytes[i] ∧ damaged = bytes.set i b

/-- What is now taken for the payload, if there is any behind the length that the header claims. -/
def payloadOf? (bytes : Bytes) : Option Bytes :=
  let length := Bytes.toNat ((bytes.drop 4).take 4)
  if bytes.length < 8 ∨ (bytes.drop 8).length < length then none
  else some ((bytes.drop 8).drop length)

/-- A state in which one byte was changed, under a checksum that tells the payload from what is now
taken for it. -/
structure ByteDamage (checksum : Checksum) (bytes payload damaged : Bytes) : Prop where
  changed : OneByteChanged bytes damaged
  told_apart : ∀ data ∈ payloadOf? damaged, data ≠ payload → checksum data ≠ checksum payload

namespace OneByteChanged

variable {bytes damaged front back : Bytes}

theorem length_eq (h : OneByteChanged bytes damaged) : damaged.length = bytes.length := by
  obtain ⟨i, hi, b, -, rfl⟩ := h
  exact List.length_set

theorem ne (h : OneByteChanged bytes damaged) : damaged ≠ bytes := by
  obtain ⟨i, hi, b, hb, rfl⟩ := h
  intro heq
  refine hb ?_
  have hsame : (bytes.set i b)[i]? = bytes[i]? := by rw [heq]
  rw [List.getElem?_set_self hi, List.getElem?_eq_getElem hi] at hsame
  exact Option.some.inj hsame

/-- The byte is in one of the two parts. -/
theorem of_append (h : OneByteChanged (front ++ back) damaged) :
    (∃ front', OneByteChanged front front' ∧ damaged = front' ++ back) ∨
      ∃ back', OneByteChanged back back' ∧ damaged = front ++ back' := by
  obtain ⟨i, hi, b, hb, rfl⟩ := h
  by_cases hfront : i < front.length
  · rw [List.getElem_append_left hfront] at hb
    exact .inl ⟨_, ⟨i, hfront, b, hb, rfl⟩, List.set_append_left i b hfront⟩
  · rw [Nat.not_lt] at hfront
    rw [List.getElem_append_right hfront] at hb
    have hback : i - front.length < back.length := by
      rw [List.length_append] at hi
      omega
    exact .inr ⟨_, ⟨i - front.length, hback, b, hb, rfl⟩, List.set_append_right i b hfront⟩

end OneByteChanged

theorem payloadOf?_assemble {header : Bytes} (h : header.length < 0x100000000) (data : Bytes) :
    payloadOf? (assemble header data) = some data := by
  have hwhole : ¬((assemble header data).length < 8 ∨ (header ++ data).length < header.length) := by
    rw [length_assemble, List.length_append]
    omega
  rw [payloadOf?, headerLength_assemble h, drop_assemble, if_neg hwhole, List.drop_left]

/-- The four parts of a frame, one of them with a changed byte. -/
theorem OneByteChanged.of_assemble {header payload damaged : Bytes}
    (h : OneByteChanged (assemble header payload) damaged) :
    (∃ magic', OneByteChanged magic magic' ∧
      damaged = magic' ++ (Bytes.littleEndian 4 header.length ++ (header ++ payload))) ∨
    (∃ length, OneByteChanged (Bytes.littleEndian 4 header.length) length ∧
      damaged = magic ++ (length ++ (header ++ payload))) ∨
    (∃ whole, OneByteChanged header whole ∧
      damaged = magic ++ (Bytes.littleEndian 4 header.length ++ (whole ++ payload))) ∨
    ∃ data, OneByteChanged payload data ∧
      damaged = magic ++ (Bytes.littleEndian 4 header.length ++ (header ++ data)) := by
  rw [assemble_eq] at h
  obtain ⟨magic', hmagic, rfl⟩ | ⟨_, hrest, rfl⟩ := h.of_append
  · exact .inl ⟨magic', hmagic, rfl⟩
  obtain ⟨length, hlength, rfl⟩ | ⟨_, hbody, rfl⟩ := hrest.of_append
  · exact .inr (.inl ⟨length, hlength, rfl⟩)
  obtain ⟨whole, hwhole, rfl⟩ | ⟨data, hdata, rfl⟩ := hbody.of_append
  · exact .inr (.inr (.inl ⟨whole, hwhole, rfl⟩))
  · exact .inr (.inr (.inr ⟨data, hdata, rfl⟩))

theorem eq_of_assemble_eq {header data length rest : Bytes} (hlength : length.length = 4)
    (h : assemble header data = magic ++ (length ++ rest)) :
    length = Bytes.littleEndian 4 header.length ∧ rest = header ++ data := by
  rw [assemble_eq] at h
  exact List.append_inj (List.append_cancel_left h).symm (by simp [hlength])

theorem denotes_headerOf (kind : Kind) (payload : Bytes) (checksum : Checksum) :
    Denotes (headerOf kind payload checksum) (⟨version, kind.name, checksum payload⟩ : Header) := by
  have hversion : version < Width.word32.bound := by decide
  have hfits : Fits (⟨version, kind.name, checksum payload⟩ : Header) :=
    ⟨hversion, Nat.lt_trans kind.fits (by decide)⟩
  obtain ⟨used, hused, hdenotes⟩ := (reads _ _ _).1 (read_write_self hfits)
  rw [List.append_nil] at hused
  rwa [headerOf, hused]

section Header

/-! Another payload, which the checksum tells from the first one, and a header for it. -/

variable {kind : Kind} {checksum : Checksum} {payload payload' header surplus : Bytes}
  (htold : checksum payload' = checksum payload → payload' = payload)
  (hheader : Denotes header (⟨version, kind.name, checksum payload'⟩ : Header))
include htold hheader

theorem eq_of_same_beginning {rest rest' : Bytes}
    (h : headerOf kind payload checksum ++ rest = header ++ rest') : payload' = payload ∧ rest = rest' := by
  obtain ⟨hsame, hrest⟩ := reads.unique (denotes_headerOf kind payload checksum) hheader h
  exact ⟨htold (congrArg Header.checksum hsame).symm, hrest⟩

theorem header_eq_of_body
    (h : headerOf kind payload checksum ++ payload = (header ++ surplus) ++ payload') :
    header ++ surplus = headerOf kind payload checksum := by
  rw [List.append_assoc] at h
  obtain ⟨rfl, -⟩ := eq_of_same_beginning htold hheader h
  rw [← List.append_assoc] at h
  exact (List.append_cancel_right h).symm

theorem payload_eq_of_header (h : header ++ surplus = headerOf kind payload checksum) :
    payload' = payload := by
  have hbeginning : headerOf kind payload checksum ++ [] = header ++ surplus := by
    rw [h, List.append_nil]
  exact (eq_of_same_beginning htold hheader hbeginning).1

end Header

theorem header_eq_of_length {kind : Kind} {checksum : Checksum} {payload header surplus : Bytes}
    (hheader : Denotes header (⟨version, kind.name, checksum payload⟩ : Header))
    (h : (header ++ surplus).length = (headerOf kind payload checksum).length) :
    header ++ surplus = headerOf kind payload checksum := by
  have hshortest : Shortest (headerOf kind payload checksum) header :=
    Grammar.shortest _ _ hheader
  rw [List.length_append] at h
  have heq := hshortest.eq_of_length_le (by omega)
  rw [heq] at h ⊢
  have hnone : surplus = [] := List.length_eq_zero_iff.1 (by omega)
  rw [hnone, List.append_nil]

variable {α : Type} {kind : Kind} {payload damaged : Bytes} {checksum : Checksum}

/-- One byte away from a frame there is none of the same kind. -/
theorem ByteDamage.not_frames (h : ByteDamage checksum (encode kind payload checksum) payload damaged)
    (payload' : Bytes) : ¬Frames kind checksum payload' damaged := by
  rintro ⟨header, surplus, rfl, hwidth, hheader⟩
  have htold : checksum payload' = checksum payload → payload' = payload := fun hsum =>
    not_not.1 fun hne => h.told_apart payload' (payloadOf?_assemble hwidth payload') hne hsum
  have hwidth' : (headerOf kind payload checksum).length < Nat.pow 256 4 := length_header_lt ..
  have hsame : Bytes.littleEndian 4 (headerOf kind payload checksum).length =
      Bytes.littleEndian 4 (header ++ surplus).length →
      (header ++ surplus).length = (headerOf kind payload checksum).length := fun heq => by
    have hlength := congrArg Bytes.toNat heq
    rwa [Bytes.toNat_littleEndian hwidth', Bytes.toNat_littleEndian hwidth, eq_comm] at hlength
  have hchanged : OneByteChanged (assemble (headerOf kind payload checksum) payload) _ := h.changed
  obtain ⟨magic', hmagic, heq⟩ | ⟨length, hlength, heq⟩ | ⟨whole, hwhole, heq⟩ | ⟨data, hdata, heq⟩ :=
    hchanged.of_assemble
  · rw [assemble_eq] at heq
    exact hmagic.ne (List.append_inj heq.symm hmagic.length_eq).1
  · obtain ⟨rfl, hbody⟩ := eq_of_assemble_eq (by simp [hlength.length_eq]) heq
    refine hlength.ne ?_
    rw [header_eq_of_body htold hheader hbody]
  · obtain ⟨hfour, hbody⟩ := eq_of_assemble_eq (by simp) heq
    obtain ⟨rfl, rfl⟩ := List.append_inj hbody (by rw [hwhole.length_eq, hsame hfour])
    exact hwhole.ne (header_eq_of_length hheader (hsame hfour))
  · obtain ⟨hfour, hbody⟩ := eq_of_assemble_eq (by simp) heq
    obtain ⟨hintact, rfl⟩ := List.append_inj hbody (hsame hfour).symm
    exact hdata.ne (payload_eq_of_header htold hheader hintact.symm)

/-- All but the version and the length of the kind's name is as it was. Both are one byte long. -/
def InFrontOfKind (bytes damaged : Bytes) : Prop :=
  damaged.take 8 = bytes.take 8 ∧ damaged.drop 10 = bytes.drop 10

/-- No state was read. That may have been the end of the program where the name of the kind can seem to
be of any length, if there is no room for it. -/
def GivesNoState (bytes damaged : Bytes) (memory : Nat) (result : Except CorruptState α) : Prop :=
  ∃ e, result = .error e ∧ ∀ crash, e = .outOfMemory crash →
    InFrontOfKind bytes damaged ∧ memory < crash.length

/-- With its own length in front of it, the name of a kind is there, and so is the checksum. -/
theorem missingText_header {name sum : Bytes} {cause : Wire.Error}
    (hname : name.length < Width.word64.bound) (hsum : sum.length = 16)
    (h : (read : Reader Header)
      (writeUnsigned version ++ (writeUnsigned name.length ++ (name ++ sum))) = .error cause) :
    cause.missingText? = none := by
  have hversion : version < Width.word32.bound := by decide
  have hread := (Reader.bind_ok (readUnsigned_writeUnsigned hversion _)).symm.trans h
  have htext := read_text hname sum
  cases hdecode : Utf8.decode name with
  | error flaw =>
    rw [hdecode] at htext
    cases (Reader.bind_error htext).symm.trans hread
    rfl
  | ok kind =>
    rw [hdecode] at htext
    have hhash := ContentHash.readBytes_append hsum []
    rw [List.append_nil] at hhash
    have hheader := (Reader.bind_ok htext).symm.trans hread
    cases (Reader.bind_ok (Reader.map_ok _ hhash)).symm.trans hheader

theorem headerOf_eq (kind : Kind) (payload : Bytes) (checksum : Checksum) :
    headerOf kind payload checksum = writeUnsigned version ++
      (writeUnsigned (Utf8.encode kind.name).length ++
        (Utf8.encode kind.name ++ (checksum payload).toBytes)) := by
  simp only [headerOf, write, List.append_assoc]

/-- A header with a changed byte misses no text, unless the byte stands in front of the kind. -/
theorem missingText_of_oneByteChanged {kind : Kind} {whole : Bytes} {cause : Wire.Error}
    (hkind : (Utf8.encode kind.name).length < 251)
    (h : OneByteChanged (headerOf kind payload checksum) whole)
    (hcause : (read : Reader Header) whole = .error cause) :
    cause.missingText? = none ∨ whole.drop 2 = (headerOf kind payload checksum).drop 2 := by
  have hversion : (writeUnsigned version).length = 1 := rfl
  have hone : (writeUnsigned (Utf8.encode kind.name).length).length = 1 := by
    rw [writeUnsigned, if_pos hkind]
    rfl
  have hsum := (checksum payload).length_toBytes
  rw [headerOf_eq, ← List.append_assoc] at h ⊢
  obtain ⟨front, hfront, rfl⟩ | ⟨back, hback, rfl⟩ := h.of_append
  · have hlength := hfront.length_eq
    rw [List.length_append, hversion, hone] at hlength
    right
    rw [List.drop_left' hlength, List.drop_left' (by rw [List.length_append, hversion, hone])]
  · -- what is there instead of the name is as long as the name
    have hlength := hback.length_eq
    rw [List.length_append, hsum] at hlength
    have hname : (back.take (Utf8.encode kind.name).length).length = (Utf8.encode kind.name).length :=
      List.length_take_of_le (by omega)
    have hrest : (back.drop (Utf8.encode kind.name).length).length = 16 := by
      rw [List.length_drop]
      omega
    left
    refine missingText_header (hname ▸ Nat.lt_trans kind.fits (by decide)) hrest ?_
    rw [hname, List.take_append_drop, ← List.append_assoc]
    exact hcause

theorem read_headerOf (kind : Kind) (payload : Bytes) (checksum : Checksum) (rest : Bytes) :
    (read : Reader Header) (headerOf kind payload checksum ++ rest) =
      .ok (⟨version, kind.name, checksum payload⟩, rest) :=
  read_write _ (fits_header kind (checksum payload)) rest

theorem two_le_length_headerOf (kind : Kind) (payload : Bytes) (checksum : Checksum) :
    2 ≤ (headerOf kind payload checksum).length := by
  have hsum := (checksum payload).length_toBytes
  simp only [headerOf_eq, List.length_append]
  omega

/-- A header of which there is a part misses no text that is longer than it was. -/
theorem length_le_of_cut_header {cut : Bytes} {cause : Wire.Error} {length : Nat}
    (hcut : cut <+: headerOf kind payload checksum)
    (hcause : (read : Reader Header) cut = .error cause) (hlength : cause.missingText? = some length) :
    length ≤ (headerOf kind payload checksum).length := by
  obtain ⟨more, hmore⟩ := hcut
  have hread := read_headerOf kind payload checksum []
  rw [List.append_nil, ← hmore, ← run_script] at hread
  rw [← run_script] at hcause
  rw [← hmore]
  exact Script.length_le_of_missingText hread hcause hlength

/-- Where the length of the payload's header has been changed, there is less of the header, or more than
enough. -/
theorem headerPart_append {length rest : Bytes} (hlength : length.length = 4) :
    headerPart (magic ++ (length ++ rest)) = rest.take (Bytes.toNat length) := by
  have hdrop : (magic ++ (length ++ rest)).drop 4 = length ++ rest := List.drop_left' rfl
  have hdrop8 : (magic ++ (length ++ rest)).drop 8 = rest := by
    rw [← List.append_assoc]
    exact List.drop_left' (by rw [List.length_append, hlength]; rfl)
  rw [headerPart, hdrop, hdrop8, List.take_left' hlength]

theorem inFrontOfKind_assemble {header whole : Bytes} (hlength : whole.length = header.length)
    (hlong : 2 ≤ header.length) (hdrop : whole.drop 2 = header.drop 2) (data : Bytes) :
    InFrontOfKind (assemble header data) (assemble whole data) := by
  have htake (first : Bytes) : (assemble first data).take 8 =
      magic ++ Bytes.littleEndian 4 first.length := by
    rw [assemble, List.append_assoc _ first]
    exact List.take_left' (by rw [List.length_append, Bytes.length_littleEndian]; rfl)
  have htail (first : Bytes) (hfirst : 2 ≤ first.length) : (assemble first data).drop 10 =
      first.drop 2 ++ data := by
    have hsplit : (assemble first data).drop 10 = ((assemble first data).drop 8).drop 2 := by
      rw [List.drop_drop]
    rw [hsplit, drop_assemble, List.drop_append_of_le_length hfirst]
  constructor
  · rw [htake, htake, hlength]
  · rw [htail _ hlong, htail _ (hlength ▸ hlong), hdrop]

/-- The text that a damaged header misses is not longer than the state was, unless the damage is in front
of the kind. -/
theorem ByteDamage.length_le_or_inFront {cause : Wire.Error} {length : Nat}
    (hkind : (Utf8.encode kind.name).length < 251)
    (h : ByteDamage checksum (encode kind payload checksum) payload damaged)
    (hmagic : damaged.take 4 = magic)
    (hcause : (read : Reader Header) (headerPart damaged) = .error cause)
    (hlength : cause.missingText? = some length) :
    length ≤ (encode kind payload checksum).length ∨
      InFrontOfKind (encode kind payload checksum) damaged := by
  have hencode : encode kind payload checksum =
    assemble (headerOf kind payload checksum) payload := rfl
  have hread := read_headerOf kind payload checksum
  have hwidth : (headerOf kind payload checksum).length < Nat.pow 256 4 := length_header_lt ..
  have hchanged : OneByteChanged (assemble (headerOf kind payload checksum) payload) _ := h.changed
  obtain ⟨magic', hmagic', rfl⟩ | ⟨four, hfour, rfl⟩ | ⟨whole, hwhole, rfl⟩ | ⟨data, hdata, rfl⟩ :=
    hchanged.of_assemble
  · exact absurd ((List.take_left' hmagic'.length_eq).symm.trans hmagic) hmagic'.ne
  · rw [headerPart_append (hfour.length_eq.trans (Bytes.length_littleEndian _ _))] at hcause
    by_cases hpart : Bytes.toNat four ≤ (headerOf kind payload checksum).length
    · rw [List.take_append_of_le_length hpart] at hcause
      have hle := length_le_of_cut_header (List.take_prefix _ _) hcause hlength
      left
      rw [hencode, length_assemble, List.length_append]
      omega
    · rw [List.take_append, List.take_of_length_le (by omega), hread] at hcause
      cases hcause
  · rw [headerPart_append (Bytes.length_littleEndian _ _), Bytes.toNat_littleEndian hwidth,
      List.take_left' hwhole.length_eq] at hcause
    obtain hnone | hdrop := missingText_of_oneByteChanged hkind hwhole hcause
    · cases hnone.symm.trans hlength
    · right
      rw [← hwhole.length_eq, ← assemble_eq]
      exact inFrontOfKind_assemble hwhole.length_eq (two_le_length_headerOf ..) hdrop payload
  · rw [headerPart_append (Bytes.length_littleEndian _ _), Bytes.toNat_littleEndian hwidth,
      List.take_left' rfl] at hcause
    have hwhole := hread []
    rw [List.append_nil, hcause] at hwhole
    cases hwhole

/-- One byte away from a frame nothing is read. Where there was room for the frame, a buffer that there is
no room for can only be one for the name of the kind. -/
theorem ByteDamage.givesNoState {memory : Nat} (hkind : (Utf8.encode kind.name).length < 251)
    (h : ByteDamage checksum (encode kind payload checksum) payload damaged)
    (hmemory : (encode kind payload checksum).length ≤ memory) (reader : Reader α) :
    GivesNoState (encode kind payload checksum) damaged memory
      (decode kind reader damaged checksum memory) := by
  obtain ⟨e, he, hnone, hgoes⟩ | ⟨cause, hmagic, -, hcause, hparse⟩ | ⟨payload', hframes, -⟩ :=
    parse_cases kind reader damaged checksum
  · have hsame : e.within memory = e := by
      apply CorruptState.within_eq_self
      intro length hlength
      cases hnone.symm.trans hlength
    have hdecode : decode kind reader damaged checksum memory = .error (e.within memory) := by
      rw [decode, he]
      rfl
    rw [hsame] at hdecode
    exact ⟨e, hdecode, fun crash heq => absurd heq (hgoes crash)⟩
  · have hdecode : decode kind reader damaged checksum memory =
        .error ((CorruptState.badHeader cause).within memory) := by
      rw [decode, hparse]
      rfl
    refine ⟨_, hdecode, fun crash heq => ?_⟩
    have hne : CorruptState.badHeader cause ≠ .outOfMemory crash :=
      CorruptState.noConfusion
    obtain ⟨hlength, hlong⟩ := (CorruptState.within_eq_outOfMemory_iff hne).1 heq
    obtain hshort | hfront := h.length_le_or_inFront hkind hmagic hcause hlength
    · omega
    · exact ⟨hfront, hlong⟩
  · exact absurd hframes (h.not_frames payload')

end Frame

end BuildDelta
