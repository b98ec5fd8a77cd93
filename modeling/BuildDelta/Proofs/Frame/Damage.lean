import BuildDelta.Proofs.SourceSet.RoundTrip
import BuildDelta.Proofs.Wire.Scripted
/-!
# Damage to the length of a state is noticed

A frame that lost bytes at its end, or got some more, is refused with an error that says so
(`length_damage_is_refused`), and not because of its checksum: were that the same, a payload that is
cut would end inside a value, and behind one that is extended there would be bytes left over. A text
that was cut is asked for with the buffer that the whole one has, so there is room for it wherever there
is room for the whole frame.
-/

namespace BuildDelta

namespace Frame

open Wire

/-- Where the payload begins. -/
def headerEnd (kind : Kind) (payload : Bytes) (checksum : Checksum) : Nat :=
  8 + (headerOf kind payload checksum).length

variable {α β : Type} {kind : Kind} {reader : Reader α} {script : Script α}
  {payload data cut more : Bytes} {checksum : Checksum} {memory : Nat} {a : α}

theorem parse_cut_header (hcut : cut <+: encode kind payload checksum)
    (hlength : cut.length < headerEnd kind payload checksum) :
    parse kind reader cut checksum = .error (.truncated cut.length) := by
  have hfits : (headerOf kind payload checksum).length < Nat.pow 256 4 := length_header_lt ..
  have hcut : cut <+: assemble (headerOf kind payload checksum) payload := hcut
  rw [headerEnd] at hlength
  generalize headerOf kind payload checksum = header at *
  by_cases hshort : cut.length < 8
  · simp only [parse, hshort, if_true]
    rfl
  have heq := List.prefix_iff_eq_take.1 hcut
  have hmagic : cut.take 4 = magic := by
    rw [heq, List.take_take, Nat.min_eq_left (by omega), take_assemble]
  have hheader : Bytes.toNat ((cut.drop 4).take 4) = header.length := by
    rw [heq, List.drop_take, List.take_take, Nat.min_eq_left (by omega),
      headerLength_assemble hfits]
  have hbody : (cut.drop 8).length < header.length := by
    rw [List.length_drop]
    omega
  simp only [parse, hshort, hmagic, hheader, hbody, if_false, if_true, ne_eq,
    not_true_eq_false, pure_bind]
  rfl

theorem assemble_append (header data more : Bytes) :
    assemble header (data ++ more) = assemble header data ++ more :=
  (List.append_assoc ..).symm

/-- A cut behind the header leaves a part of the payload. -/
theorem exists_part_of_cut (hcut : cut <+: encode kind payload checksum)
    (hlength : headerEnd kind payload checksum ≤ cut.length) :
    ∃ data more, payload = data ++ more ∧ cut = assemble (headerOf kind payload checksum) data := by
  have hcut : cut <+: assemble (headerOf kind payload checksum) payload := hcut
  rw [headerEnd] at hlength
  generalize headerOf kind payload checksum = header at *
  have hheader : assemble header [] <+: assemble header payload :=
    ⟨payload, (assemble_append header [] payload).symm⟩
  have hshorter : (assemble header []).length ≤ cut.length := by
    rwa [length_assemble, List.append_nil]
  obtain ⟨data, hdata⟩ := List.prefix_of_prefix_length_le hheader hcut hshorter
  rw [← assemble_append, List.nil_append] at hdata
  subst hdata
  obtain ⟨more, hmore⟩ := hcut
  rw [← assemble_append] at hmore
  exact ⟨data, more, (List.append_cancel_left hmore).symm, rfl⟩

/-- All that is asked of reading a state whose length has been changed. -/
structure LengthDamageRefused (bytes : Bytes) (headerEnd : Nat)
    (deserialize : Bytes → Except CorruptState β) : Prop where
  cut_in_header : ∀ cut, cut <+: bytes → cut.length < headerEnd →
    deserialize cut = .error (.truncated cut.length)
  cut_in_payload : ∀ cut, cut <+: bytes → cut ≠ bytes → headerEnd ≤ cut.length →
    (∃ expected actual, deserialize cut = .error (.checksumMismatch expected actual)) ∨
      ∃ cause, deserialize cut = .error (.badPayload cause)
  extended : ∀ more, more ≠ [] →
    (∃ expected actual, deserialize (bytes ++ more) = .error (.checksumMismatch expected actual)) ∨
      deserialize (bytes ++ more) = .error (.trailingBytes more.length)

theorem length_payload_le (kind : Kind) (payload : Bytes) (checksum : Checksum) :
    payload.length ≤ (encode kind payload checksum).length := by
  show _ ≤ (assemble _ payload).length
  rw [length_assemble, List.length_append]
  omega

theorem readWhole_cut (h : script.run (data ++ more) = .ok (a, [])) (hmore : more ≠ []) :
    ∃ cause, readWhole script.run data = .error (.badPayload cause) ∧
      ∀ length, cause.missingText? = some length → length ≤ (data ++ more).length := by
  obtain ⟨cause, hcause⟩ := Script.exists_error_of_cut h hmore
  exact ⟨cause, by rw [readWhole, hcause], fun _ => Script.length_le_of_missingText h hcause⟩

theorem readWhole_extended (h : script.run payload = .ok (a, [])) (hmore : more ≠ []) :
    readWhole script.run (payload ++ more) = .error (.trailingBytes more.length) := by
  obtain ⟨used, hused, hread⟩ := Script.exists_taken h
  rw [List.append_nil] at hused
  rw [readWhole, hused, hread]
  cases more with
  | nil => exact absurd rfl hmore
  | cons b more => rfl

/-- Nothing that is done with the payload afterwards hides the damage. -/
theorem lengthDamageRefused (h : script.run payload = .ok (a, []))
    (hmemory : (encode kind payload checksum).length ≤ memory)
    (next : α → Except CorruptState β) :
    LengthDamageRefused (encode kind payload checksum) (headerEnd kind payload checksum)
      fun bytes => decode kind script.run bytes checksum memory >>= next where
  cut_in_header cut hcut hlength := by
    simp only [decode, parse_cut_header hcut hlength]
    rfl
  cut_in_payload cut hcut hne hlength := by
    obtain ⟨data, more, rfl, rfl⟩ := exists_part_of_cut hcut hlength
    have hmore : more ≠ [] := by
      rintro rfl
      rw [List.append_nil] at hne
      exact hne rfl
    obtain ⟨cause, hcause, hlength⟩ := readWhole_cut h hmore
    have hparse := parse_assemble kind kind script.run (data ++ more) data checksum
    rw [if_neg (not_not_intro rfl)] at hparse
    -- a checksum that does not tell the parts apart leaves it to the reader
    by_cases hsum : checksum data = checksum (data ++ more)
    · have hroom : (CorruptState.badPayload cause).within memory = .badPayload cause := by
        apply CorruptState.within_eq_self
        intro length hmissing
        exact Nat.le_trans (hlength length hmissing)
          (Nat.le_trans (length_payload_le kind (data ++ more) checksum) hmemory)
      rw [if_neg (not_not_intro hsum), hcause] at hparse
      refine .inr ⟨cause, ?_⟩
      simp only [decode, hparse, Except.mapError, hroom]
      rfl
    · rw [if_pos hsum] at hparse
      refine .inl ⟨checksum (data ++ more), checksum data, ?_⟩
      simp only [decode, hparse]
      rfl
  extended more hmore := by
    have hparse := parse_assemble kind kind script.run payload (payload ++ more) checksum
    rw [if_neg (not_not_intro rfl), assemble_append] at hparse
    have hparse' : parse kind script.run (encode kind payload checksum ++ more) checksum = _ := hparse
    by_cases hsum : checksum (payload ++ more) = checksum payload
    · rw [if_neg (not_not_intro hsum), readWhole_extended h hmore] at hparse'
      refine .inr ?_
      simp only [decode, hparse']
      rfl
    · rw [if_pos hsum] at hparse'
      refine .inl ⟨checksum payload, checksum (payload ++ more), ?_⟩
      simp only [decode, hparse']
      rfl

end Frame

open BuildDelta.Frame Wire

variable {τ : Type} [Item τ] [Format τ] [Lawful τ] [ScriptedItem τ] {checksum : Checksum}
  {memory : Nat}

theorem Snapshot.lengthDamageRefused {s : Snapshot τ} (h : Fits s)
    (hmemory : (s.serialize checksum).length ≤ memory) :
    LengthDamageRefused (s.serialize checksum) (headerEnd (frameKind τ) (write s) checksum)
      fun bytes => (deserialize bytes checksum memory : Except CorruptState (Snapshot τ)) := by
  have hread : read (write s) = .ok ((s.root, s.items.toList), []) := readParts_write_self h
  rw [← run_script] at hread
  have hrefused := Frame.lengthDamageRefused hread hmemory ofParts
  rw [run_script] at hrefused
  simp only [deserialize_eq]
  exact hrefused

theorem SourceSet.lengthDamageRefused {s : SourceSet τ} (h : Fits s)
    (hmemory : (s.serialize checksum).length ≤ memory) :
    LengthDamageRefused (s.serialize checksum) (headerEnd (frameKind τ) (write s) checksum)
      fun bytes => (deserialize bytes checksum memory : Except CorruptState (SourceSet τ)) := by
  have hread := read_write_self h
  rw [← run_script] at hread
  have hrefused := Frame.lengthDamageRefused hread hmemory Except.ok
  rw [run_script] at hrefused
  have hplain : ∀ bytes, decode (frameKind τ) read bytes checksum memory >>= Except.ok =
      (deserialize bytes checksum memory : Except CorruptState (SourceSet τ)) := fun _ => bind_pure _
  simp only [hplain] at hrefused
  exact hrefused

/-- A state that was cut short or extended is refused, even under a checksum that does not tell it from
the whole one: before the end of the header it is truncated, behind that its payload ends too early,
or bytes are left over. No more memory is needed than for the whole one. -/
theorem length_damage_is_refused :
    (∀ s : Snapshot FileItem, Fits s → ∀ checksum memory, (s.serialize checksum).length ≤ memory →
      LengthDamageRefused (s.serialize checksum)
        (headerEnd (Snapshot.frameKind FileItem) (write s) checksum) fun bytes =>
          (Snapshot.deserialize bytes checksum memory : Except CorruptState (Snapshot FileItem))) ∧
    (∀ s : Snapshot KeyItem, Fits s → ∀ checksum memory, (s.serialize checksum).length ≤ memory →
      LengthDamageRefused (s.serialize checksum)
        (headerEnd (Snapshot.frameKind KeyItem) (write s) checksum) fun bytes =>
          (Snapshot.deserialize bytes checksum memory : Except CorruptState (Snapshot KeyItem))) ∧
    (∀ s : SourceSet FileItem, Fits s → ∀ checksum memory, (s.serialize checksum).length ≤ memory →
      LengthDamageRefused (s.serialize checksum)
        (headerEnd (SourceSet.frameKind FileItem) (write s) checksum) fun bytes =>
          (SourceSet.deserialize bytes checksum memory : Except CorruptState (SourceSet FileItem))) ∧
    ∀ s : SourceSet KeyItem, Fits s → ∀ checksum memory, (s.serialize checksum).length ≤ memory →
      LengthDamageRefused (s.serialize checksum)
        (headerEnd (SourceSet.frameKind KeyItem) (write s) checksum) fun bytes =>
          (SourceSet.deserialize bytes checksum memory : Except CorruptState (SourceSet KeyItem)) :=
  ⟨fun _ h _ _ => Snapshot.lengthDamageRefused h, fun _ h _ _ => Snapshot.lengthDamageRefused h,
    fun _ h _ _ => SourceSet.lengthDamageRefused h, fun _ h _ _ => SourceSet.lengthDamageRefused h⟩

/-- The hash of nothing, whatever the payload is. -/
def Frame.blindChecksum : Checksum := fun _ => .ofBytes []

theorem length_damage_is_refused_blind :
    (Fits Snapshot.widths ∧ (Snapshot.widths.serialize blindChecksum).length ≤ Bytes.addressable ∧
      LengthDamageRefused (Snapshot.widths.serialize blindChecksum)
        (headerEnd (Snapshot.frameKind FileItem) (write Snapshot.widths) blindChecksum)
        fun bytes =>
          (Snapshot.deserialize bytes blindChecksum : Except CorruptState (Snapshot FileItem))) ∧
    (Fits SourceSet.widths.directories ∧
      (SourceSet.widths.directories.serialize blindChecksum).length ≤ Bytes.addressable ∧
      LengthDamageRefused (SourceSet.widths.directories.serialize blindChecksum)
        (headerEnd (Snapshot.frameKind KeyItem) (write SourceSet.widths.directories) blindChecksum)
        fun bytes =>
          (Snapshot.deserialize bytes blindChecksum : Except CorruptState (Snapshot KeyItem))) ∧
    (Fits SourceSet.widths ∧ (SourceSet.widths.serialize blindChecksum).length ≤ Bytes.addressable ∧
      LengthDamageRefused (SourceSet.widths.serialize blindChecksum)
        (headerEnd (SourceSet.frameKind FileItem) (write SourceSet.widths) blindChecksum)
        fun bytes =>
          (SourceSet.deserialize bytes blindChecksum : Except CorruptState (SourceSet FileItem))) ∧
    (Fits SourceSet.bare ∧ (SourceSet.bare.serialize blindChecksum).length ≤ Bytes.addressable ∧
      LengthDamageRefused (SourceSet.bare.serialize blindChecksum)
        (headerEnd (SourceSet.frameKind KeyItem) (write SourceSet.bare) blindChecksum)
        fun bytes =>
          (SourceSet.deserialize bytes blindChecksum : Except CorruptState (SourceSet KeyItem))) := by
  have hfile : (Snapshot.widths.serialize blindChecksum).length ≤ Bytes.addressable := by
    decide +kernel
  have hname : (SourceSet.widths.directories.serialize blindChecksum).length ≤ Bytes.addressable := by
    decide +kernel
  have hfileSet : (SourceSet.widths.serialize blindChecksum).length ≤ Bytes.addressable := by
    decide +kernel
  have hnameSet : (SourceSet.bare.serialize blindChecksum).length ≤ Bytes.addressable := by
    decide +kernel
  obtain ⟨hfiles, hnames, hfileSets, hnameSets⟩ := length_damage_is_refused
  exact ⟨⟨Snapshot.fits_widths, hfile, hfiles _ Snapshot.fits_widths _ _ hfile⟩,
    ⟨SourceSet.fits_widths.2.1, hname, hnames _ SourceSet.fits_widths.2.1 _ _ hname⟩,
    ⟨SourceSet.fits_widths, hfileSet, hfileSets _ SourceSet.fits_widths _ _ hfileSet⟩,
    SourceSet.fits_bare, hnameSet, hnameSets _ SourceSet.fits_bare _ _ hnameSet⟩

end BuildDelta
