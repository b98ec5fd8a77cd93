import BuildDelta.IncrementalScan
import BuildDelta.Proofs.Frame.ByteDamage
import BuildDelta.Proofs.SourceSet.RoundTrip
import BuildDelta.Proofs.Store.Loading
/-!
# Damaged state files

No state is read from a file in which one byte was changed (`byte_damage_gives_no_state`). Whatever goes
by the state then goes on as if nothing had been kept, and a scan reports everything. But a byte in front
of the kind can be the end of the program instead (`byte_damage_can_end_the_program`).
-/

namespace BuildDelta

open BuildDelta.Frame Wire

/-- A scan that goes on as if it were the first. -/
structure IncrementalScanner.StartsOver (τ : Type) [Scannable τ] [Format τ]
    (scanner : IncrementalScanner) (fs : FileSystem) (memory : Nat) : Prop where
  counts_as_none : scanner.store.CountsAsNone (Snapshot τ) scanner.name fs memory
  loadOrEmpty : ∀ root, (scanner.store.loadOrEmpty scanner.name root fs memory :
    Except OutOfMemory (Snapshot τ)) = .ok (.empty root)
  scan : ∀ root, (scanner.scan root fs memory : Except ScanError (ScanOutcome τ)) = do
    let current ← Snapshot.scan fs root scanner.filter scanner.options
    pure (.compare current none)

/-- A scan that nothing comes of, since its program ends. -/
structure IncrementalScanner.BreaksOff (τ : Type) [Scannable τ] [Format τ]
    (scanner : IncrementalScanner) (fs : FileSystem) (memory : Nat) (crash : OutOfMemory) : Prop where
  ends_program : scanner.store.EndsProgram (Snapshot τ) scanner.name fs memory crash
  loadOrEmpty : ∀ root, (scanner.store.loadOrEmpty scanner.name root fs memory :
    Except OutOfMemory (Snapshot τ)) = .error crash
  scan : ∀ root, (scanner.scan root fs memory : Except ScanError (ScanOutcome τ)) = do
    let _ ← (Snapshot.scan fs root scanner.filter scanner.options : Except ScanError (Snapshot τ))
    throw (.outOfMemory crash)

section Scanner

variable {τ : Type} [Scannable τ] [Format τ] {scanner : IncrementalScanner} {fs : FileSystem}
  {memory : Nat}

theorem IncrementalScanner.startsOver
    (h : scanner.store.CountsAsNone (Snapshot τ) scanner.name fs memory) :
    scanner.StartsOver τ fs memory where
  counts_as_none := h
  loadOrEmpty root := Store.loadOrEmpty_of_none h.loadUsable
  scan root := by rw [IncrementalScanner.scan, h.loadUsable]; rfl

theorem IncrementalScanner.breaksOff {crash : OutOfMemory}
    (h : scanner.store.EndsProgram (Snapshot τ) scanner.name fs memory crash) :
    scanner.BreaksOff τ fs memory crash where
  ends_program := h
  loadOrEmpty root := by rw [Store.loadOrEmpty, h.loadUsable]; rfl
  scan root := by rw [IncrementalScanner.scan, h.loadUsable]; rfl

end Scanner

section Kept

variable {τ : Type} [Item τ] [Format τ] {checksum : Checksum} {damaged : Bytes} {memory : Nat}

theorem Snapshot.givesNoState {s : Snapshot τ} (hkind : (Utf8.encode (frameKind τ).name).length < 251)
    (h : ByteDamage checksum (s.serialize checksum) (write s) damaged)
    (hmemory : (s.serialize checksum).length ≤ memory) :
    GivesNoState (s.serialize checksum) damaged memory
      (deserialize damaged checksum memory : Except CorruptState (Snapshot τ)) := by
  obtain ⟨e, hdecode, hcrash⟩ :=
    ByteDamage.givesNoState hkind h hmemory (readParts : Reader (String × List τ))
  exact ⟨e, by rw [deserialize, hdecode]; rfl, hcrash⟩

theorem SourceSet.givesNoState {s : SourceSet τ} (hkind : (Utf8.encode (frameKind τ).name).length < 251)
    (h : ByteDamage checksum (s.serialize checksum) (write s) damaged)
    (hmemory : (s.serialize checksum).length ≤ memory) :
    GivesNoState (s.serialize checksum) damaged memory
      (deserialize damaged checksum memory : Except CorruptState (SourceSet τ)) :=
  ByteDamage.givesNoState hkind h hmemory read

end Kept

theorem Store.countsAsNone_or_inFront {σ : Type} [Persisted σ] {store : Store} {name : String}
    {fs : FileSystem} {memory : Nat} {bytes damaged : Bytes}
    (hcontent : fs.contentAt (store.statePath name) = .ok damaged)
    (h : GivesNoState bytes damaged memory (Persisted.ofState damaged memory : Except CorruptState σ)) :
    store.CountsAsNone σ name fs memory ∨
      InFrontOfKind bytes damaged ∧
        ∃ crash, memory < crash.length ∧ store.EndsProgram σ name fs memory crash := by
  obtain ⟨e, hstate, hcrash⟩ := h
  obtain hnone | ⟨crash, heq, hend⟩ := Store.countsAsNone_or_endsProgram hcontent hstate
  · exact .inl hnone
  · obtain ⟨hfront, hlong⟩ := hcrash crash heq
    exact .inr ⟨hfront, crash, hlong, hend⟩

/-- Where loading gets to its end, the program does. -/
theorem Store.countsAsNone_of_isOk {σ : Type} [Persisted σ] {store : Store} {name : String}
    {fs : FileSystem} {memory : Nat} {front : Prop}
    (h : store.CountsAsNone σ name fs memory ∨
      front ∧ ∃ crash, memory < crash.length ∧ store.EndsProgram σ name fs memory crash)
    (hread : (store.loadUsable name fs memory : Except OutOfMemory (Option σ)).isOk = true) :
    store.CountsAsNone σ name fs memory := by
  obtain hnone | ⟨-, crash, -, hend⟩ := h
  · exact hnone
  · rw [hend.loadUsable] at hread
    cases hread

theorem IncrementalScanner.startsOver_or_inFront {τ : Type} [Scannable τ] [Format τ]
    {scanner : IncrementalScanner} {fs : FileSystem} {memory : Nat} {bytes damaged : Bytes}
    (hcontent : fs.contentAt (scanner.store.statePath scanner.name) = .ok damaged)
    (h : GivesNoState bytes damaged memory (Snapshot.deserialize damaged .ofBytes memory :
      Except CorruptState (Snapshot τ))) :
    scanner.StartsOver τ fs memory ∨
      InFrontOfKind bytes damaged ∧
        ∃ crash, memory < crash.length ∧ scanner.BreaksOff τ fs memory crash := by
  obtain hnone | ⟨hfront, crash, hlong, hend⟩ := Store.countsAsNone_or_inFront hcontent h
  · exact .inl (startsOver hnone)
  · exact .inr ⟨hfront, crash, hlong, breaksOff hend⟩

section Reading

variable (τ : Type) [Scannable τ] [Format τ] (damaged : Bytes) (memory : Nat)

/-- What is said of the bytes of a state of items of one type in which one was changed, where there is room
for the state. As what is found in a store they count as none, and whatever goes by them goes on as if
nothing had been kept. Only a byte in front of the kind can be the end of the program instead, where the
kind then asks for more memory than there is. -/
structure ReadsNoState : Prop where
  snapshot : ∀ (s : Snapshot τ) checksum, ByteDamage checksum (s.serialize checksum) (write s) damaged →
    (s.serialize checksum).length ≤ memory → GivesNoState (s.serialize checksum) damaged memory
      (Snapshot.deserialize damaged checksum memory : Except _ (Snapshot τ))
  sourceSet : ∀ (s : SourceSet τ) checksum, ByteDamage checksum (s.serialize checksum) (write s) damaged →
    (s.serialize checksum).length ≤ memory → GivesNoState (s.serialize checksum) damaged memory
      (SourceSet.deserialize damaged checksum memory : Except _ (SourceSet τ))
  scan : ∀ s : Snapshot τ, ByteDamage .ofBytes s.serialize (write s) damaged →
    s.serialize.length ≤ memory → ∀ (scanner : IncrementalScanner) fs,
      fs.contentAt (scanner.store.statePath scanner.name) = .ok damaged →
      scanner.StartsOver τ fs memory ∨
        InFrontOfKind s.serialize damaged ∧
          ∃ crash, memory < crash.length ∧ scanner.BreaksOff τ fs memory crash
  load : ∀ s : SourceSet τ, ByteDamage .ofBytes s.serialize (write s) damaged →
    s.serialize.length ≤ memory → ∀ (store : Store) name fs,
      fs.contentAt (store.statePath name) = .ok damaged →
      store.CountsAsNone (SourceSet τ) name fs memory ∨
        InFrontOfKind s.serialize damaged ∧
          ∃ crash, memory < crash.length ∧ store.EndsProgram (SourceSet τ) name fs memory crash

variable {τ} in
/-- Short names of kinds have their length in one byte. -/
theorem readsNoState (hkind : (Utf8.encode (Snapshot.frameKind τ).name).length < 251)
    (hkinds : (Utf8.encode (SourceSet.frameKind τ).name).length < 251) :
    ReadsNoState τ damaged memory where
  snapshot _ _ := Snapshot.givesNoState hkind
  sourceSet _ _ := SourceSet.givesNoState hkinds
  scan _ h hmemory _ _ hcontent :=
    IncrementalScanner.startsOver_or_inFront hcontent (Snapshot.givesNoState hkind h hmemory)
  load _ h hmemory _ _ _ hcontent :=
    Store.countsAsNone_or_inFront hcontent (SourceSet.givesNoState hkinds h hmemory)

end Reading

/-- Nothing is read from a state of either type of items in which one byte was changed, whichever byte it is
and whatever it becomes. -/
theorem byte_damage_gives_no_state (damaged : Bytes) (memory : Nat) :
    ReadsNoState FileItem damaged memory ∧ ReadsNoState KeyItem damaged memory := by
  constructor
  · exact readsNoState damaged memory (by decide +kernel) (by decide +kernel)
  · exact readsNoState damaged memory (by decide +kernel) (by decide +kernel)

/-- Only a state file, in the directory of a store. -/
def Store.holding (bytes : Bytes) : FileSystem where
  top := .directory true [(Utf8.encode ".incre",
    .directory true [(Utf8.encode "sources.snapshot", .file ⟨bytes, 0, true⟩)])]
  workingDirectory := []
  clock := 0

/-- A scanner of the whole working directory. -/
def IncrementalScanner.plain : IncrementalScanner :=
  ⟨⟨.ofString ".incre"⟩, "sources", fun _ => true, {}⟩

/-- Changed are a length in the payload, the header's length, the version and the length of the kind. -/
theorem byte_damage_gives_no_state_anywhere :
    let files := Snapshot.widths.serialize.set 40 252
    let names := SourceSet.widths.directories.serialize.set 4 20
    let fileSets := SourceSet.widths.serialize.set 8 251
    let nameSets := SourceSet.bare.serialize.set 9 13
    let scanner := IncrementalScanner.plain
    (ByteDamage .ofBytes Snapshot.widths.serialize (write Snapshot.widths) files ∧
      Snapshot.widths.serialize.length ≤ Bytes.addressable ∧
      GivesNoState Snapshot.widths.serialize files Bytes.addressable
        (Snapshot.deserialize files : Except _ (Snapshot FileItem)) ∧
      scanner.StartsOver FileItem (Store.holding files) Bytes.addressable) ∧
    (ByteDamage .ofBytes SourceSet.widths.directories.serialize
        (write SourceSet.widths.directories) names ∧
      SourceSet.widths.directories.serialize.length ≤ Bytes.addressable ∧
      GivesNoState SourceSet.widths.directories.serialize names Bytes.addressable
        (Snapshot.deserialize names : Except _ (Snapshot KeyItem)) ∧
      scanner.StartsOver KeyItem (Store.holding names) Bytes.addressable) ∧
    (ByteDamage .ofBytes SourceSet.widths.serialize (write SourceSet.widths) fileSets ∧
      SourceSet.widths.serialize.length ≤ Bytes.addressable ∧
      GivesNoState SourceSet.widths.serialize fileSets Bytes.addressable
        (SourceSet.deserialize fileSets : Except _ (SourceSet FileItem)) ∧
      scanner.store.CountsAsNone (SourceSet FileItem) "sources" (Store.holding fileSets)
        Bytes.addressable) ∧
    ByteDamage .ofBytes SourceSet.bare.serialize (write SourceSet.bare) nameSets ∧
      SourceSet.bare.serialize.length ≤ Bytes.addressable ∧
      GivesNoState SourceSet.bare.serialize nameSets Bytes.addressable
        (SourceSet.deserialize nameSets : Except _ (SourceSet KeyItem)) ∧
      scanner.store.CountsAsNone (SourceSet KeyItem) "sources" (Store.holding nameSets)
        Bytes.addressable := by
  intro files names fileSets nameSets scanner
  have hfiles := (byte_damage_gives_no_state files Bytes.addressable).1
  have hnames := (byte_damage_gives_no_state names Bytes.addressable).2
  have hfileSets := (byte_damage_gives_no_state fileSets Bytes.addressable).1
  have hnameSets := (byte_damage_gives_no_state nameSets Bytes.addressable).2
  have hfile : ByteDamage .ofBytes Snapshot.widths.serialize (write Snapshot.widths) files :=
    ⟨⟨40, by decide +kernel, 252, by decide +kernel, rfl⟩, by decide +kernel⟩
  have hname : ByteDamage .ofBytes SourceSet.widths.directories.serialize
      (write SourceSet.widths.directories) names :=
    ⟨⟨4, by decide +kernel, 20, by decide +kernel, rfl⟩, by decide +kernel⟩
  have hfileSet : ByteDamage .ofBytes SourceSet.widths.serialize (write SourceSet.widths) fileSets :=
    ⟨⟨8, by decide +kernel, 251, by decide +kernel, rfl⟩, by decide +kernel⟩
  have hnameSet : ByteDamage .ofBytes SourceSet.bare.serialize (write SourceSet.bare) nameSets :=
    ⟨⟨9, by decide +kernel, 13, by decide +kernel, rfl⟩, by decide +kernel⟩
  have hfileRoom : Snapshot.widths.serialize.length ≤ Bytes.addressable := by decide +kernel
  have hnameRoom : SourceSet.widths.directories.serialize.length ≤ Bytes.addressable := by
    decide +kernel
  have hfileSetRoom : SourceSet.widths.serialize.length ≤ Bytes.addressable := by decide +kernel
  have hnameSetRoom : SourceSet.bare.serialize.length ≤ Bytes.addressable := by decide +kernel
  refine ⟨⟨hfile, hfileRoom, hfiles.snapshot _ _ hfile hfileRoom, ?_⟩,
    ⟨hname, hnameRoom, hnames.snapshot _ _ hname hnameRoom, ?_⟩,
    ⟨hfileSet, hfileSetRoom, hfileSets.sourceSet _ _ hfileSet hfileSetRoom, ?_⟩,
    hnameSet, hnameSetRoom, hnameSets.sourceSet _ _ hnameSet hnameSetRoom, ?_⟩
  · obtain hstarts | ⟨hfront, -⟩ := hfiles.scan _ hfile hfileRoom scanner (Store.holding files)
      (by decide +kernel)
    · exact hstarts
    · exact absurd hfront.2 (by decide +kernel)
  · obtain hstarts | ⟨hfront, -⟩ := hnames.scan _ hname hnameRoom scanner (Store.holding names)
      (by decide +kernel)
    · exact hstarts
    · exact absurd hfront.1 (by decide +kernel)
  -- the other two are in front of the kind, and what is missing there is not long
  · exact Store.countsAsNone_of_isOk (hfileSets.load _ hfileSet hfileSetRoom scanner.store "sources"
      (Store.holding fileSets) (by decide +kernel)) (by decide +kernel)
  · exact Store.countsAsNone_of_isOk (hnameSets.load _ hnameSet hnameSetRoom scanner.store "sources"
      (Store.holding nameSets) (by decide +kernel)) (by decide +kernel)

/-- With a marker in place of its length, the name of the kind is as long as a number made of its first
letters and of the checksum. Nothing is found out about the file, and no scan of the tree gets to its
end. -/
theorem byte_damage_can_end_the_program :
    let s : Snapshot FileItem := .empty "/p"
    let damaged := s.serialize.set 9 253
    let crash : OutOfMemory := ⟨0x915B8F71656C6966⟩
    let fs := Store.holding damaged
    ByteDamage .ofBytes s.serialize (write s) damaged ∧ Bytes.addressable < crash.length ∧
      (Snapshot.deserialize damaged : Except _ (Snapshot FileItem)) = .error (.outOfMemory crash) ∧
      IncrementalScanner.plain.BreaksOff FileItem fs Bytes.addressable crash ∧
      (Snapshot.scan fs (.ofString ".") (fun _ => true) {} :
        Except ScanError (Snapshot FileItem)).isOk = true := by
  intro s damaged crash fs
  have hdamage : ByteDamage .ofBytes s.serialize (write s) damaged :=
    ⟨⟨9, by decide +kernel, 253, by decide +kernel, rfl⟩, by decide +kernel⟩
  have hstate : (Snapshot.deserialize damaged : Except _ (Snapshot FileItem)) =
      .error (.outOfMemory crash) := by decide +kernel
  have hcontent : fs.contentAt (IncrementalScanner.plain.store.statePath "sources") = .ok damaged := by
    decide +kernel
  have hload : (IncrementalScanner.plain.store.load "sources" fs :
      Except StoreError (Option (Snapshot FileItem))) = .error (.corrupt (.outOfMemory crash)) :=
    Store.load_of_error hcontent hstate
  exact ⟨hdamage, by decide, hstate,
    IncrementalScanner.breaksOff ⟨hload, Store.loadUsable_of_outOfMemory hload⟩, by decide +kernel⟩

end BuildDelta
