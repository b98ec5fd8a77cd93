import BuildDelta.Proofs.Snapshot.RoundTrip
import BuildDelta.SourceSet.Persisted
import Mathlib.Algebra.Group.Nat.Defs
/-!
# Everything that is kept can be read back

A source set is read back as it was written: its snapshots are, and a list in order of names makes the
table it came from (`Table.ofList_toList`). With that, all that goes through a frame comes back from it
(`kept_is_read_back`): snapshots and source sets of either sort, and bare lists under any kind.
-/

namespace BuildDelta

namespace Table

variable {α : Type} [Keyed α]

/-- Keys that go on ascending replace nothing. -/
theorem foldl_insert_of_ascending (t : Table α) {as : List α} (h : Ascending (t.toList ++ as)) :
    as.foldl insert t = ⟨t.toList ++ as, h⟩ := by
  induction as generalizing t with
  | nil => exact Table.ext (List.append_nil _).symm
  | cons a as ih =>
    have hsplit : t.toList ++ a :: as = t.toList ++ [a] ++ as := by simp
    have hfirst : Ascending (t.toList ++ [a]) :=
      (hsplit ▸ h).sublist (List.sublist_append_left ..)
    rw [List.foldl_cons, insert_of_ascending t hfirst, ih ⟨t.toList ++ [a], hfirst⟩ (hsplit ▸ h)]
    exact Table.ext hsplit.symm

theorem ofList_toList (t : Table α) : ofList t.toList = t :=
  foldl_insert_of_ascending empty t.ascending

end Table

instance {α : Type} [Wire.Format α] [Wire.Lawful α] : Wire.Lawful (String × α) where
  Fits p := Wire.Fits p.1 ∧ Wire.Fits p.2
  read_write p hfits rest := by
    have hname := Wire.read_write p.1 hfits.1
    have hvalue := Wire.read_write p.2 hfits.2
    have hassoc : Wire.write p ++ rest = Wire.write p.1 ++ (Wire.write p.2 ++ rest) :=
      List.append_assoc ..
    rw [hassoc]
    refine (Wire.Reader.bind_ok (hname _)).trans ?_
    exact Wire.Reader.bind_ok (hvalue rest)

@[simp] theorem Wire.fits_pair {α : Type} [Wire.Format α] [Wire.Lawful α] (p : String × α) :
    Wire.Fits p ↔ Wire.Fits p.1 ∧ Wire.Fits p.2 := Iff.rfl

namespace SourceSet

variable {τ : Type} [Item τ] [Wire.Format τ] [Wire.Lawful τ]

instance : Wire.Lawful (SourceSet τ) where
  Fits s := Wire.Fits s.projectRoot ∧ Wire.Fits s.directories ∧ Wire.Fits s.sets.toList
  read_write s hfits rest := by
    have hroot := Wire.read_write s.projectRoot hfits.1
    have hdirectories := Wire.read_write s.directories hfits.2.1
    have hsets := Wire.read_write s.sets.toList hfits.2.2
    have hassoc : Wire.write s ++ rest = Wire.write s.projectRoot ++
        (Wire.write s.directories ++ (Wire.write s.sets.toList ++ rest)) := by
      simp only [Wire.write, List.append_assoc]
    rw [hassoc]
    refine (Wire.Reader.bind_ok (hroot _)).trans ?_
    refine (Wire.Reader.bind_ok (hdirectories _)).trans ?_
    refine (Wire.Reader.bind_ok (hsets rest)).trans ?_
    rw [Table.ofList_toList]
    rfl

@[simp] theorem fits_iff (s : SourceSet τ) : Wire.Fits s ↔
    Wire.Fits s.projectRoot ∧ Wire.Fits s.directories ∧ Wire.Fits s.sets.toList := Iff.rfl

theorem deserialize_serialize {s : SourceSet τ} {memory : Nat} (h : Wire.Fits s)
    (checksum : Frame.Checksum) : deserialize (s.serialize checksum) checksum memory = .ok s :=
  Frame.decode_encode_write h (frameKind τ) checksum

omit [Wire.Lawful τ] in
theorem deserialize_wrongKind {kind : Frame.Kind} {memory : Nat}
    (h : kind.name ≠ (frameKind τ).name) (payload : Bytes) (checksum : Frame.Checksum) :
    (deserialize (Frame.encode kind payload checksum) checksum memory :
      Except CorruptState (SourceSet τ)) = .error (.wrongKind (frameKind τ).name kind.name) := by
  unfold deserialize
  exact Frame.decode_wrongKind h _ payload checksum

end SourceSet

/-- Whatever fits the widths of its counts is written, under a header that fits its length field, and
is read back as it was: snapshots and source sets, and lists under any kind. The checksum may be any
function of the payload. -/
theorem kept_is_read_back :
    (∀ (kind : Frame.Kind) (payload : Bytes) (checksum : Frame.Checksum),
      (Frame.headerOf kind payload checksum).length < 2 ^ 32) ∧
    (∀ s : Snapshot FileItem, Wire.Fits s → ∀ checksum,
      Snapshot.deserialize (s.serialize checksum) checksum = .ok s) ∧
    (∀ s : Snapshot KeyItem, Wire.Fits s → ∀ checksum,
      Snapshot.deserialize (s.serialize checksum) checksum = .ok s) ∧
    (∀ s : SourceSet FileItem, Wire.Fits s → ∀ checksum,
      SourceSet.deserialize (s.serialize checksum) checksum = .ok s) ∧
    (∀ s : SourceSet KeyItem, Wire.Fits s → ∀ checksum,
      SourceSet.deserialize (s.serialize checksum) checksum = .ok s) ∧
    ∀ name : String, (Utf8.encode name).length < 2 ^ 31 →
      ∃ kind, Frame.Kind.ofString? name = some kind ∧ kind.name = name ∧
        (∀ texts : List String, Wire.Fits texts → ∀ checksum,
          Frame.decode kind Wire.read (Frame.encode kind (Wire.write texts) checksum) checksum =
            .ok texts) ∧
        ∀ numbers : List UInt64, Wire.Fits numbers → ∀ checksum,
          Frame.decode kind Wire.read (Frame.encode kind (Wire.write numbers) checksum) checksum =
            .ok numbers := by
  refine ⟨fun kind payload checksum => Frame.length_header_lt kind (checksum payload),
    fun _ h => Snapshot.deserialize_serialize h, fun _ h => Snapshot.deserialize_serialize h,
    fun _ h => SourceSet.deserialize_serialize h, fun _ h => SourceSet.deserialize_serialize h, ?_⟩
  intro name hname
  have hkind : Frame.Kind.ofString? name = some ⟨name, hname⟩ := dif_pos hname
  exact ⟨⟨name, hname⟩, hkind, rfl, fun _ h => Frame.decode_encode_write h _,
    fun _ h => Frame.decode_encode_write h _⟩

/-- Files with numbers on both sides of each width, one of them with an empty key. -/
def Snapshot.widths : Snapshot FileItem where
  root := "/p"
  items := ⟨[⟨"", .metadata 250 251⟩, ⟨"a", .metadata 65535 65536⟩,
    ⟨"b", .metadata 4294967295 4294967296⟩, ⟨"ü", .content (.ofBytes []) 18446744073709551615⟩],
    by decide +kernel⟩

def SourceSet.widths : SourceSet FileItem where
  projectRoot := ""
  directories := ⟨"", ⟨[⟨"a"⟩, ⟨"ü"⟩], by decide +kernel⟩⟩
  sets := ⟨[("a", .widths), ("ü", .empty "😀")], by decide +kernel⟩

/-- Two directories whose items are bare keys. -/
def SourceSet.bare : SourceSet KeyItem where
  projectRoot := "/p"
  directories := ⟨"/p", ⟨[⟨"."⟩, ⟨"a"⟩], by decide +kernel⟩⟩
  sets := ⟨[(".", ⟨"/p/.", ⟨[⟨""⟩, ⟨"ü"⟩], by decide +kernel⟩⟩), ("a", .empty "/p/a")],
    by decide +kernel⟩

theorem Snapshot.fits_widths : Wire.Fits Snapshot.widths := by
  simp only [fits_iff, FileItem.fits_iff, Wire.fits_text, Wire.fits_list]
  decide +kernel

theorem SourceSet.fits_widths : Wire.Fits SourceSet.widths := by
  simp only [fits_iff, Snapshot.fits_iff, FileItem.fits_iff, KeyItem.fits_iff, Wire.fits_text,
    Wire.fits_list, Wire.fits_pair]
  decide +kernel

theorem SourceSet.fits_bare : Wire.Fits SourceSet.bare := by
  simp only [fits_iff, Snapshot.fits_iff, KeyItem.fits_iff, Wire.fits_text, Wire.fits_list,
    Wire.fits_pair]
  decide +kernel

theorem kept_is_read_back_widths :
    (Wire.Fits Snapshot.widths ∧
      Snapshot.deserialize Snapshot.widths.serialize = .ok Snapshot.widths) ∧
    (Wire.Fits SourceSet.widths.directories ∧
      Snapshot.deserialize SourceSet.widths.directories.serialize =
        .ok SourceSet.widths.directories) ∧
    (Wire.Fits SourceSet.widths ∧
      SourceSet.deserialize SourceSet.widths.serialize = .ok SourceSet.widths) ∧
    (Wire.Fits SourceSet.bare ∧
      SourceSet.deserialize SourceSet.bare.serialize = .ok SourceSet.bare) ∧
    (Utf8.encode "names").length < 2 ^ 31 ∧
    (Wire.Fits ["", "ü"] ∧ ∃ kind, Frame.Kind.ofString? "names" = some kind ∧
      Frame.decode kind Wire.read (Frame.encode kind (Wire.write ["", "ü"])) = .ok ["", "ü"]) ∧
    Wire.Fits [250, (251 : UInt64)] ∧ ∃ kind, Frame.Kind.ofString? "names" = some kind ∧
      Frame.decode kind Wire.read (Frame.encode kind (Wire.write [250, (251 : UInt64)])) =
        .ok [250, (251 : UInt64)] := by
  have hname : (Utf8.encode "names").length < 2 ^ 31 := by decide +kernel
  have htexts : Wire.Fits ["", "ü"] := by
    simp only [Wire.fits_text, Wire.fits_list]
    decide +kernel
  have hnumbers : Wire.Fits [250, (251 : UInt64)] := ⟨by decide, fun _ _ => trivial⟩
  obtain ⟨-, hfiles, hnames, hfileSets, hnameSets, hlists⟩ := kept_is_read_back
  obtain ⟨kind, hkind, -, hreadTexts, hreadNumbers⟩ := hlists "names" hname
  exact ⟨⟨Snapshot.fits_widths, hfiles _ Snapshot.fits_widths _⟩,
    ⟨SourceSet.fits_widths.2.1, hnames _ SourceSet.fits_widths.2.1 _⟩,
    ⟨SourceSet.fits_widths, hfileSets _ SourceSet.fits_widths _⟩,
    ⟨SourceSet.fits_bare, hnameSets _ SourceSet.fits_bare _⟩, hname,
    ⟨htexts, kind, hkind, hreadTexts _ htexts _⟩, hnumbers, kind, hkind, hreadNumbers _ hnumbers _⟩

end BuildDelta
