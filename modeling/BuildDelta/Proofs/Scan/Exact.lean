import BuildDelta.Proofs.Except
import BuildDelta.Proofs.Scan.Short
import BuildDelta.Proofs.Scan.Walk
import BuildDelta.Proofs.Snapshot.Grammar
import Mathlib.Algebra.Ring.Int.Defs
import Mathlib.Data.List.ReduceOption
/-!
# A scan finds exactly the accepted files

What a scan has to look at are the ends of ways through real directories (`Meets`), each of them once:
names are joined to keys in such a way that different ways have different ones (`nodup_keys`), so no two
items are at odds. What a scan gives is described without the order of its walk by `Scanned`. Where
nothing refuses to be read, the one thing left to go wrong is an accepted path that is no text
(`accepted_files_are_found`). A walk goes down the tree and never through a link, so links that lead in
circles do not keep it from its end.
-/

namespace BuildDelta

open FileSystem

/-- The fingerprint of a file: when it was changed and how long it is, or the hash of its bytes and their
number. A time is counted from 1970 on, and is the nearest one that fits if it does not. -/
inductive IsFingerprintOf (f : File) : FingerprintMode → FileFingerprint → Prop
  | metadata (modifiedNs : UInt64)
    (time : (modifiedNs.toNat : Int) = min (max f.modified 0) (2 ^ 64 - 1)) :
    IsFingerprintOf f .metadata (.metadata modifiedNs (UInt64.ofNat f.content.length))
  | content (readable : f.readable = true) :
    IsFingerprintOf f .content
      (.content (ContentHash.ofBytes f.content) (UInt64.ofNat f.content.length))

theorem toNat_clampTime (modified : Int) :
    ((clampTime modified).toNat : Int) = min (max modified 0) (2 ^ 64 - 1) := by
  unfold clampTime
  split
  · show (0 : Int) = _
    omega
  split
  · have hword : modified.toNat < 2 ^ 64 := by omega
    rw [UInt64.toNat_ofNat_of_lt' hword]
    omega
  · show (0xFFFFFFFFFFFFFFFF : Int) = _
    omega

theorem FileFingerprint.ofFile_eq_ok_iff {mode : FingerprintMode} {f : File} {p : FileFingerprint} :
    ofFile mode f = .ok p ↔ IsFingerprintOf f mode p := by
  cases mode with
  | metadata =>
    constructor
    · rintro ⟨⟩
      exact .metadata _ (toNat_clampTime _)
    · rintro ⟨modifiedNs, htime⟩
      have hclamped : clampTime f.modified = modifiedNs := by
        apply UInt64.toNat_inj.1
        exact Int.ofNat_inj.1 ((toNat_clampTime _).trans htime.symm)
      rw [ofFile, hclamped]
  | content =>
    constructor
    · intro h
      rw [ofFile] at h
      split at h
      · cases h
        exact .content ‹_›
      · cases h
    · rintro ⟨⟩
      exact if_pos ‹_›

/-- Items of which it is known what they are for each file. -/
class Scannable.Faithful (τ : Type) [Scannable τ] where
  /-- What an item says of its file, besides the key. -/
  Describes : FingerprintMode → File → τ → Prop
  ofFile_eq_ok_iff : ∀ {mode key f} {a : τ},
    ofFile mode key f = .ok a ↔ Keyed.key a = key ∧ Describes mode f a
  exists_item : ∀ mode key f, (mode = .content → f.readable = true) →
    ∃ a : τ, ofFile mode key f = .ok a

instance : Scannable.Faithful FileItem where
  Describes mode f a := IsFingerprintOf f mode a.fingerprint
  ofFile_eq_ok_iff {mode key f a} := by
    rw [← FileFingerprint.ofFile_eq_ok_iff]
    constructor
    · intro h
      obtain ⟨print, hprint, rfl⟩ := map_eq_ok.1 h
      exact ⟨rfl, hprint⟩
    · rintro ⟨rfl, hprint⟩
      exact map_eq_ok.2 ⟨_, hprint, rfl⟩
  exists_item mode key f h := by
    cases mode with
    | metadata => exact ⟨_, rfl⟩
    | content =>
      have hprint : FileFingerprint.ofFile .content f = .ok _ := if_pos (h rfl)
      exact ⟨_, map_eq_ok.2 ⟨_, hprint, rfl⟩⟩

/-- A bare key says nothing else. -/
instance : Scannable.Faithful KeyItem where
  Describes _ _ _ := True
  ofFile_eq_ok_iff {mode key f a} := by
    constructor
    · rintro ⟨⟩
      exact ⟨rfl, trivial⟩
    · rintro ⟨rfl, -⟩
      rfl
  exists_item mode key f _ := ⟨_, rfl⟩

namespace Scan

variable {τ : Type} [Scannable τ] {fs : FileSystem} {root path : Path} {n : Node}
  {filter : Filter} {mode : FingerprintMode} {names : List Name} {linked : Bool} {f : File} {a : τ}
  {e : Event}

/-- The end of a way, as it is listed. -/
def meeting (root : Path) (names : List Name) (linked : Bool) (f : File) : Event :=
  .file (root.below names) (relative names) linked f

theorem cases_of_mem_events (hn : n.WellNamed) (he : e ∈ visit fs root ⟨[]⟩ n) :
    (∃ p cause, e = .blocked p cause) ∨
      ∃ names linked f, Meets fs root n names linked f ∧ e = meeting root names linked f := by
  obtain hblocked | ⟨names, linked, f, hmeets, rfl⟩ := cases_of_mem_visit hn he
  · exact .inl hblocked
  · exact .inr ⟨names, linked, f, hmeets, by rw [Path.below_empty (hmeets.valid hn)]; rfl⟩

theorem meeting_mem_events (hn : n.WellNamed) (hopen : Open root n)
    (h : Meets fs root n names linked f) : meeting root names linked f ∈ visit fs root ⟨[]⟩ n := by
  have hmem : _ ∈ visit fs root ⟨[]⟩ n := mem_visit_of_meets hn hopen h
  rwa [Path.below_empty (h.valid hn)] at hmem

theorem exists_event_iff (hn : n.WellNamed) (hopen : Open root n) :
    (∃ e ∈ visit fs root ⟨[]⟩ n, examine filter mode e = .ok (some a)) ↔
      ∃ names linked f, Meets fs root n names linked f ∧
        examine filter mode (meeting root names linked f) = .ok (some a) := by
  constructor
  · rintro ⟨e, he, ha⟩
    obtain ⟨_, _, rfl⟩ | ⟨names, linked, f, hmeets, rfl⟩ := cases_of_mem_events hn he
    · cases ha
    · exact ⟨names, linked, f, hmeets, ha⟩
  · rintro ⟨names, linked, f, hmeets, ha⟩
    exact ⟨_, meeting_mem_events hn hopen hmeets, ha⟩

/-- The item of the file at the end of a way: its key is the names with slashes between them, and the rest
is said of the file. -/
structure IsItemOf [Scannable.Faithful τ] (mode : FingerprintMode) (names : List Name) (f : File)
    (a : τ) : Prop where
  key : Utf8.encode (Keyed.key a) = (relative names).bytes
  describes : Scannable.Faithful.Describes mode f a

theorem examine_of_rejected (h : filter (relative names) = false) :
    examine filter mode (meeting root names linked f) = .ok (none : Option τ) := by
  rw [meeting, examine, h]
  rfl

theorem examine_of_not_text (hvalid : ∀ name ∈ names, name.Valid)
    (hfilter : filter (relative names) = true) (h : ¬Utf8.IsText (relative names).bytes) :
    examine filter mode (meeting root names linked f) =
      (.error (.notUtf8 (root.below names)) : Except ScanError (Option τ)) := by
  have hkey : keyOf? (relative names) = none := by
    cases hkey : keyOf? (relative names) with
    | none => rfl
    | some key => exact absurd ⟨key, (keyOf?_relative hvalid).1 hkey⟩ h
  simp only [meeting, examine, hfilter, hkey, if_true]

theorem examine_of_text (hvalid : ∀ name ∈ names, name.Valid)
    (hfilter : filter (relative names) = true) {key : String}
    (h : Utf8.encode key = (relative names).bytes) :
    examine filter mode (meeting root names linked f) =
      if !linked && tooLong (root.below names) then .error (.walk (root.below names) .nameTooLong)
      else ((Scannable.ofFile mode key f : Except FileSystem.Error τ).mapError
        (.io (root.below names))).map some := by
  simp only [meeting, examine, hfilter, (keyOf?_relative hvalid).2 h, if_true]

/-- An item is the item of an accepted file. -/
theorem isItemOf_of_examine [Scannable.Faithful τ] (hvalid : ∀ name ∈ names, name.Valid)
    (h : examine filter mode (meeting root names linked f) = .ok (some a)) :
    filter (relative names) = true ∧ IsItemOf mode names f a := by
  cases hfilter : filter (relative names) with
  | false => cases (examine_of_rejected hfilter).symm.trans h
  | true =>
    refine ⟨rfl, ?_⟩
    by_cases htext : Utf8.IsText (relative names).bytes
    · obtain ⟨key, hkey⟩ := htext
      rw [examine_of_text hvalid hfilter hkey] at h
      split at h
      · cases h
      obtain ⟨b, hmade, hb⟩ := map_eq_ok.1 h
      cases hb
      rw [mapError_eq_ok] at hmade
      obtain ⟨rfl, hdescribes⟩ := Scannable.Faithful.ofFile_eq_ok_iff.1 hmade
      exact ⟨hkey, hdescribes⟩
    · cases (examine_of_not_text hvalid hfilter htext).symm.trans h

/-- Different ways give different keys, so no two items of one scan share theirs. -/
theorem nodup_keys [Scannable.Faithful τ] (hn : n.WellNamed) {items : List (Option τ)}
    (h : (visit fs root ⟨[]⟩ n).mapM (examine filter mode) = .ok items) :
    (items.reduceOption.map Keyed.key).Nodup := by
  have hapart : (visit fs root ((⟨[]⟩ : Path).below []) n).Pairwise Event.Apart :=
    pairwise_visit hn (List.forall_mem_nil _)
  have hresults : ((visit fs root ⟨[]⟩ n).map (examine filter mode)).Pairwise
      fun r r' => ∀ a a' : τ, r = .ok (some a) → r' = .ok (some a') → Keyed.key a ≠ Keyed.key a' := by
    rw [List.pairwise_map]
    refine hapart.imp_of_mem ?_
    intro e e' he he' hapart a a' ha ha' heq
    obtain ⟨_, _, rfl⟩ | ⟨names, linked, f, hmeets, rfl⟩ := cases_of_mem_events hn he
    · cases ha
    obtain ⟨_, _, rfl⟩ | ⟨names', linked', f', hmeets', rfl⟩ := cases_of_mem_events hn he'
    · cases ha'
    obtain ⟨-, ha⟩ := isItemOf_of_examine (hmeets.valid hn) ha
    obtain ⟨-, ha'⟩ := isItemOf_of_examine (hmeets'.valid hn) ha'
    have hbytes : (relative names).bytes = (relative names').bytes := by
      rw [← ha.key, ← ha'.key, heq]
    exact hapart (congrArg Path.mk hbytes)
  rw [mapM_eq_ok_iff.1 h, List.pairwise_map] at hresults
  rw [List.Nodup, List.pairwise_map, List.reduceOption, List.pairwise_filterMap]
  refine hresults.imp ?_
  intro item item' hne a ha a' ha'
  exact hne a a' (congrArg Except.ok ha) (congrArg Except.ok ha')

/-- What a scan of a directory gives when it succeeds, without regard to the order of anything. -/
structure Scanned (fs : FileSystem) (root : Path) (n : Node) (filter : Filter)
    (mode : FingerprintMode) (s : Snapshot τ) : Prop where
  root_eq : s.root = root.text
  entered : Open root n
  examined : ∀ names linked f, Meets fs root n names linked f →
    ∃ item? : Option τ, examine filter mode (meeting root names linked f) = .ok item?
  mem_iff : ∀ a, a ∈ s.items.toList ↔ ∃ names linked f, Meets fs root n names linked f ∧
    examine filter mode (meeting root names linked f) = .ok (some a)

/-- What a scan makes of what it has listed. -/
def collect (root : Path) (filter : Filter) (mode : FingerprintMode) (es : List Event) :
    Except ScanError (Snapshot τ) := do
  let items ← es.mapM (examine filter mode)
  (Snapshot.ofItems root.text items.reduceOption).mapError .duplicateKey

theorem collect_eq_ok_iff {es : List Event} {s : Snapshot τ} : collect root filter mode es = .ok s ↔
    ∃ items, es.mapM (examine filter mode) = .ok items ∧
      Snapshot.ofItems root.text items.reduceOption = .ok s := by
  rw [collect, bind_eq_ok]
  simp only [mapError_eq_ok]

theorem not_blocked_of_mapM {es : List Event} {items : List (Option τ)}
    (h : es.mapM (examine filter mode) = .ok items) (p : Path) (cause : FileSystem.Error) :
    Event.blocked p cause ∉ es := by
  intro he
  obtain ⟨_, hblocked⟩ := exists_of_mapM_eq_ok h _ he
  cases hblocked

theorem collect_visit_eq_ok_iff [Scannable.Faithful τ] (hn : n.WellNamed) {s : Snapshot τ} :
    collect root filter mode (visit fs root ⟨[]⟩ n) = .ok s ↔ Scanned fs root n filter mode s := by
  rw [collect_eq_ok_iff]
  constructor
  · rintro ⟨items, hitems, hbuilt⟩
    obtain ⟨hroot, -, hperm⟩ := Snapshot.ofItems_eq_ok_iff.1 hbuilt
    have hopen : Open root n := (open_iff hn).2 (not_blocked_of_mapM hitems)
    refine ⟨hroot, hopen, fun names linked f hmeets => ?_, fun a => ?_⟩
    · exact exists_of_mapM_eq_ok hitems _ (meeting_mem_events hn hopen hmeets)
    rw [← hperm.mem_iff, List.reduceOption_mem_iff, mem_of_mapM hitems, exists_event_iff hn hopen]
  · intro h
    have hexamined : ∀ e ∈ visit fs root ⟨[]⟩ n, ∃ item? : Option τ,
        examine filter mode e = .ok item? := by
      intro e he
      obtain ⟨p, cause, rfl⟩ | ⟨names, linked, f, hmeets, rfl⟩ := cases_of_mem_events hn he
      · exact absurd he ((open_iff hn).1 h.entered p cause)
      · exact h.examined names linked f hmeets
    obtain ⟨items, hitems⟩ := exists_mapM_eq_ok hexamined
    have hkeys := nodup_keys hn hitems
    refine ⟨items, hitems, Snapshot.ofItems_eq_ok_iff.2 ⟨h.root_eq, hkeys, ?_⟩⟩
    refine (List.perm_ext_iff_of_nodup hkeys.of_map s.items.nodup).2 fun a => ?_
    rw [h.mem_iff, List.reduceOption_mem_iff, mem_of_mapM hitems, exists_event_iff hn h.entered]

/-- Only something that was listed can be in the way: the keys never are. -/
theorem exists_of_collect_eq_error [Scannable.Faithful τ] (hn : n.WellNamed) {e : ScanError}
    (h : (collect root filter mode (visit fs root ⟨[]⟩ n) : Except ScanError (Snapshot τ)) = .error e) :
    ∃ event ∈ visit fs root ⟨[]⟩ n,
      (examine filter mode event : Except ScanError (Option τ)) = .error e := by
  unfold collect at h
  cases hitems : (visit fs root ⟨[]⟩ n).mapM
      (examine filter mode : Event → Except ScanError (Option τ)) with
  | error e' =>
    rw [hitems] at h
    cases h
    exact exists_of_mapM_eq_error hitems
  | ok items =>
    obtain ⟨table, htable⟩ := Table.exists_ofList? (nodup_keys hn hitems)
    rw [hitems] at h
    change (Snapshot.ofItems root.text items.reduceOption).mapError _ = _ at h
    rw [Snapshot.ofItems, htable] at h
    cases h

theorem exists_scanned [Scannable.Faithful τ] (hn : n.WellNamed) (hopen : Open root n)
    (h : ∀ names linked f, Meets fs root n names linked f →
      ∃ item? : Option τ, examine filter mode (meeting root names linked f) = .ok item?) :
    ∃ s : Snapshot τ, Scanned fs root n filter mode s := by
  cases hcollect : (collect root filter mode (visit fs root ⟨[]⟩ n) :
      Except ScanError (Snapshot τ)) with
  | ok s => exact ⟨s, (collect_visit_eq_ok_iff hn).1 hcollect⟩
  | error e =>
    obtain ⟨event, hevent, herror⟩ := exists_of_collect_eq_error hn hcollect
    obtain ⟨p, cause, rfl⟩ | ⟨names, linked, f, hmeets, rfl⟩ := cases_of_mem_events hn hevent
    · exact absurd hevent ((open_iff hn).1 hopen p cause)
    · obtain ⟨item?, hitem⟩ := h names linked f hmeets
      cases hitem.symm.trans herror

/-- The entries of a root can be looked at. -/
def EntriesShort (root : Path) (n : Node) : Prop :=
  ∀ name m, n.get? [name] = some m → tooLong (root.join ⟨name⟩) = false

theorem entriesShort_iff {readable : Bool} {entries : List (Name × Node)}
    (hn : (Node.directory readable entries).WellNamed) :
    EntriesShort root (.directory readable entries) ↔
      ∀ entry ∈ entries, tooLong (root.join ⟨entry.1⟩) = false := by
  constructor
  · intro h entry hentry
    exact h entry.1 entry.2 (hn.get?_cons_iff.2 ⟨entry.2, hentry, rfl⟩)
  · intro h name m hm
    obtain ⟨inner, hentry, -⟩ := hn.get?_cons_iff.1 hm
    exact h _ hentry

theorem flatMap_visitAlone {entries : List (Name × Node)}
    (h : ∀ entry ∈ entries, tooLong (root.join ⟨entry.1⟩) = false) :
    entries.flatMap (visitAlone fs root) = visitEntries fs root ⟨[]⟩ entries := by
  rw [visitEntries_eq]
  refine List.flatMap_congr fun entry hentry => ?_
  have hjoin : (⟨[]⟩ : Path).join ⟨entry.1⟩ = ⟨entry.1⟩ := by
    rw [Path.join, List.isEmpty_nil, Bool.or_true, if_pos rfl]
  rw [visitAlone, h entry hentry, hjoin]
  rfl

theorem events_sequential (hstat : fs.stat root = .ok n) (hdirectory : n.isDirectory = true) :
    events fs root false = .ok (visit fs root ⟨[]⟩ n) := by
  obtain ⟨readable, entries, rfl⟩ := Node.exists_eq_directory hdirectory
  simp only [events, hstat, Bool.false_eq_true, if_false]

/-- It makes no difference where a walk starts if it gets everywhere. -/
theorem events_eq {parallel : Bool} (hstat : fs.stat root = .ok n) (hdirectory : n.isDirectory = true)
    (hn : n.WellNamed) (hopen : Open root n) (hshort : parallel = true → EntriesShort root n) :
    events fs root parallel = .ok (visit fs root ⟨[]⟩ n) := by
  cases parallel with
  | false => exact events_sequential hstat hdirectory
  | true =>
    obtain ⟨readable, entries, rfl⟩ := Node.exists_eq_directory hdirectory
    obtain ⟨⟨-, hreadable⟩, -⟩ := (open_directory_iff hn).1 hopen
    rw [visit_open hn hopen, ← flatMap_visitAlone ((entriesShort_iff hn).1 (hshort rfl))]
    simp only [events, hstat, hreadable, if_true]

/-- A file that a scan has to give an item of. -/
def Accepted (fs : FileSystem) (root : Path) (n : Node) (filter : Filter) (names : List Name)
    (f : File) : Prop :=
  (∃ linked, Meets fs root n names linked f) ∧ filter (relative names) = true

/-- Nothing refuses to be read: directories, entries of the root that a walk starts at, and accepted
files. -/
structure ReadsSucceed (fs : FileSystem) (root : Path) (n : Node) (filter : Filter)
    (options : ScanOptions) : Prop where
  entered : Open root n
  entries : options.parallel = true → EntriesShort root n
  files : ∀ names linked f, Meets fs root n names linked f → filter (relative names) = true →
    (linked = false → tooLong (root.below names) = false) ∧
      (options.fingerprint = .content → f.readable = true)

/-- All that is asked of a scan of a directory. -/
structure FindsAccepted (τ : Type) [Scannable τ] [Scannable.Faithful τ] (fs : FileSystem) (root : Path) (n : Node)
    (filter : Filter) (options : ScanOptions) : Prop where
  succeeds_iff : (∃ s : Snapshot τ, Snapshot.scan fs root filter options = .ok s) ↔
    ∀ names f, Accepted fs root n filter names f → Utf8.IsText (relative names).bytes
  root_eq : ∀ s : Snapshot τ, Snapshot.scan fs root filter options = .ok s → s.root = root.text
  exists_unique : ∀ s : Snapshot τ, Snapshot.scan fs root filter options = .ok s →
    ∀ names f, Accepted fs root n filter names f → ∃ a ∈ s.items.toList,
      IsItemOf options.fingerprint names f a ∧
        ∀ b ∈ s.items.toList, Utf8.encode (Keyed.key b) = (relative names).bytes → b = a
  only : ∀ s : Snapshot τ, Snapshot.scan fs root filter options = .ok s →
    ∀ a ∈ s.items.toList, ∃ names f, Accepted fs root n filter names f ∧
      IsItemOf options.fingerprint names f a
  fails : ∀ e, (Snapshot.scan fs root filter options : Except ScanError (Snapshot τ)) = .error e →
    ∃ names f, Accepted fs root n filter names f ∧ ¬Utf8.IsText (relative names).bytes ∧
      e = .notUtf8 (root.below names)

section Exact

variable {options : ScanOptions}

theorem scan_eq_collect (hstat : fs.stat root = .ok n) (hdirectory : n.isDirectory = true)
    (hn : n.WellNamed) (hopen : Open root n)
    (hshort : options.parallel = true → EntriesShort root n) :
    (Snapshot.scan fs root filter options : Except ScanError (Snapshot τ)) =
      collect root filter options.fingerprint (visit fs root ⟨[]⟩ n) := by
  rw [Snapshot.scan, events_eq hstat hdirectory hn hopen hshort]
  rfl

theorem Scanned.isText {s : Snapshot τ} (hn : n.WellNamed)
    (h : Scanned fs root n filter mode s) (haccepted : Accepted fs root n filter names f) :
    Utf8.IsText (relative names).bytes := by
  obtain ⟨⟨linked, hmeets⟩, hfilter⟩ := haccepted
  obtain ⟨item?, hitem⟩ := h.examined names linked f hmeets
  by_contra htext
  cases (examine_of_not_text (hmeets.valid hn) hfilter htext).symm.trans hitem

variable [Scannable.Faithful τ]

/-- An accepted file that can be read is examined to an item, if its path is a text. -/
theorem exists_item (hvalid : ∀ name ∈ names, name.Valid) (hfilter : filter (relative names) = true)
    (hshort : linked = false → tooLong (root.below names) = false)
    (hread : mode = .content → f.readable = true) (htext : Utf8.IsText (relative names).bytes) :
    ∃ a : τ, examine filter mode (meeting root names linked f) = .ok (some a) := by
  obtain ⟨key, hkey⟩ := htext
  obtain ⟨a, ha⟩ := Scannable.Faithful.exists_item (τ := τ) mode key f hread
  have hlooked : ¬(!linked && tooLong (root.below names)) = true := by
    cases linked with
    | true => exact Bool.false_ne_true
    | false =>
      rw [hshort rfl]
      exact Bool.false_ne_true
  refine ⟨a, ?_⟩
  rw [examine_of_text hvalid hfilter hkey, if_neg hlooked, ha]
  rfl

theorem error_of_event (hn : n.WellNamed) (hreads : ReadsSucceed fs root n filter options) {e : ScanError}
    {event : Event} (hevent : event ∈ visit fs root ⟨[]⟩ n)
    (h : (examine filter options.fingerprint event : Except ScanError (Option τ)) = .error e) :
    ∃ names f, Accepted fs root n filter names f ∧ ¬Utf8.IsText (relative names).bytes ∧
      e = .notUtf8 (root.below names) := by
  obtain ⟨p, cause, rfl⟩ | ⟨names, linked, f, hmeets, rfl⟩ := cases_of_mem_events hn hevent
  · exact absurd hevent ((open_iff hn).1 hreads.entered p cause)
  cases hfilter : filter (relative names) with
  | false => cases (examine_of_rejected hfilter).symm.trans h
  | true =>
    obtain ⟨hshort, hread⟩ := hreads.files names linked f hmeets hfilter
    have hvalid := hmeets.valid hn
    by_cases htext : Utf8.IsText (relative names).bytes
    · obtain ⟨a, ha⟩ := exists_item (τ := τ) hvalid hfilter hshort hread htext
      cases ha.symm.trans h
    · cases (examine_of_not_text hvalid hfilter htext).symm.trans h
      exact ⟨names, f, ⟨⟨linked, hmeets⟩, hfilter⟩, htext, rfl⟩

theorem fails_of_scan (hstat : fs.stat root = .ok n) (hdirectory : n.isDirectory = true)
    (hn : n.WellNamed) (hreads : ReadsSucceed fs root n filter options) {e : ScanError}
    (h : (Snapshot.scan fs root filter options : Except ScanError (Snapshot τ)) = .error e) :
    ∃ names f, Accepted fs root n filter names f ∧ ¬Utf8.IsText (relative names).bytes ∧
      e = .notUtf8 (root.below names) := by
  rw [scan_eq_collect hstat hdirectory hn hreads.entered hreads.entries] at h
  obtain ⟨event, hevent, he⟩ := exists_of_collect_eq_error hn h
  exact error_of_event hn hreads hevent he

namespace Scanned

variable {s : Snapshot τ}

/-- There is an item of each accepted file, and it is the only one with its key. -/
theorem exists_unique (hn : n.WellNamed) (hreads : ReadsSucceed fs root n filter options)
    (h : Scanned fs root n filter options.fingerprint s)
    (haccepted : Accepted fs root n filter names f) : ∃ a ∈ s.items.toList,
      IsItemOf options.fingerprint names f a ∧
        ∀ b ∈ s.items.toList, Utf8.encode (Keyed.key b) = (relative names).bytes → b = a := by
  have htext := h.isText hn haccepted
  obtain ⟨⟨linked, hmeets⟩, hfilter⟩ := haccepted
  obtain ⟨hshort, hread⟩ := hreads.files names linked f hmeets hfilter
  obtain ⟨a, ha⟩ := exists_item (τ := τ) (hmeets.valid hn) hfilter hshort hread htext
  have hmem := (h.mem_iff a).2 ⟨names, linked, f, hmeets, ha⟩
  obtain ⟨-, hitem⟩ := isItemOf_of_examine (hmeets.valid hn) ha
  refine ⟨a, hmem, hitem, fun b hb hkey => ?_⟩
  have hkeys := Utf8.encode_injective (hkey.trans hitem.key.symm)
  have hget := Table.get?_key_of_mem hb
  rw [hkeys, Table.get?_key_of_mem hmem] at hget
  exact (Option.some.inj hget).symm

theorem only (hn : n.WellNamed) (h : Scanned fs root n filter mode s) (ha : a ∈ s.items.toList) :
    ∃ names f, Accepted fs root n filter names f ∧ IsItemOf mode names f a := by
  obtain ⟨names, linked, f, hmeets, hexamine⟩ := (h.mem_iff a).1 ha
  obtain ⟨hfilter, hitem⟩ := isItemOf_of_examine (hmeets.valid hn) hexamine
  exact ⟨names, f, ⟨⟨linked, hmeets⟩, hfilter⟩, hitem⟩

end Scanned

theorem findsAccepted (hstat : fs.stat root = .ok n) (hdirectory : n.isDirectory = true)
    (hn : n.WellNamed) (hreads : ReadsSucceed fs root n filter options) :
    FindsAccepted τ fs root n filter options := by
  have hscan : (Snapshot.scan fs root filter options : Except ScanError (Snapshot τ)) = _ :=
    scan_eq_collect hstat hdirectory hn hreads.entered hreads.entries
  have hscanned : ∀ s : Snapshot τ, Snapshot.scan fs root filter options = .ok s →
      Scanned fs root n filter options.fingerprint s := fun s h =>
    (collect_visit_eq_ok_iff hn).1 (hscan.symm.trans h)
  constructor
  case succeeds_iff =>
    constructor
    · rintro ⟨s, h⟩ names f haccepted
      exact (hscanned s h).isText hn haccepted
    · intro htext
      cases h : (Snapshot.scan fs root filter options : Except ScanError (Snapshot τ)) with
      | ok s => exact ⟨s, rfl⟩
      | error e =>
        obtain ⟨names, f, haccepted, hnot, -⟩ := fails_of_scan hstat hdirectory hn hreads h
        exact absurd (htext names f haccepted) hnot
  case root_eq => exact fun s h => (hscanned s h).root_eq
  case exists_unique =>
    exact fun s h names f haccepted => (hscanned s h).exists_unique hn hreads haccepted
  case only => exact fun s h a ha => (hscanned s h).only hn ha
  case fails => exact fun e h => fails_of_scan hstat hdirectory hn hreads h

end Exact

end Scan

open Scan

/-- A scan of a directory finds every accepted file that a way leads to, each once, and nothing else.
Where the path of one of them is no text, it says which, and it never fails for another reason unless
something refuses to be read. -/
theorem accepted_files_are_found (fs : FileSystem) (root : Path) (n : Node) (filter : Filter)
    (options : ScanOptions) (hstat : fs.stat root = .ok n) (hdirectory : n.isDirectory = true)
    (hn : n.WellNamed) (hreads : ReadsSucceed fs root n filter options) :
    FindsAccepted FileItem fs root n filter options ∧ FindsAccepted KeyItem fs root n filter options :=
  ⟨findsAccepted hstat hdirectory hn hreads, findsAccepted hstat hdirectory hn hreads⟩

namespace Scan

/-- Files at two depths, links to a file, to directories above, to themselves, to nothing and to what
is no file, and a name that is no text. -/
def sampleEntries : List (Name × Node) := [
  (Utf8.encode "a.txt", .file ⟨[1, 2], 5, true⟩),
  (Utf8.encode "d", .directory true [
    (Utf8.encode "b.txt", .file ⟨[], -1, true⟩),
    (Utf8.encode "top", .link (Utf8.encode "..")),
    (Utf8.encode "self", .link (Utf8.encode "self"))]),
  (Utf8.encode "link", .link (Utf8.encode "d/b.txt")),
  (Utf8.encode "again", .link (Utf8.encode "d/top/d")),
  (Utf8.encode "lost", .link (Utf8.encode "nothing")),
  (Utf8.encode "pipe", .special),
  (Utf8.encode "to pipe", .link (Utf8.encode "pipe")),
  ([0xFF], .file ⟨[3], 5, true⟩)]

def sampleTree : Node := .directory true sampleEntries

def sample : FileSystem where
  top := .directory true [(Utf8.encode "s", sampleTree)]
  workingDirectory := []
  clock := 0

theorem wellNamed_sampleTree : sampleTree.WellNamed := by
  simp only [sampleTree, sampleEntries, Node.wellNamed_directory_iff, List.forall_mem_cons,
    List.not_mem_nil, Node.wellNamed_file, Node.wellNamed_link, Node.wellNamed_special,
    IsEmpty.forall_iff, implies_true]
  decide +kernel

def Event.isReadable : Event → Bool
  | .blocked .. => false
  | .file path _ linked f => (linked || !tooLong path) && f.readable

/-- Whether something refuses to be read can be seen from what a walk lists. -/
theorem readsSucceed_of_all {options : ScanOptions} (hn : n.WellNamed) (hshort : EntriesShort root n)
    (h : (visit fs root ⟨[]⟩ n).all Event.isReadable = true) :
    ReadsSucceed fs root n filter options := by
  rw [List.all_eq_true] at h
  have hopen : Open root n := (open_iff hn).2 fun p cause he => Bool.false_ne_true (h _ he)
  refine ⟨hopen, fun _ => hshort, fun names linked f hmeets _ => ?_⟩
  have hfile := h _ (meeting_mem_events hn hopen hmeets)
  simp only [meeting, Event.isReadable, Bool.and_eq_true, Bool.or_eq_true, Bool.not_eq_true'] at hfile
  refine ⟨fun hlinked => ?_, fun _ => hfile.2⟩
  rw [hlinked] at hfile
  exact hfile.1.resolve_left Bool.false_ne_true

def isAscii (p : Path) : Bool := p.bytes.all (· < 0x80)

theorem readsSucceed_sample (filter : Filter) (options : ScanOptions) :
    ReadsSucceed sample (.ofString "s") sampleTree filter options :=
  readsSucceed_of_all wellNamed_sampleTree
    ((entriesShort_iff wellNamed_sampleTree).2 (by decide +kernel)) (by decide +kernel)

end Scan

/-- The files of the sample in one mode and the other. One of them was changed before 1970. -/
def Scan.sampleItems : FingerprintMode → List FileItem
  | .metadata => [⟨"a.txt", .metadata 5 2⟩, ⟨"d/b.txt", .metadata 0 0⟩, ⟨"link", .metadata 0 0⟩]
  | .content => [⟨"a.txt", .content (.ofBytes [1, 2]) 2⟩, ⟨"d/b.txt", .content (.ofBytes []) 0⟩,
    ⟨"link", .content (.ofBytes []) 0⟩]

theorem Scan.ascending_sampleItems (mode : FingerprintMode) : Ascending (sampleItems mode) := by
  cases mode <;> decide +kernel

theorem accepted_files_are_found_sample :
    let root := Path.ofString "s"
    sample.stat root = .ok sampleTree ∧ sampleTree.isDirectory = true ∧ sampleTree.WellNamed ∧
      (∀ mode, ReadsSucceed sample root sampleTree isAscii ⟨mode, true⟩ ∧
        ∃ s : Snapshot FileItem, Snapshot.scan sample root isAscii ⟨mode, true⟩ = .ok s ∧
          s.items.toList = sampleItems mode ∧
          ∀ a ∈ sampleItems mode, ∃ names f, Accepted sample root sampleTree isAscii names f ∧
            IsItemOf mode names f a) ∧
      ∃ e, (Snapshot.scan sample root (fun _ => true) ⟨.content, true⟩ :
          Except _ (Snapshot KeyItem)) = .error e ∧
        ∃ names f, Accepted sample root sampleTree (fun _ => true) names f ∧
          ¬Utf8.IsText (relative names).bytes ∧ e = .notUtf8 (root.below names) := by
  intro root
  have hstat : sample.stat root = .ok sampleTree := rfl
  obtain ⟨-, hnames⟩ := accepted_files_are_found sample root sampleTree (fun _ => true) ⟨.content, true⟩
    hstat rfl wellNamed_sampleTree (readsSucceed_sample _ _)
  have hscan : ∀ mode, Snapshot.scan sample root isAscii ⟨mode, true⟩ =
      .ok (⟨"s", ⟨sampleItems mode, ascending_sampleItems mode⟩⟩ : Snapshot FileItem) := by
    intro mode
    cases mode <;> decide +kernel
  have herror : (Snapshot.scan sample root (fun _ => true) ⟨.content, true⟩ :
      Except ScanError (Snapshot KeyItem)) = .error (.notUtf8 ⟨Utf8.encode "s/" ++ [0xFF]⟩) := by
    decide +kernel
  refine ⟨hstat, rfl, wellNamed_sampleTree, fun mode => ?_, _, herror, hnames.fails _ herror⟩
  have hreads := readsSucceed_sample isAscii ⟨mode, true⟩
  obtain ⟨hfiles, -⟩ := accepted_files_are_found sample root sampleTree isAscii ⟨mode, true⟩ hstat rfl
    wellNamed_sampleTree hreads
  exact ⟨hreads, _, hscan mode, rfl, hfiles.only _ (hscan mode)⟩

end BuildDelta
