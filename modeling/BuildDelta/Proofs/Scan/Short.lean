import BuildDelta.Proofs.FileSystem.Action
import BuildDelta.Proofs.Path
import BuildDelta.Proofs.Snapshot.RoundTrip
import BuildDelta.Scan.Basic
import Mathlib.Algebra.GroupWithZero.Nat
import Mathlib.Data.List.ReduceOption
/-!
# Scanned texts are short

A path that the system takes is shorter than `pathLimit`, so the root and the keys of a scanned
snapshot are short too. What is left to ask before a scan can be kept as a state is that its items
can be counted (`fits_of_scan`).
-/

namespace BuildDelta

namespace Path

theorem suffix_join (p n : Path) : n.bytes <:+ (p.join n).bytes := by
  rw [join]
  split
  · exact List.suffix_refl _
  split
  · exact List.suffix_append _ _
  · exact (List.suffix_cons slash n.bytes).trans (List.suffix_append _ _)

theorem join_suffix {p q : Path} (h : q.bytes <:+ p.bytes) (n : Path) :
    (q.join n).bytes <:+ (p.join n).bytes := by
  by_cases hq : n.isAbsolute || q.bytes.isEmpty
  · rw [join, if_pos hq]
    exact suffix_join p n
  · obtain ⟨before, hbefore⟩ := h
    simp only [Bool.or_eq_true, not_or] at hq
    have hne : q.bytes ≠ [] := by simpa using hq.2
    have hlast : p.bytes.getLast? = q.bytes.getLast? := by
      rw [← hbefore, List.getLast?_append, List.getLast?_eq_some_getLast hne]
      rfl
    have hp : p.bytes.isEmpty = false := by
      rw [← hbefore]
      simp [hne]
    simp only [join, hq.1, hq.2, hp, hlast, Bool.or_self, Bool.false_eq_true, if_false]
    split
    · exact ⟨before, by rw [← List.append_assoc, hbefore]⟩
    · exact ⟨before, by rw [← List.append_assoc, hbefore]⟩

/-- Each piece with the slash behind it. -/
theorem sum_split (bs : Bytes) : ((split bs).map fun piece => piece.length + 1).sum = bs.length + 1 := by
  induction bs with
  | nil => rfl
  | cons b bs ih =>
    rw [split]
    split
    · simp only [List.map_cons, List.sum_cons, List.length_nil, ih, List.length_cons]
      omega
    · cases hsplit : split bs with
      | nil => exact absurd hsplit (split_ne_nil bs)
      | cons piece pieces =>
        rw [hsplit] at ih
        simp only [List.map_cons, List.sum_cons, List.length_cons] at ih ⊢
        omega

theorem bytes_ofPiece (piece : Bytes) : (Component.ofPiece piece).bytes = piece := by
  unfold Component.ofPiece
  split
  · rename_i h
    rw [h]
    rfl
  · split
    · rename_i h
      rw [h]
      rfl
    · rfl

private theorem sum_pieces_le (pieces : List Bytes) :
    ((((pieces.filter (· ≠ [])).map Component.ofPiece).filter (· ≠ .here)).map
      fun c => c.bytes.length + 1).sum ≤ (pieces.map fun piece => piece.length + 1).sum := by
  induction pieces with
  | nil => simp
  | cons piece pieces ih =>
    rw [List.filter_cons, List.map_cons, List.sum_cons]
    split
    · rw [List.map_cons, List.filter_cons]
      split
      · rw [List.map_cons, List.sum_cons, bytes_ofPiece]
        omega
      · omega
    · omega

theorem sum_components_le (p : Path) :
    (p.components.map fun c => c.bytes.length + 1).sum ≤ p.bytes.length + 2 := by
  have hsum := sum_split p.bytes
  unfold components
  cases hsplit : split p.bytes with
  | nil => simp
  | cons first pieces =>
    have hpieces := sum_pieces_le pieces
    have hfirst : ((firstComponent p first).map fun c => c.bytes.length + 1).sum ≤
        first.length + 2 := by
      unfold firstComponent
      split
      · simp [Component.bytes]
      split
      · simp
      · simp [bytes_ofPiece]
    rw [hsplit, List.map_cons, List.sum_cons] at hsum
    simp only [List.map_append, List.sum_append]
    omega

end Path

namespace Scan

open FileSystem

theorem length_intercalate_le (names : List String) :
    ("/".intercalate names).toList.length ≤ (names.map fun n => n.toList.length + 1).sum := by
  rw [String.toList_intercalate]
  induction names with
  | nil => simp
  | cons n names ih =>
    cases names with
    | nil => simp
    | cons n' names =>
      have hslash : "/".toList.length = 1 := rfl
      simp only [List.map_cons, List.intercalate_cons_cons, List.length_append,
        List.sum_cons] at ih ⊢
      omega

theorem sum_names_le {cs : List Path.Component} {names : List String}
    (h : (cs.mapM fun c => Utf8.decode? c.bytes) = some names) :
    (names.map fun n => n.toList.length + 1).sum ≤ (cs.map fun c => c.bytes.length + 1).sum := by
  induction cs generalizing names with
  | nil =>
    cases h
    simp
  | cons c cs ih =>
    rw [List.mapM_cons] at h
    obtain ⟨n, hn, h⟩ := Option.bind_eq_some_iff.1 h
    obtain ⟨rest, hrest, h⟩ := Option.bind_eq_some_iff.1 h
    cases h
    have hlength := Utf8.length_decode?_le hn
    have hsum := ih hrest
    simp only [List.map_cons, List.sum_cons]
    omega

theorem length_keyOf?_le {relative : Path} {key : String} (h : keyOf? relative = some key) :
    key.toList.length ≤ relative.bytes.length + 2 := by
  obtain ⟨names, hnames, hkey⟩ := Option.bind_eq_some_iff.1 h
  cases hkey
  have hsum := sum_names_le hnames
  have hkey := length_intercalate_le names
  have hcomponents := Path.sum_components_le relative
  omega

/-- A path below the root belongs to the end of a path that the system takes, or is refused later. -/
def Event.Short : Event → Prop
  | .file path relative linked _ =>
    relative.bytes <:+ path.bytes ∧ (linked = true → path.bytes.length < pathLimit)
  | .blocked .. => True

theorem length_lt_of_stat {fs : FileSystem} {p : Path} {n : Node} (h : fs.stat p = .ok n) :
    p.bytes.length < pathLimit := by
  obtain ⟨found, hresolve, -⟩ := bind_eq_ok.1 h
  have hcheck := (resolve_eq_ok.1 hresolve).1
  unfold checkPath at hcheck
  split at hcheck
  · cases hcheck
  split at hcheck
  · cases hcheck
  · omega

mutual

theorem visit_short {fs : FileSystem} {path relative : Path} (h : relative.bytes <:+ path.bytes) :
    ∀ n : Node, ∀ e ∈ visit fs path relative n, e.Short
  | .file f => by
    intro e he
    rw [visit, List.mem_singleton] at he
    subst he
    exact ⟨h, nofun⟩
  | .link target => by
    intro e he
    rw [visit] at he
    split at he
    · rename_i f hstat
      rw [List.mem_singleton] at he
      subst he
      exact ⟨h, fun _ => length_lt_of_stat hstat⟩
    · cases he
  | .directory readable entries => by
    intro e he
    rw [visit] at he
    split at he
    · rw [List.mem_singleton] at he
      subst he
      trivial
    split at he
    · exact visitEntries_short h entries e he
    · rw [List.mem_singleton] at he
      subst he
      trivial
  | .special => by
    intro e he
    rw [visit] at he
    cases he

theorem visitEntries_short {fs : FileSystem} {path relative : Path}
    (h : relative.bytes <:+ path.bytes) :
    ∀ entries : List (Name × Node), ∀ e ∈ visitEntries fs path relative entries, e.Short
  | [] => by
    intro e he
    rw [visitEntries] at he
    cases he
  | (name, n) :: rest => by
    intro e he
    rw [visitEntries, List.mem_append] at he
    cases he with
    | inl he => exact visit_short (Path.join_suffix h ⟨name⟩) n e he
    | inr he => exact visitEntries_short h rest e he

end

theorem events_short {fs : FileSystem} {root : Path} {parallel : Bool} {es : List Event}
    (h : events fs root parallel = .ok es) :
    root.bytes.length < pathLimit ∧ ∀ e ∈ es, e.Short := by
  unfold events at h
  split at h
  · rename_i readable entries hstat
    refine ⟨length_lt_of_stat hstat, ?_⟩
    split at h
    · split at h
      · cases h
        intro e he
        obtain ⟨entry, -, he⟩ := List.mem_flatMap.1 he
        unfold visitAlone at he
        simp only at he
        split at he
        · rw [List.mem_singleton] at he
          subst he
          trivial
        · exact visit_short (Path.suffix_join root ⟨entry.1⟩) _ e he
      · cases h
    · cases h
      exact visit_short List.nil_suffix _
  · cases h
  · cases h
  · cases h

variable {τ : Type} [Scannable τ]

/-- An item that is made of a file has a short key. -/
theorem exists_short_key {filter : Filter} {mode : FingerprintMode} {e : Event} {a : τ}
    (he : e.Short) (h : examine filter mode e = .ok (some a)) :
    ∃ key f, key.toList.length < pathLimit + 2 ∧ Scannable.ofFile mode key f = .ok a := by
  cases e with
  | blocked => cases h
  | file path relative linked f =>
    simp only [examine] at h
    split at h
    · split at h
      · cases h
      rename_i key hkey
      split at h
      · cases h
      rename_i hshort
      have hlength := length_keyOf?_le hkey
      have hsuffix := he.1.length_le
      have hpath : path.bytes.length < pathLimit := by
        cases linked with
        | true => exact he.2 rfl
        | false => simpa [tooLong] using hshort
      refine ⟨key, f, by omega, ?_⟩
      obtain ⟨b, hitem, hb⟩ := map_eq_ok.1 h
      cases hb
      exact mapError_eq_ok.1 hitem
    · cases h

end Scan

theorem Table.mem_of_insertNew {α : Type} [Keyed α] {t u : Table α} {as : List α}
    (h : t.insertNew as = .ok u) : ∀ a ∈ u.toList, a ∈ t.toList ∨ a ∈ as := by
  induction as generalizing t with
  | nil =>
    cases h
    intro a ha
    exact .inl ha
  | cons b as ih =>
    rw [insertNew] at h
    split at h
    · cases h
    intro a ha
    cases ih h a ha with
    | inr hmem => exact .inr (List.mem_cons_of_mem b hmem)
    | inl hmem =>
      have hget := get?_key_of_mem hmem
      rw [get?_insert] at hget
      split at hget
      · cases hget
        exact .inr (by simp)
      · exact .inl (mem_of_get? hget).1

namespace Snapshot

variable {τ : Type} [Scannable τ] {fs : FileSystem} {root : Path} {filter : Filter}
  {options : ScanOptions} {s : Snapshot τ}

theorem exists_of_scan (h : Snapshot.scan fs root filter options = .ok s) :
    ∃ es items, Scan.events fs root options.parallel = .ok es ∧
      es.mapM (Scan.examine filter options.fingerprint) = .ok items ∧
      ofItems root.text items.reduceOption = .ok s := by
  obtain ⟨es, hevents, h⟩ := bind_eq_ok.1 h
  obtain ⟨items, hitems, h⟩ := bind_eq_ok.1 h
  exact ⟨es, items, hevents, hitems, mapError_eq_ok.1 h⟩

theorem mem_of_ofItems {r : String} {items : List τ} (h : ofItems r items = .ok s) :
    s.root = r ∧ ∀ a ∈ s.items.toList, a ∈ items := by
  unfold ofItems at h
  cases htable : Table.ofList? items with
  | error key =>
    rw [htable] at h
    cases h
  | ok table =>
    rw [htable] at h
    cases h
    refine ⟨rfl, ?_⟩
    intro a ha
    cases Table.mem_of_insertNew htable a ha with
    | inl hmem => cases hmem
    | inr hmem => exact hmem

/-- A scanned snapshot can be written and read back if its items can be counted. -/
theorem fits_of_scan [Wire.Format τ] [Wire.Lawful τ]
    (hitem : ∀ mode key f (a : τ), Scannable.ofFile mode key f = .ok a → Wire.Fits key → Wire.Fits a)
    (h : Snapshot.scan fs root filter options = .ok s)
    (hsize : s.items.size < Wire.Width.count.bound) : Wire.Fits s := by
  have hshort : ∀ t : String, t.toList.length < FileSystem.pathLimit + 2 → Wire.Fits t := by
    intro t ht
    have hlength := Utf8.length_encode_le t
    have hlimit : 4 * (FileSystem.pathLimit + 2) < Wire.Width.word64.bound := by decide
    change (Utf8.encode t).length < Wire.Width.word64.bound
    omega
  obtain ⟨es, items, hevents, hitems, hbuilt⟩ := exists_of_scan h
  obtain ⟨hroot, hes⟩ := Scan.events_short hevents
  obtain ⟨hroot', hmem⟩ := mem_of_ofItems hbuilt
  refine ⟨?_, hsize, ?_⟩
  · have hlength := Utf8.length_decodeLossy_le root.bytes
    rw [hroot']
    exact hshort root.text (Nat.lt_of_le_of_lt hlength (Nat.lt_add_right 2 hroot))
  · intro a ha
    have ha' := hmem a ha
    rw [List.reduceOption_mem_iff] at ha'
    obtain ⟨e, he, hexamine⟩ := (mem_of_mapM hitems _).1 ha'
    obtain ⟨key, f, hkey, hfile⟩ := Scan.exists_short_key (hes e he) hexamine
    exact hitem _ key f a hfile (hshort key hkey)

end Snapshot

/-- An item of a file adds nothing to its key that could not be written. -/
theorem FileItem.fits_of_ofFile (mode : FingerprintMode) (key : String) (f : FileSystem.File)
    (a : FileItem) (h : Scannable.ofFile mode key f = .ok a) (hkey : Wire.Fits key) : Wire.Fits a := by
  obtain ⟨print, -, rfl⟩ := map_eq_ok.1 h
  exact hkey

theorem KeyItem.fits_of_ofFile (mode : FingerprintMode) (key : String) (f : FileSystem.File)
    (a : KeyItem) (h : Scannable.ofFile mode key f = .ok a) (hkey : Wire.Fits key) : Wire.Fits a := by
  cases h
  exact hkey

end BuildDelta
