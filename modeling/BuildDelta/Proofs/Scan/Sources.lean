import BuildDelta.Proofs.Diff.Exact
import BuildDelta.Proofs.Diff.Stale
import BuildDelta.Proofs.Scan.Exact
import Mathlib.Data.List.TakeWhile
/-!
# Sources by their extension

A filter and the rule for stale outputs both go by an extension, and they do not take the same keys. For
the filter an extension is what stands behind the last dot of a name, in whichever case its letters are
(`PathFilter.IsSource`). For the rule it is an ending of the key, letter by letter. Every key of a
filtered scan is a stem with a dot and an extension behind it (`Snapshot.isSource_of_scan`), so an ending
that the rule finds is that extension, and what the two can still differ in are the cases of its letters
(`Diff.StaleOfSources`).
-/

namespace BuildDelta

open FileSystem

namespace Utf8

/-- A text whose bytes have a dot among them has a dot there. -/
theorem exists_of_encodeChars_dot {cs : List Char} {front back : Bytes}
    (h : encodeChars cs = front ++ Path.dot :: back) :
    ∃ stem rest, cs = stem ++ '.' :: rest ∧ encodeChars stem = front ∧ encodeChars rest = back := by
  induction cs generalizing front with
  | nil =>
    have hnil : ([] : Bytes) = front ++ Path.dot :: back := h
    simp at hnil
  | cons c cs ih =>
    have hcons : encodeChars (c :: cs) = String.utf8EncodeChar c ++ encodeChars cs := rfl
    rw [hcons, List.append_eq_append_iff] at h
    rcases h with ⟨front', hfront, hrest⟩ | ⟨tail, hchar, hrest⟩
    · obtain ⟨stem, rest, hcs, hstem, hback⟩ := ih hrest
      refine ⟨c :: stem, rest, by rw [hcs]; rfl, ?_, hback⟩
      rw [hfront, ← hstem]
      rfl
    · -- the dot is a byte of the first character, which it is then the whole of
      cases tail with
      | nil =>
        rw [List.append_nil] at hchar
        have hnext : encodeChars cs = [] ++ Path.dot :: back := hrest.symm
        obtain ⟨stem, rest, hcs, hstem, hback⟩ := ih hnext
        refine ⟨c :: stem, rest, by rw [hcs]; rfl, ?_, hback⟩
        rw [← hchar, ← List.append_nil (String.utf8EncodeChar c), ← hstem]
        rfl
      | cons b tail =>
        rw [List.cons_append, List.cons.injEq] at hrest
        obtain ⟨rfl, hback⟩ := hrest
        have hdot : c = '.' := by
          apply eq_of_mem_encodeChar (d := '.') (by decide)
          rw [hchar]
          exact List.mem_append_right front List.mem_cons_self
        subst hdot
        have hone : ([Path.dot] : Bytes) = front ++ Path.dot :: tail := hchar
        obtain ⟨rfl, rfl⟩ : front = [] ∧ tail = [] := by
          cases front with
          | nil => exact ⟨rfl, by simpa using hone.symm⟩
          | cons b front => simp at hone
        exact ⟨[], cs, rfl, rfl, by simpa using hback.symm⟩

theorem encodeChars_injective {cs ds : List Char} (h : encodeChars cs = encodeChars ds) : cs = ds := by
  have hencode : encode (.ofList cs) = encode (.ofList ds) := by
    rw [encode, encode, String.toList_ofList, String.toList_ofList, h]
  have htexts := congrArg String.toList (encode_injective hencode)
  rwa [String.toList_ofList, String.toList_ofList] at htexts

end Utf8

namespace Text

theorem eq_dot_of_toLower {c : Char} (h : c.toLower = '.') : c = '.' := by
  unfold Char.toLower at h
  split at h
  · rename_i hupper
    -- a letter made lower is a letter still
    have hval := congrArg (fun c : Char => c.val.toNat) h
    obtain ⟨hlo, hhi⟩ := hupper
    rw [ge_iff_le, UInt32.le_iff_toNat_le] at hlo
    rw [UInt32.le_iff_toNat_le] at hhi
    simp at hval hlo hhi
    omega
  · exact h

/-- There is one way only to cut a text at its last dot. -/
theorem eq_of_append_dot {stem stem' x x' : String} (hx : '.' ∉ x.toList) (hx' : '.' ∉ x'.toList)
    (h : stem ++ "." ++ x = stem' ++ "." ++ x') : stem = stem' ∧ x = x' := by
  have hchars : stem.toList ++ '.' :: x.toList = stem'.toList ++ '.' :: x'.toList := by
    simpa using congrArg String.toList h
  suffices hlists : stem.toList = stem'.toList ∧ x.toList = x'.toList from
    ⟨String.toList_injective hlists.1, String.toList_injective hlists.2⟩
  rcases List.append_eq_append_iff.1 hchars with ⟨mid, hstem, htail⟩ | ⟨mid, hstem, htail⟩
  · cases mid with
    | nil => simp_all
    | cons c mid =>
      obtain ⟨-, htail⟩ := List.cons.inj htail
      simp [htail] at hx
  · cases mid with
    | nil => simp_all
    | cons c mid =>
      obtain ⟨-, htail⟩ := List.cons.inj htail
      simp [htail] at hx'

end Text

namespace Path

theorem exists_of_splitExtension {name extension : Bytes}
    (h : (splitExtension name).2 = some extension) :
    ∃ stem, name = stem ++ dot :: extension ∧ dot ∉ extension := by
  have hsplit : name.reverse.takeWhile (· ≠ dot) ++ name.reverse.dropWhile (· ≠ dot) = name.reverse :=
    List.takeWhile_append_dropWhile
  unfold splitExtension at h
  split at h
  · cases h
  · cases h
  · rename_i d stem _ hdrop
    obtain rfl := Option.some.inj h
    have hd : d = dot := by
      have hhead := List.head?_dropWhile_not (· ≠ dot) name.reverse
      rw [hdrop, List.head?_cons] at hhead
      simpa using hhead
    have hname := congrArg List.reverse hsplit
    rw [hdrop, hd, List.reverse_reverse, List.reverse_append, List.reverse_cons, List.append_assoc]
      at hname
    refine ⟨stem.reverse, hname.symm, ?_⟩
    · intro hmem
      have hne := List.mem_takeWhile_imp (List.mem_reverse.1 hmem)
      simp at hne

/-- What is joined ends in the last piece. -/
theorem exists_intercalate_concat (pieces : List Bytes) (last : Bytes) :
    ∃ front, [slash].intercalate (pieces ++ [last]) = front ++ last := by
  cases pieces with
  | nil => exact ⟨[], List.intercalate_singleton⟩
  | cons first pieces =>
    refine ⟨first ++ pieces.flatMap (slash :: ·) ++ [slash], ?_⟩
    rw [List.cons_append, intercalate_cons, List.flatMap_append]
    simp

end Path

namespace Scan

/-- The key of a path ends in the extension of the path. -/
theorem exists_stem_of_keyOf? {p : Path} {key x : String} {extension : Bytes}
    (hkey : keyOf? p = some key) (hextension : p.extension? = some extension)
    (hx : Utf8.decode? extension = some x) :
    ∃ stem, key = stem ++ "." ++ x ∧ '.' ∉ x.toList := by
  obtain ⟨texts, htexts, hjoined⟩ := Option.bind_eq_some_iff.1 hkey
  obtain rfl := Option.some.inj hjoined
  obtain ⟨name, hname, hsplit⟩ := Option.bind_eq_some_iff.1 hextension
  obtain ⟨stem, rfl, hdot⟩ := Path.exists_of_splitExtension hsplit
  rw [Utf8.decode?_eq_some_iff] at hx
  have hbytes : texts.map Utf8.encode = p.components.map Path.Component.bytes := by
    apply Utf8.mapM_decode?_eq_some_iff.1
    rw [List.mapM_map]
    exact htexts
  have hlast : p.components.getLast? = some (.name (stem ++ Path.dot :: extension)) := by
    unfold Path.fileName? at hname
    split at hname
    · rename_i n hn
      rw [hn, Option.some.inj hname]
    · cases hname
  obtain ⟨components, hcomponents⟩ := List.getLast?_eq_some_iff.1 hlast
  obtain ⟨front, hfront⟩ := Path.exists_intercalate_concat (components.map Path.Component.bytes)
    (stem ++ Path.dot :: extension)
  have hencoded : Utf8.encode ("/".intercalate texts) = (front ++ stem) ++ Path.dot :: extension := by
    rw [Utf8.encode_intercalate, hbytes, hcomponents, List.map_append, List.append_assoc, ← hfront]
    rfl
  obtain ⟨before, rest, hchars, -, hrest⟩ := Utf8.exists_of_encodeChars_dot hencoded
  rw [← hx] at hrest
  refine ⟨.ofList before, ?_, ?_⟩
  · apply String.toList_injective
    rw [hchars, Utf8.encodeChars_injective hrest, String.toList_append, String.toList_append,
      String.toList_ofList, List.append_assoc]
    rfl
  · intro hmem
    apply hdot
    rw [← hx, Utf8.encode, Utf8.encodeChars, List.mem_flatMap]
    exact ⟨'.', hmem, by decide⟩

end Scan

namespace PathFilter

theorem dot_notMem_of_sameLetters {e x : String} (h : sameLetters e x = true) (hx : '.' ∉ x.toList) :
    '.' ∉ e.toList := by
  intro he
  have hletters : e.toList.map Char.toLower = x.toList.map Char.toLower := of_decide_eq_true h
  have hdot : '.' ∈ x.toList.map Char.toLower := by
    rw [← hletters]
    exact List.mem_map.2 ⟨'.', he, by decide⟩
  obtain ⟨c, hc, hlower⟩ := List.mem_map.1 hdot
  rw [Text.eq_dot_of_toLower hlower] at hc
  exact hx hc

/-- A key that has the extension, in letters of either case, behind its last dot. -/
def IsSource (sourceExt k : String) : Prop :=
  ∃ stem x, k = stem ++ "." ++ x ∧ '.' ∉ x.toList ∧ sameLetters (Text.dropDots sourceExt) x = true

theorem accepts_singleton {sourceExt : String} {p : Path}
    (h : (new [sourceExt] false).accepts p = true) :
    ∃ extension x, p.extension? = some extension ∧ Utf8.decode? extension = some x ∧
      sameLetters (Text.dropDots sourceExt) x = true := by
  have hextension : hasExtension [Text.dropDots sourceExt] p = true := h
  unfold hasExtension at hextension
  split at hextension
  · rename_i x hx
    obtain ⟨extension, hextension', hdecoded⟩ := Option.bind_eq_some_iff.1 hx
    rw [List.any_cons, List.any_nil, Bool.or_false] at hextension
    exact ⟨extension, x, hextension', hdecoded, hextension⟩
  · cases hextension

end PathFilter

namespace Diff

/-- How far the rule for stale outputs goes along with a filter for the sources, over a difference. -/
structure StaleOfSources {τ : Type} [Item τ] (sourceExt outputExt : String) (d : Diff τ) : Prop where
  isSource : ∀ k ∈ d.addedOrChangedKeys, PathFilter.IsSource sourceExt k
  /-- The two patterns of a source whose extension has the letters in the case that is asked for. -/
  found : ∀ stem, stem ++ "." ++ Text.dropDots sourceExt ∈ d.addedOrChangedKeys →
    ∀ p, IsOutputOf outputExt stem p → p ∈ (d.stalePatterns sourceExt outputExt).toList
  /-- A source whose extension has a letter in the other case has no pattern. -/
  missed : ∀ stem x, stem ++ "." ++ x ∈ d.addedOrChangedKeys → '.' ∉ x.toList →
    x ≠ Text.dropDots sourceExt → outputPatterns sourceExt outputExt (stem ++ "." ++ x) = []
  only : ∀ p ∈ (d.stalePatterns sourceExt outputExt).toList,
    ∃ stem, stem ++ "." ++ Text.dropDots sourceExt ∈ d.addedOrChangedKeys ∧
      '.' ∉ (Text.dropDots sourceExt).toList ∧ IsOutputOf outputExt stem p
  /-- The two agree where no extension has a letter in the other case. -/
  agree : (∀ stem x, stem ++ "." ++ x ∈ d.addedOrChangedKeys → '.' ∉ x.toList →
      x = Text.dropDots sourceExt) →
    ∀ p, p ∈ (d.stalePatterns sourceExt outputExt).toList ↔
      ∃ stem x, stem ++ "." ++ x ∈ d.addedOrChangedKeys ∧ '.' ∉ x.toList ∧ IsOutputOf outputExt stem p

theorem staleOfSources_of_isSource {τ : Type} [Item τ] {d : Diff τ} {sourceExt : String}
    (hsources : ∀ k ∈ d.addedOrChangedKeys, PathFilter.IsSource sourceExt k) (outputExt : String) :
    d.StaleOfSources sourceExt outputExt := by
  have hfound : ∀ stem, stem ++ "." ++ Text.dropDots sourceExt ∈ d.addedOrChangedKeys →
      ∀ p, IsOutputOf outputExt stem p → p ∈ (d.stalePatterns sourceExt outputExt).toList := by
    intro stem hk p hp
    exact mem_stalePatterns.2 ⟨_, hk, mem_outputPatterns.2 ⟨stem, rfl, hp⟩⟩
  have honly : ∀ p ∈ (d.stalePatterns sourceExt outputExt).toList,
      ∃ stem, stem ++ "." ++ Text.dropDots sourceExt ∈ d.addedOrChangedKeys ∧
        '.' ∉ (Text.dropDots sourceExt).toList ∧ IsOutputOf outputExt stem p := by
    intro p hp
    obtain ⟨k, hk, hp⟩ := mem_stalePatterns.1 hp
    obtain ⟨stem, rfl, hout⟩ := mem_outputPatterns.1 hp
    obtain ⟨-, x, -, hx, hletters⟩ := hsources _ hk
    exact ⟨stem, hk, PathFilter.dot_notMem_of_sameLetters hletters hx, hout⟩
  refine ⟨hsources, hfound, ?_, honly, ?_⟩
  · intro stem x hk hx hne
    apply List.eq_nil_iff_forall_not_mem.2
    intro p hp
    obtain ⟨other, heq, -⟩ := mem_outputPatterns.1 hp
    obtain ⟨-, y, -, hy, hletters⟩ := hsources _ hk
    -- a dotless ending of the key is all that is behind its last dot
    exact hne (Text.eq_of_append_dot hx (PathFilter.dot_notMem_of_sameLetters hletters hy) heq).2
  · intro hspelled p
    constructor
    · intro hp
      obtain ⟨stem, hk, hdot, hp⟩ := honly p hp
      exact ⟨stem, _, hk, hdot, hp⟩
    · rintro ⟨stem, x, hk, hx, hp⟩
      obtain rfl := hspelled stem x hk hx
      exact hfound stem hk p hp

end Diff

namespace Snapshot

section

variable {τ : Type} [Scannable τ] [Scannable.Faithful τ] {fs : FileSystem} {root : Path}
  {filter : Filter} {options : ScanOptions} {s : Snapshot τ}

/-- An item has the key of a path that the filter has accepted. -/
theorem exists_path_of_scan (h : scan fs root filter options = .ok s) {a : τ}
    (ha : a ∈ s.items.toList) : ∃ p, filter p = true ∧ Scan.keyOf? p = some (key a) := by
  obtain ⟨es, items, -, hitems, hbuilt⟩ := exists_of_scan h
  have hmem := (mem_of_ofItems hbuilt).2 a ha
  rw [List.reduceOption_mem_iff] at hmem
  obtain ⟨e, -, hexamine⟩ := (mem_of_mapM hitems _).1 hmem
  cases e with
  | blocked path cause => cases hexamine
  | file path relative linked f =>
    cases hfilter : filter relative with
    | false =>
      simp only [Scan.examine, hfilter, Bool.false_eq_true, if_false] at hexamine
      cases hexamine
    | true =>
      simp only [Scan.examine, hfilter, if_true] at hexamine
      split at hexamine
      · cases hexamine
      rename_i key' hkey
      split at hexamine
      · cases hexamine
      obtain ⟨b, hmade, hb⟩ := map_eq_ok.1 hexamine
      cases hb
      rw [mapError_eq_ok] at hmade
      refine ⟨relative, hfilter, ?_⟩
      rw [hkey, (Scannable.Faithful.ofFile_eq_ok_iff.1 hmade).1]

theorem isSource_of_scan {sourceExt k : String}
    (h : scan fs root (PathFilter.new [sourceExt] false).accepts options = .ok s) {a : τ}
    (ha : s.get? k = some a) : PathFilter.IsSource sourceExt k := by
  obtain ⟨hmem, rfl⟩ := Table.mem_of_get? ha
  obtain ⟨p, hfilter, hkey⟩ := exists_path_of_scan h hmem
  obtain ⟨extension, x, hextension, hx, hletters⟩ := PathFilter.accepts_singleton hfilter
  obtain ⟨stem, hstem, hdot⟩ := Scan.exists_stem_of_keyOf? hkey hextension hx
  exact ⟨stem, x, hstem, hdot, hletters⟩

theorem staleOfSources_diff {sourceExt : String}
    (h : scan fs root (PathFilter.new [sourceExt] false).accepts options = .ok s)
    (previous : Snapshot τ) (outputExt : String) :
    (s.diff previous).StaleOfSources sourceExt outputExt := by
  apply Diff.staleOfSources_of_isSource
  intro k hk
  obtain ⟨c, hc, hstatus⟩ := Diff.mem_addedOrChangedKeys.1 hk
  rw [get?_diff] at hc
  cases ha : s.get? k with
  | some a => exact isSource_of_scan h ha
  | none =>
    cases hb : previous.get? k with
    | none => simp [ha, hb, Change.between?] at hc
    | some b =>
      obtain rfl : .removed b = c := by simpa [ha, hb, Change.between?] using hc
      exact absurd rfl hstatus

end

end Snapshot

/-- Between any two scans for the sources of one extension, a key that is new or changed is one of a
source by the filter, and the stale outputs are those of the sources whose extension has its letters in
the case that is asked for. -/
theorem scanned_sources_have_stale_outputs (sourceExt outputExt : String) (fs fs' : FileSystem)
    (root root' : Path) (options options' : ScanOptions) :
    let filter := (PathFilter.new [sourceExt] false).accepts
    (∀ current previous : Snapshot FileItem, Snapshot.scan fs root filter options = .ok current →
      Snapshot.scan fs' root' filter options' = .ok previous →
        (current.diff previous).StaleOfSources sourceExt outputExt) ∧
    ∀ current previous : Snapshot KeyItem, Snapshot.scan fs root filter options = .ok current →
      Snapshot.scan fs' root' filter options' = .ok previous →
        (current.diff previous).StaleOfSources sourceExt outputExt := by
  intro filter
  constructor
  · intro current previous hcurrent _
    exact Snapshot.staleOfSources_diff hcurrent previous outputExt
  · intro current previous hcurrent _
    exact Snapshot.staleOfSources_diff hcurrent previous outputExt

/-- Two states of a tree, and sources under several spellings of their extension. -/
def FileSystem.spelled : FileSystem where
  top := .directory true [
    (Utf8.encode "old", .directory true [(Utf8.encode "A.java", .file ⟨[1], 5, true⟩)]),
    (Utf8.encode "new", .directory true [
      (Utf8.encode "A.java", .file ⟨[2], 6, true⟩),
      (Utf8.encode "a", .directory true [(Utf8.encode "B.JAVA", .file ⟨[], 5, true⟩)]),
      (Utf8.encode "C.x.Java", .file ⟨[], 5, true⟩),
      (Utf8.encode "notes.txt", .file ⟨[], 5, true⟩)])]
  workingDirectory := []
  clock := 0

theorem scanned_sources_have_stale_outputs_spelled :
    let filter := (PathFilter.new [".java"] false).accepts
    ∃ current previous : Snapshot FileItem,
      Snapshot.scan spelled (Path.ofString "new") filter ⟨.metadata, true⟩ = .ok current ∧
      Snapshot.scan spelled (Path.ofString "old") filter ⟨.content, false⟩ = .ok previous ∧
      (current.diff previous).addedOrChangedKeys = ["A.java", "C.x.Java", "a/B.JAVA"] ∧
      (current.diff previous).StaleOfSources ".java" "class" ∧
      ((current.diff previous).stalePatterns ".java" "class").toList = ["A$*.class", "A.class"] ∧
      ∃ now before : Snapshot KeyItem,
        Snapshot.scan spelled (Path.ofString "new") filter ⟨.metadata, true⟩ = .ok now ∧
        Snapshot.scan spelled (Path.ofString "old") filter ⟨.content, false⟩ = .ok before ∧
        (now.diff before).StaleOfSources ".java" "class" := by
  intro filter
  obtain ⟨hfiles, hnames⟩ := scanned_sources_have_stale_outputs ".java" "class" spelled spelled
    (Path.ofString "new") (Path.ofString "old") ⟨.metadata, true⟩ ⟨.content, false⟩
  have hcurrent : Snapshot.scan spelled (Path.ofString "new") filter ⟨.metadata, true⟩ =
      .ok (⟨"new", ⟨[⟨"A.java", .metadata 6 1⟩, ⟨"C.x.Java", .metadata 5 0⟩,
        ⟨"a/B.JAVA", .metadata 5 0⟩], by decide +kernel⟩⟩ : Snapshot FileItem) := by
    decide +kernel
  have hprevious : Snapshot.scan spelled (Path.ofString "old") filter ⟨.content, false⟩ =
      .ok (⟨"old", ⟨[⟨"A.java", .content (.ofBytes [1]) 1⟩], by decide +kernel⟩⟩ :
        Snapshot FileItem) := by
    decide +kernel
  have hnow : Snapshot.scan spelled (Path.ofString "new") filter ⟨.metadata, true⟩ =
      .ok (⟨"new", ⟨[⟨"A.java"⟩, ⟨"C.x.Java"⟩, ⟨"a/B.JAVA"⟩], by decide +kernel⟩⟩ :
        Snapshot KeyItem) := by
    decide +kernel
  have hbefore : Snapshot.scan spelled (Path.ofString "old") filter ⟨.content, false⟩ =
      .ok (⟨"old", ⟨[⟨"A.java"⟩], by decide +kernel⟩⟩ : Snapshot KeyItem) := by
    decide +kernel
  exact ⟨_, _, hcurrent, hprevious, by decide +kernel, hfiles _ _ hcurrent hprevious,
    by decide +kernel, _, _, hnow, hbefore, hnames _ _ hnow hbefore⟩

/-- A source directory before its only file is in it. -/
def FileSystem.bareSources : FileSystem where
  top := .directory true [(Utf8.encode "p", .emptyDirectory)]
  workingDirectory := []
  clock := 0

def FileSystem.firstSource : FileSystem where
  top := .directory true [(Utf8.encode "p", .directory true [
    (Utf8.encode "a", .directory true [(Utf8.encode "B.java", .file ⟨[], 0, true⟩)])])]
  workingDirectory := []
  clock := 0

/-- Of a source that the filter takes for one, and that is new, no output is stale, the letters of its
extension being in the other case. -/
theorem stale_outputs_miss_other_case :
    let filter := (PathFilter.new ["JAVA"] false).accepts
    ∃ current previous : Snapshot KeyItem,
      Snapshot.scan firstSource (Path.ofString "p") filter ⟨.metadata, false⟩ = .ok current ∧
      Snapshot.scan bareSources (Path.ofString "p") filter ⟨.metadata, false⟩ = .ok previous ∧
      "a/B" ++ "." ++ "java" ∈ (current.diff previous).addedOrChangedKeys ∧
      ¬∀ p, Diff.IsOutputOf "class" "a/B" p →
        p ∈ ((current.diff previous).stalePatterns "JAVA" "class").toList := by
  intro filter
  refine ⟨⟨"p", ⟨[⟨"a/B.java"⟩], by decide +kernel⟩⟩, ⟨"p", .empty⟩, by decide +kernel,
    by decide +kernel, by decide +kernel, ?_⟩
  intro hclaim
  have hpattern := hclaim "a/B.class" (.inl (by decide +kernel))
  revert hpattern
  decide +kernel

end BuildDelta
