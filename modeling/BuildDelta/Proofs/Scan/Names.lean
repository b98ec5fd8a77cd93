import BuildDelta.Proofs.FileSystem.WellNamed
import BuildDelta.Proofs.Path
import BuildDelta.Proofs.Text.Strict
import BuildDelta.Scan.Basic
import Mathlib.Data.List.Basic
/-!
# The names on the way to a file

A walk joins the names on its way, one by one, to the path below the root. What comes out are the names
with slashes between them (`Path.below_empty`), and the key of a file is the text of these bytes, if
they are one (`Scan.keyOf?_relative`). Names hold no slashes, so different ways have different keys
(`Scan.relative_injective`).
-/

namespace BuildDelta

open FileSystem

namespace Path

theorem split_append_of_not_mem {front : Bytes} (h : slash ∉ front) {bs piece : Bytes}
    {pieces : List Bytes} (hsplit : split bs = piece :: pieces) :
    split (front ++ bs) = (front ++ piece) :: pieces := by
  induction front with
  | nil => exact hsplit
  | cons b front ih =>
    rw [List.mem_cons, not_or] at h
    rw [List.cons_append, split, if_neg (Ne.symm h.1), ih h.2]
    rfl

theorem split_intercalate {names : List Bytes} (hne : names ≠ [])
    (h : ∀ name ∈ names, slash ∉ name) : split ([slash].intercalate names) = names := by
  induction names with
  | nil => exact absurd rfl hne
  | cons name names ih =>
    rw [List.forall_mem_cons] at h
    cases names with
    | nil =>
      rw [List.intercalate_singleton]
      exact split_of_not_mem h.1
    | cons next names =>
      rw [List.intercalate_cons_cons, List.append_assoc, List.singleton_append, split_append_slash,
        split_of_not_mem h.1, ih (List.cons_ne_nil _ _) h.2]
      rfl

theorem intercalate_cons (name : Bytes) (names : List Bytes) :
    [slash].intercalate (name :: names) = name ++ names.flatMap (slash :: ·) := by
  induction names generalizing name with
  | nil => simp
  | cons next names ih =>
    rw [List.intercalate_cons_cons, ih, List.flatMap_cons, List.append_assoc]
    rfl

end Path

theorem FileSystem.Name.Valid.exists_last {name : Name} (h : name.Valid) :
    ∃ b, name.getLast? = some b ∧ b ≠ Path.slash := by
  refine ⟨_, List.getLast?_eq_some_getLast h.ne_nil, ?_⟩
  intro heq
  exact h.no_slash (heq ▸ List.getLast_mem h.ne_nil)

theorem FileSystem.Name.Valid.isAbsolute {name : Name} (h : name.Valid) :
    Path.isAbsolute ⟨name⟩ = false := by
  cases name with
  | nil => rfl
  | cons b name =>
    have hb : b ≠ Path.slash := fun heq => h.no_slash (heq ▸ List.mem_cons_self)
    simp [Path.isAbsolute, hb]

namespace Path

variable {names : List Name} {p : Path}

theorem join_name {name : Name} (h : name.Valid) {b : UInt8} (hlast : p.bytes.getLast? = some b)
    (hb : b ≠ slash) : p.join ⟨name⟩ = ⟨p.bytes ++ slash :: name⟩ := by
  have hne : p.bytes.isEmpty = false := by
    cases hbytes : p.bytes with
    | nil =>
      rw [hbytes] at hlast
      cases hlast
    | cons => rfl
  have hopen : p.bytes.getLast? ≠ some slash := by
    rw [hlast]
    exact fun heq => hb (Option.some.inj heq)
  rw [join, h.isAbsolute, hne, if_neg (by decide), if_neg hopen]

/-- The path to a place below a root. -/
def below (root : Path) (names : List Name) : Path :=
  names.foldl (fun p name => p.join ⟨name⟩) root

theorem below_append (root : Path) (first rest : List Name) :
    root.below (first ++ rest) = (root.below first).below rest :=
  List.foldl_append

theorem bytes_below {b : UInt8} (hlast : p.bytes.getLast? = some b) (hb : b ≠ slash)
    (h : ∀ name ∈ names, name.Valid) :
    (p.below names).bytes = p.bytes ++ names.flatMap (slash :: ·) := by
  induction names generalizing p b with
  | nil => simp [below]
  | cons name names ih =>
    rw [List.forall_mem_cons] at h
    obtain ⟨c, hc, hcslash⟩ := h.1.exists_last
    have hjoin := join_name h.1 hlast hb
    have hlast' : (p.join ⟨name⟩).bytes.getLast? = some c := by
      rw [hjoin, List.getLast?_append, List.getLast?_cons, hc]
      rfl
    have hrest := ih hlast' hcslash h.2
    rw [hjoin] at hrest
    rw [below, List.foldl_cons, hjoin]
    rw [below] at hrest
    rw [hrest, List.flatMap_cons, List.append_assoc]

theorem below_empty (h : ∀ name ∈ names, name.Valid) :
    (⟨[]⟩ : Path).below names = ⟨[slash].intercalate names⟩ := by
  cases names with
  | nil => rfl
  | cons name names =>
    rw [List.forall_mem_cons] at h
    obtain ⟨b, hlast, hb⟩ := h.1.exists_last
    have hrest := bytes_below (p := ⟨name⟩) hlast hb h.2
    rw [intercalate_cons, ← hrest, below, below, List.foldl_cons, join, List.isEmpty_nil, Bool.or_true,
      if_pos rfl]

theorem ofPiece_of_valid {name : Name} (h : name.Valid) : Component.ofPiece name = .name name := by
  rw [Component.ofPiece, if_neg h.ne_here, if_neg h.ne_above]

theorem components_intercalate (h : ∀ name ∈ names, name.Valid) :
    components ⟨[slash].intercalate names⟩ = names.map .name := by
  cases names with
  | nil => rfl
  | cons name names =>
    have hsplit : split ([slash].intercalate (name :: names)) = name :: names :=
      split_intercalate (List.cons_ne_nil _ _) fun n hn => (h n hn).no_slash
    have hpiece : ∀ n ∈ name :: names, Component.ofPiece n = .name n :=
      fun n hn => ofPiece_of_valid (h n hn)
    rw [List.forall_mem_cons] at h
    have hrelative : isAbsolute ⟨[slash].intercalate (name :: names)⟩ = false := by
      have hname := h.1.isAbsolute
      rw [isAbsolute, decide_eq_false_iff_not] at hname ⊢
      rwa [intercalate_cons, List.head?_append_of_ne_nil _ h.1.ne_nil]
    rw [List.forall_mem_cons] at hpiece
    have hfilter : names.filter (· ≠ []) = names :=
      List.filter_eq_self.2 fun n hn => decide_eq_true (h.2 n hn).ne_nil
    have hmap : names.map Component.ofPiece = names.map .name := List.map_congr_left hpiece.2
    have hhere : (names.map Component.name).filter (· ≠ .here) = names.map .name := by
      rw [List.filter_eq_self]
      intro c hc
      obtain ⟨n, -, rfl⟩ := List.mem_map.1 hc
      rfl
    rw [components, hsplit]
    simp only [firstComponent, hrelative, h.1.ne_nil, hpiece.1, hfilter, hmap, hhere,
      Bool.false_eq_true, if_false]
    rfl

end Path

namespace Utf8

/-- The bytes of some text. -/
def IsText (bs : Bytes) : Prop :=
  ∃ text, encode text = bs

theorem isText_encodeChars (cs : List Char) : IsText (encodeChars cs) :=
  ⟨.ofList cs, by rw [encode, String.toList_ofList]⟩

/-- A character of ASCII is its own byte, and all bytes of another one are above those of ASCII. -/
theorem encodeChar_cases (c : Char) :
    (c.toNat < 0x80 ∧ String.utf8EncodeChar c = [UInt8.ofNat c.toNat]) ∨
      (0x80 ≤ c.toNat ∧ ∀ b ∈ String.utf8EncodeChar c, 0x80 ≤ b.toNat) := by
  have hvalid : c.toNat < 0x110000 := by
    obtain h | h := c.valid
    · exact Nat.lt_trans h (by decide)
    · exact h.2
  have hbyte : ∀ m : Nat, 0x80 ≤ m → m < 256 → 0x80 ≤ (UInt8.ofNat m).toNat := by
    intro m hlow hhigh
    rwa [UInt8.toNat_ofNat', Nat.mod_eq_of_lt hhigh]
  unfold String.utf8EncodeChar
  simp only [Char.toNat_val]
  generalize c.toNat = n at hvalid
  split
  · exact .inl ⟨by omega, rfl⟩
  · refine .inr ⟨by omega, ?_⟩
    repeat' split
    all_goals simp only [List.forall_mem_cons, List.not_mem_nil, false_imp_iff, implies_true, and_true]
    · exact ⟨hbyte _ (by omega) (by omega), hbyte _ (by omega) (by omega)⟩
    · exact ⟨hbyte _ (by omega) (by omega), hbyte _ (by omega) (by omega), hbyte _ (by omega) (by omega)⟩
    · exact ⟨hbyte _ (by omega) (by omega), hbyte _ (by omega) (by omega), hbyte _ (by omega) (by omega),
        hbyte _ (by omega) (by omega)⟩

/-- A byte of ASCII stands for its character wherever it occurs. -/
theorem eq_of_mem_encodeChar {c d : Char} (hd : d.toNat < 0x80)
    (h : UInt8.ofNat d.toNat ∈ String.utf8EncodeChar c) : c = d := by
  have hbyte : ∀ {n : Nat}, n < 0x80 → (UInt8.ofNat n).toNat = n := by
    intro n hn
    rw [UInt8.toNat_ofNat', Nat.mod_eq_of_lt (by omega)]
  rcases encodeChar_cases c with ⟨hc, hencode⟩ | ⟨-, habove⟩
  · rw [hencode, List.mem_singleton] at h
    have hn := congrArg UInt8.toNat h
    rw [hbyte hc, hbyte hd] at hn
    exact Char.toNat_inj.1 hn.symm
  · have hlow := habove _ h
    rw [hbyte hd] at hlow
    omega

theorem slash_notMem_encodeChar {c : Char} (h : c ≠ '/') : Path.slash ∉ String.utf8EncodeChar c := by
  intro hmem
  exact h (eq_of_mem_encodeChar (d := '/') (by decide) hmem)

/-- The pieces of a text are texts, for a slash is never part of a longer character. -/
theorem isText_of_mem_split (cs : List Char) : ∀ piece ∈ Path.split (encodeChars cs), IsText piece := by
  induction cs with
  | nil =>
    intro piece hpiece
    rw [List.mem_singleton.1 hpiece]
    exact isText_encodeChars []
  | cons c cs ih =>
    have hcons : encodeChars (c :: cs) = String.utf8EncodeChar c ++ encodeChars cs := rfl
    rw [hcons]
    by_cases hc : c = '/'
    · have hsplit : Path.split (String.utf8EncodeChar c ++ encodeChars cs) =
          [] :: Path.split (encodeChars cs) := by
        rw [hc]
        rfl
      rw [hsplit, List.forall_mem_cons]
      exact ⟨isText_encodeChars [], ih⟩
    · cases hsplit : Path.split (encodeChars cs) with
      | nil => exact absurd hsplit (Path.split_ne_nil _)
      | cons piece pieces =>
        rw [hsplit, List.forall_mem_cons] at ih
        rw [Path.split_append_of_not_mem (slash_notMem_encodeChar hc) hsplit, List.forall_mem_cons]
        obtain ⟨⟨text, rfl⟩, hrest⟩ := ih
        exact ⟨isText_encodeChars (c :: text.toList), hrest⟩

theorem encode_intercalate (texts : List String) :
    encode ("/".intercalate texts) = [Path.slash].intercalate (texts.map encode) := by
  have hchars : ∀ names : List (List Char), encodeChars (['/'].intercalate names) =
      [Path.slash].intercalate (names.map encodeChars) := by
    intro names
    induction names with
    | nil => rfl
    | cons name names ih =>
      cases names with
      | nil => simp
      | cons next names =>
        rw [List.intercalate_cons_cons, List.map_cons, List.map_cons, List.intercalate_cons_cons,
          ← List.map_cons, ← ih]
        simp only [encodeChars, List.flatMap_append]
        rfl
  have hslash : "/".toList = ['/'] := rfl
  rw [encode, String.toList_intercalate, hslash, hchars, List.map_map]
  rfl

theorem exists_map_encode {pieces : List Bytes} (h : ∀ piece ∈ pieces, IsText piece) :
    ∃ texts : List String, texts.map encode = pieces := by
  induction pieces with
  | nil => exact ⟨[], rfl⟩
  | cons piece pieces ih =>
    rw [List.forall_mem_cons] at h
    obtain ⟨⟨text, rfl⟩, hrest⟩ := h
    obtain ⟨texts, rfl⟩ := ih hrest
    exact ⟨text :: texts, rfl⟩

theorem mapM_decode?_eq_some_iff {pieces : List Bytes} {texts : List String} :
    pieces.mapM decode? = some texts ↔ texts.map encode = pieces := by
  induction pieces generalizing texts with
  | nil =>
    rw [List.mapM_nil, List.map_eq_nil_iff]
    exact ⟨fun h => (Option.some.inj h).symm, fun h => congrArg some h.symm⟩
  | cons piece pieces ih =>
    rw [List.mapM_cons]
    constructor
    · intro h
      obtain ⟨text, htext, h⟩ := Option.bind_eq_some_iff.1 h
      obtain ⟨rest, hrest, h⟩ := Option.bind_eq_some_iff.1 h
      cases h
      rw [List.map_cons, decode?_eq_some_iff.1 htext, ih.1 hrest]
    · intro h
      cases texts with
      | nil => cases h
      | cons text texts =>
        rw [List.map_cons, List.cons.injEq] at h
        rw [decode?_eq_some_iff.2 h.1, ih.2 h.2]
        rfl

end Utf8

namespace Path

theorem text_ofString (s : String) : (ofString s).text = s :=
  Utf8.decodeLossy_encode s

theorem ofString_text {p : Path} (h : Utf8.IsText p.bytes) : ofString p.text = p := by
  obtain ⟨s, hs⟩ := h
  obtain rfl : ofString s = p := congrArg Path.mk hs
  rw [text_ofString]

end Path

namespace Scan

/-- The names on a way below the root of a scan, as a path. -/
def relative (names : List Name) : Path := ⟨[Path.slash].intercalate names⟩

variable {names names' : List Name}

theorem relative_injective (h : ∀ name ∈ names, name.Valid) (h' : ∀ name ∈ names', name.Valid)
    (heq : relative names = relative names') : names = names' := by
  have hnames := congrArg Path.components heq
  rw [relative, relative, Path.components_intercalate h, Path.components_intercalate h'] at hnames
  exact List.map_injective_iff.2 (fun _ _ => Path.Component.name.inj) hnames

/-- A path has for its key the text that it is. -/
theorem keyOf?_relative (h : ∀ name ∈ names, name.Valid) {key : String} :
    keyOf? (relative names) = some key ↔ Utf8.encode key = (relative names).bytes := by
  have hkey : keyOf? (relative names) = (names.mapM Utf8.decode?).map "/".intercalate := by
    rw [keyOf?, relative, Path.components_intercalate h, List.mapM_map, Option.map_eq_bind]
    rfl
  rw [hkey, Option.map_eq_some_iff]
  constructor
  · rintro ⟨texts, htexts, rfl⟩
    rw [Utf8.encode_intercalate, Utf8.mapM_decode?_eq_some_iff.1 htexts]
    rfl
  · intro hbytes
    have htexts : ∀ name ∈ names, Utf8.IsText name := by
      intro name hname
      refine Utf8.isText_of_mem_split key.toList name ?_
      have hsplit : Path.split (relative names).bytes = names :=
        Path.split_intercalate (List.ne_nil_of_mem hname) fun n hn => (h n hn).no_slash
      rw [← Utf8.encode, hbytes, hsplit]
      exact hname
    obtain ⟨texts, htexts⟩ := Utf8.exists_map_encode htexts
    refine ⟨texts, Utf8.mapM_decode?_eq_some_iff.2 htexts, Utf8.encode_injective ?_⟩
    rw [Utf8.encode_intercalate, htexts, hbytes]
    rfl

end Scan

end BuildDelta
