import BuildDelta.PathFilter
import BuildDelta.Proofs.Packing.Outcome
import BuildDelta.Proofs.Scan.Sources
import BuildDelta.Settings.Reader
/-!
# What the later stages can rely on in settings that were accepted

Settings are checked in one place and used in others: the filter drops the dots in front of an extension
for itself, and the capacities go to the packer as they are. A text is refused exactly for what those
stages could not work with, an empty extension in the filter among it (`Settings.ofText_eq`). What is the
same extension to the check is the same to the filter, since neither cares for dots in front or for the
case of letters (`Text.Respelled.letters_dropDots`). So settings that pass are safe (`Settings.Safe`).
-/

namespace BuildDelta

namespace Text

/-- A text without the white space at its ends. -/
def trim (s : String) : String :=
  String.ofList ((s.toList.dropWhile isSpace).reverse.dropWhile isSpace).reverse

theorem trim_eq_empty_iff {s : String} : trim s = "" ↔ isBlank s = true := by
  rw [trim, isBlank, String.ofList_eq_empty_iff, List.reverse_eq_nil_iff, List.dropWhile_eq_nil_iff,
    List.all_eq_true]
  simp only [List.mem_reverse]
  constructor
  · intro hrest
    rw [← List.dropWhile_eq_nil_iff]
    by_contra hne
    -- what is left in front starts with no white space
    have hhead := List.head_dropWhile_not isSpace hne
    rw [hrest _ (List.head_mem hne)] at hhead
    exact Bool.noConfusion hhead
  · intro h c hc
    exact h c ((List.dropWhile_sublist isSpace).subset hc)

/-- A text as far as letters of either case are the same. -/
def letters (s : String) : List Char := s.toList.map Char.toLower

theorem letters_dropDots (s : String) : letters (dropDots s) = (letters s).dropWhile (· = '.') := by
  have hdot : ∀ c : Char, decide (c = '.') = decide (c.toLower = '.') := by
    intro c
    rw [decide_eq_decide]
    constructor
    · rintro rfl
      decide
    · exact eq_dot_of_toLower
  rw [letters, letters, dropDots, String.toList_ofList, List.dropWhile_map]
  congr 2
  funext c
  exact hdot c

/-- Spellings of one extension: dots are put in front of it, and letters are written in the other case. -/
inductive Respelled (e : String) : String → Prop
  | same : Respelled e e
  | dot {e' : String} (h : Respelled e e') : Respelled e ("." ++ e')
  | letters {e' e'' : String} (h : Respelled e e') (hletters : PathFilter.sameLetters e' e'' = true) :
    Respelled e e''

theorem Respelled.letters_dropDots {e e' : String} (h : Respelled e e') :
    Text.letters (dropDots e') = Text.letters (dropDots e) := by
  induction h with
  | same => rfl
  | dot h ih =>
    rw [← ih, Text.letters_dropDots, Text.letters_dropDots, Text.letters, String.toList_append,
      List.map_append]
    rfl
  | letters h hletters ih =>
    rw [← ih, Text.letters_dropDots, Text.letters_dropDots]
    exact congrArg _ (of_decide_eq_true hletters).symm

end Text

namespace Path

/-- Whether the last name of a path, if there is one, has an extension of at least one byte. -/
def HasExtension (p : Path) : Prop :=
  ∃ stem extension, p.fileName? = some (stem ++ dot :: extension) ∧ stem ≠ [] ∧ extension ≠ [] ∧
    dot ∉ extension

theorem hasExtension_iff {p : Path} :
    p.HasExtension ↔ ∃ extension, p.extension? = some extension ∧ extension ≠ [] := by
  constructor
  · rintro ⟨stem, extension, hname, hstem, hne, hdot⟩
    refine ⟨extension, Option.bind_eq_some_iff.2 ⟨_, hname, ?_⟩, hne⟩
    rw [splitExtension_append hstem hdot]
  · rintro ⟨extension, hextension, hne⟩
    obtain ⟨name, hname, hsplit⟩ := Option.bind_eq_some_iff.1 hextension
    obtain ⟨stem, rfl, hdot⟩ := exists_of_splitExtension hsplit
    refine ⟨stem, extension, hname, ?_, hne, hdot⟩
    rintro rfl
    rw [List.nil_append, splitExtension_hidden hdot] at hsplit
    cases hsplit

end Path

namespace PathFilter

theorem sameLetters_iff {s t : String} : sameLetters s t = true ↔ Text.letters s = Text.letters t :=
  decide_eq_true_iff

theorem not_accepts_of_not_hasExtension {filter : PathFilter} (hlisted : filter.extensions ≠ [])
    (hempty : "" ∉ filter.extensions) {p : Path} (h : ¬p.HasExtension) : filter.accepts p = false := by
  have hnone : hasExtension filter.extensions p = false := by
    unfold hasExtension
    split
    · rename_i e hdecoded
      obtain ⟨extension, hextension, htext⟩ := Option.bind_eq_some_iff.1 hdecoded
      have hnil : extension = [] := by
        by_contra hne
        exact h (Path.hasExtension_iff.2 ⟨extension, hextension, hne⟩)
      obtain rfl : e = "" := by
        apply Utf8.encode_injective
        rw [Utf8.decode?_eq_some_iff.1 htext, hnil]
        rfl
      rw [List.any_eq_false]
      intro x hx hletters
      have hnone : x.toList = [] := List.map_eq_nil_iff.1 (sameLetters_iff.1 hletters)
      exact hempty (String.toList_eq_nil_iff.1 hnone ▸ hx)
    · rfl
  have hsome : filter.extensions.isEmpty = false := by simpa using hlisted
  rw [accepts, hsome, hnone]
  exact Bool.and_false _

/-- A filter does not tell the spellings of its extensions apart. -/
theorem accepts_new_eq {extensions extensions' : List String}
    (h : List.Forall₂ Text.Respelled extensions extensions') (skipHidden : Bool) :
    (new extensions' skipHidden).accepts = (new extensions skipHidden).accepts := by
  have hany : ∀ e, (extensions'.map Text.dropDots).any (sameLetters · e) =
      (extensions.map Text.dropDots).any (sameLetters · e) := by
    intro e
    induction h with
    | nil => rfl
    | cons hrespelled h ih =>
      have hsame := congrArg (fun cs => decide (cs = Text.letters e)) hrespelled.letters_dropDots
      rw [List.map_cons, List.map_cons, List.any_cons, List.any_cons, ih]
      exact congrArg (· || _) hsame
  have hempty : (extensions'.map Text.dropDots).isEmpty = (extensions.map Text.dropDots).isEmpty := by
    cases h <;> rfl
  funext p
  have hextension : hasExtension (extensions'.map Text.dropDots) p =
      hasExtension (extensions.map Text.dropDots) p := by
    unfold hasExtension
    split
    · exact hany _
    · rfl
  rw [accepts, accepts, new, new]
  simp only [hempty, hextension]

end PathFilter

namespace Settings

/-- What settings must not be, as the later stages see it. -/
def Violates (s : Settings) : Violation → Prop
  | .blankStateDirectory => Text.trim s.snapshot.stateDirectory = ""
  | .emptyExtension => "" ∈ (PathFilter.ofSettings s.snapshot).extensions
  | .zeroFieldCapacity => s.capacity.fields = 0
  | .zeroMethodCapacity => s.capacity.methods = 0

instance (s : Settings) : DecidablePred s.Violates
  | .blankStateDirectory => inferInstanceAs (Decidable (Text.trim s.snapshot.stateDirectory = ""))
  | .emptyExtension => inferInstanceAs (Decidable ("" ∈ (PathFilter.ofSettings s.snapshot).extensions))
  | .zeroFieldCapacity => inferInstanceAs (Decidable (s.capacity.fields = 0))
  | .zeroMethodCapacity => inferInstanceAs (Decidable (s.capacity.methods = 0))

/-- In the order in which they are looked for. -/
def Violation.all : List Violation :=
  [.blankStateDirectory, .emptyExtension, .zeroFieldCapacity, .zeroMethodCapacity]

theorem Violation.mem_all (v : Violation) : v ∈ all := by
  cases v <;> decide

theorem firstViolation?_eq (s : Settings) : s.firstViolation? = Violation.all.find? (s.Violates ·) := by
  have hextension : s.snapshot.extensions.any (Text.dropDots · = "") = true ↔
      s.Violates .emptyExtension := by
    simp [Violates, PathFilter.ofSettings, PathFilter.new]
  have hdirectory : Text.isBlank s.snapshot.stateDirectory = true ↔ s.Violates .blankStateDirectory :=
    Text.trim_eq_empty_iff.symm
  simp only [firstViolation?, Violation.all, List.find?_cons, List.find?_nil, hextension, hdirectory]
  have hfields : s.capacity.fields = 0 ↔ s.Violates .zeroFieldCapacity := .rfl
  have hmethods : s.capacity.methods = 0 ↔ s.Violates .zeroMethodCapacity := .rfl
  simp only [hfields, hmethods]
  split_ifs <;> simp_all

/-- Whether this is violated and nothing in front of it in the order. -/
def FirstViolated (s : Settings) (v : Violation) : Prop :=
  s.Violates v ∧ ∃ earlier later, Violation.all = earlier ++ v :: later ∧ ∀ w ∈ earlier, ¬s.Violates w

theorem firstViolation?_eq_some_iff {s : Settings} {v : Violation} :
    s.firstViolation? = some v ↔ s.FirstViolated v := by
  rw [firstViolation?_eq, List.find?_eq_some_iff_append, FirstViolated]
  simp

theorem firstViolation?_eq_none_iff {s : Settings} :
    s.firstViolation? = none ↔ ∀ v, ¬s.Violates v := by
  rw [firstViolation?_eq, List.find?_eq_none]
  simp [Violation.mem_all]

theorem ofText_eq {text : String} {s : Settings} (h : (Toml.read? text).bind ofEntries? = some s) :
    ofText text = match s.firstViolation? with
      | some v => .error (.invalid v)
      | none => .ok s := by
  rw [ofText, h]
  show (match s.firstViolation? with
    | some v => throw (Error.invalid v)
    | none => pure s : Except Error Settings) = _
  cases s.firstViolation? <;> rfl

/-- What the filter and the packer make of settings. -/
structure Safe (s : Settings) : Prop where
  /-- With extensions listed, a file without one does not count. -/
  rejects : s.snapshot.extensions ≠ [] → ∀ p : Path, ¬p.HasExtension →
    (PathFilter.ofSettings s.snapshot).accepts p = false
  /-- It does not matter how the extensions are spelled. -/
  respelled : ∀ extensions, List.Forall₂ Text.Respelled s.snapshot.extensions extensions → ∀ p,
    (PathFilter.ofSettings { s.snapshot with extensions }).accepts p =
      (PathFilter.ofSettings s.snapshot).accepts p
  /-- A group has room for a unit with no more than one reference of each sort. -/
  packs : ∀ {υ : Type} [Packing.HasReferences υ] (counter : Packing.ReferenceCounter υ) (units : List υ),
    counter.Reachable s.capacity →
    (∀ u ∈ units, Packing.distinct (Packing.HasReferences.fields u) ≤ 1 ∧
      Packing.distinct (Packing.HasReferences.methods u) ≤ 1) →
    (∀ i fields methods, (Packing.pack counter units).1 ≠ .error (.unitTooLarge i fields methods)) ∧
      (Packing.batch counter = [] → ∃ groups, (Packing.pack counter units).1 = .ok groups)

theorem safe_of_not_violates {s : Settings} (h : ∀ v, ¬s.Violates v) : s.Safe where
  rejects hlisted p hp := by
    refine PathFilter.not_accepts_of_not_hasExtension ?_ (h .emptyExtension) hp
    exact fun hnone => hlisted (List.map_eq_nil_iff.1 hnone)
  respelled extensions hrespelled p :=
    congrFun (PathFilter.accepts_new_eq hrespelled s.snapshot.skipHidden) p
  packs counter units hreachable hsmall := by
    have hroom : ∀ u ∈ units, ¬Packing.Oversized s.capacity u := by
      intro u hu hlarge
      have hfields := h .zeroFieldCapacity
      have hmethods := h .zeroMethodCapacity
      have hunit := hsmall u hu
      rw [Packing.distinct_eq_card, Packing.distinct_eq_card] at hunit
      simp only [Violates] at hfields hmethods
      rcases hlarge with hlarge | hlarge <;> omega
    have hpacked : Packing.batch counter = [] → ∃ groups, (Packing.pack counter units).1 = .ok groups :=
      fun hempty => (Packing.exists_pack_eq_ok_iff hreachable.accounts hempty).2 hroom
    refine ⟨fun i fields methods hfailed => ?_, hpacked⟩
    by_cases hempty : Packing.batch counter = []
    · obtain ⟨groups, hok⟩ := hpacked hempty
      rw [hok] at hfailed
      cases hfailed
    · rw [Packing.pack_of_open hempty] at hfailed
      cases hfailed

/-- A text that is TOML with settings of the right sorts is refused exactly if they are blank, empty or
zero where they must not be, with the first such place in the order, and settings that are accepted are
safe for the later stages. -/
theorem accepted_settings_are_safe (text : String) (s : Settings)
    (h : (Toml.read? text).bind ofEntries? = some s) :
    ((∃ e, ofText text = .error e) ↔ ∃ v, s.Violates v) ∧
    (∀ e, ofText text = .error e ↔ ∃ v, e = .invalid v ∧ s.FirstViolated v) ∧
    (ofText text = .ok s ↔ ∀ v, ¬s.Violates v) ∧
    (ofText text = .ok s → s.Safe) := by
  have herror : ∀ e, ofText text = .error e ↔ ∃ v, e = .invalid v ∧ s.FirstViolated v := by
    intro e
    simp only [← firstViolation?_eq_some_iff, ofText_eq h]
    cases s.firstViolation? <;> simp [eq_comm]
  have hok : ofText text = .ok s ↔ ∀ v, ¬s.Violates v := by
    rw [← firstViolation?_eq_none_iff, ofText_eq h]
    cases s.firstViolation? <;> simp
  refine ⟨?_, herror, hok, fun haccepted => safe_of_not_violates (hok.1 haccepted)⟩
  constructor
  · rintro ⟨e, he⟩
    obtain ⟨v, -, hfirst⟩ := (herror e).1 he
    exact ⟨v, hfirst.1⟩
  · rintro ⟨v, hv⟩
    cases hfirst : s.firstViolation? with
    | none => exact absurd hv (firstViolation?_eq_none_iff.1 hfirst v)
    | some w => exact ⟨_, (herror _).2 ⟨w, rfl, firstViolation?_eq_some_iff.1 hfirst⟩⟩

/-- Two extensions, and groups of one reference of each sort. -/
def tightText : String :=
  "[snapshot]\nextensions = [\".Java\", \"kt\"]\n[merge]\nfield_capacity = 1\nmethod_capacity = 1\n"

def tight : Settings where
  snapshot := { extensions := [".Java", "kt"] }
  capacity := ⟨1, 1⟩

/-- An extension that is nothing but dots, and no room in a group. -/
def unusableText : String :=
  "snapshot.extensions = \"..\"\nmerge.field_capacity = 0\n"

def unusable : Settings where
  snapshot := { extensions := [".."] }
  capacity := ⟨0, 65536⟩

theorem accepted_settings_are_safe_tight :
    (Toml.read? tightText).bind ofEntries? = some tight ∧
      (Toml.read? unusableText).bind ofEntries? = some unusable ∧
      ofText unusableText = .error (.invalid .emptyExtension) ∧ ofText tightText = .ok tight ∧
      (PathFilter.ofSettings tight.snapshot).accepts (.ofString "a/x.JAVA") = true ∧
      (PathFilter.ofSettings tight.snapshot).accepts (.ofString "a.b/.java") = false ∧
      (∀ p, (PathFilter.ofSettings { tight.snapshot with extensions := ["." ++ ".jAVA", "KT"] }).accepts p =
        (PathFilter.ofSettings tight.snapshot).accepts p) ∧
      ∃ groups, (Packing.pack (.new tight.capacity : Packing.ReferenceCounter Packing.CompilationUnit)
        [⟨"x", [⟨"LA;", "x", "I"⟩], []⟩, ⟨"y", [⟨"LA;", "y", "I"⟩], []⟩]).1 = .ok groups := by
  have htight : (Toml.read? tightText).bind ofEntries? = some tight := by decide +kernel
  have hunusable : (Toml.read? unusableText).bind ofEntries? = some unusable := by decide +kernel
  obtain ⟨-, -, hok, hsafe⟩ := accepted_settings_are_safe tightText tight htight
  obtain ⟨-, herror, -, -⟩ := accepted_settings_are_safe unusableText unusable hunusable
  have haccepted : ofText tightText = .ok tight := by
    apply hok.2
    intro v
    cases v <;> decide +kernel
  have hfirst : unusable.FirstViolated .emptyExtension := by
    refine ⟨by decide +kernel, [.blankStateDirectory], [.zeroFieldCapacity, .zeroMethodCapacity], rfl, ?_⟩
    decide +kernel
  have hhidden : ¬(Path.ofString "a.b/.java").HasExtension := by
    have hnone : (Path.ofString "a.b/.java").extension? = none := by decide +kernel
    rw [Path.hasExtension_iff, hnone]
    rintro ⟨extension, hextension, -⟩
    cases hextension
  have hspelled : List.Forall₂ Text.Respelled tight.snapshot.extensions ["." ++ ".jAVA", "KT"] :=
    .cons (.dot (.letters .same (by decide +kernel))) (.cons (.letters .same (by decide +kernel)) .nil)
  have safe := hsafe haccepted
  refine ⟨htight, hunusable, (herror _).2 ⟨_, rfl, hfirst⟩, haccepted, by decide +kernel,
    safe.rejects (by decide) _ hhidden, safe.respelled _ hspelled, ?_⟩
  refine (safe.packs (.new tight.capacity) _ ⟨[], rfl⟩ ?_).2 rfl
  simp only [List.forall_mem_cons, Packing.distinct_eq_card]
  decide

end Settings

end BuildDelta
