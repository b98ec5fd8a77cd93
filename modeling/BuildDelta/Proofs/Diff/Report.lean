import BuildDelta.Diff.Report
import BuildDelta.Proofs.Diff.Merged
import BuildDelta.Proofs.Json.Values
import BuildDelta.Proofs.Snapshot.Canonical
import BuildDelta.Proofs.Table.Merging
import BuildDelta.Proofs.Text.Order
/-!
# A report says all of a difference, in one way

Both layouts of a report are cut into the same tokens (`Diff.scan_report`, `Diff.scan_reportIndented`), and
in these no entry goes on where another ends (`Change.tokens_append_inj`), so different differences have
different reports. A difference is known by its entries, so how it came to them cannot be seen in its
report: not in which order they were put in, not from what it was merged, and not in which order a
collection without one hands them out to be sorted (`Diff.Canonical`).
-/

namespace BuildDelta

open Json

namespace Json

theorem compact_append (ts us : List Token) : compact (ts ++ us) = compact ts ++ compact us := by
  rw [compact, List.flatMap_append, String.ofList_append]
  rfl

/-- An array on one line: its elements with commas between them, in brackets. -/
theorem compact_array (values : List (List Token)) :
    compact (array values) = "[" ++ ",".intercalate (values.map compact) ++ "]" := by
  have helements : ∀ value values, compact (value ++ values.flatMap (fun value => .comma :: value)) =
      ",".intercalate ((value :: values).map compact) := by
    intro value values
    induction values generalizing value with
    | nil => rw [List.flatMap_nil, List.append_nil, List.map_singleton, String.intercalate_singleton]
    | cons next values ih =>
      rw [List.flatMap_cons, List.cons_append, compact_append, ← List.singleton_append, compact_append,
        ih, List.map_cons, List.map_cons, List.map_cons, String.intercalate_cons_cons,
        String.append_assoc]
      rfl
  cases values with
  | nil => rfl
  | cons value values =>
    have hparts : array (value :: values) =
        [.openArray] ++ (value ++ values.flatMap (fun value => .comma :: value)) ++ [.closeArray] := rfl
    rw [hparts, compact_append, compact_append, helements]
    rfl

/-- Elements none of which goes on where another ends can be told from the tokens of their array. -/
theorem array_map_injective {α : Type} {f : α → List Token} (hvalue : ∀ a, IsValue (f a))
    (hf : ∀ {a b : α} {rest rest' : List Token}, f a ++ rest = f b ++ rest' → a = b ∧ rest = rest') :
    Function.Injective fun as : List α => array (as.map f) := by
  classical
  let r : Reader α := fun ts =>
    if h : ∃ p : α × List Token, ts = f p.1 ++ p.2 then .ok h.choose else .error .malformed
  have hread : ∀ a rest, r (f a ++ rest) = .ok (a, rest) := by
    intro a rest
    have h : ∃ p : α × List Token, f a ++ rest = f p.1 ++ p.2 := ⟨(a, rest), rfl⟩
    obtain ⟨ha, hrest⟩ := hf h.choose_spec
    refine (dif_pos h).trans (congrArg Except.ok ?_)
    exact (Prod.ext ha hrest).symm
  intro as bs h
  have has := Reader.list_array hvalue hread as []
  rw [show array (as.map f) = array (bs.map f) from h, Reader.list_array hvalue hread] at has
  exact (Prod.mk.inj (Except.ok.inj has)).1.symm

end Json

section Change

variable {τ : Type}

/-- All that an entry holds. -/
def Change.parts [Keyed τ] (c : Change τ) : Status × String × Option τ × Option τ :=
  (c.status, key c, c.current?, c.previous?)

theorem Change.parts_injective [Keyed τ] : Function.Injective (parts : Change τ → _) := by
  intro c d h
  cases c <;> cases d <;> simp_all [parts, status, current?, previous?]

theorem Status.name_injective : Function.Injective name := by
  intro s t h
  cases s <;> cases t <;> first | rfl | exact absurd h (by decide)

variable [Item τ] [Json.Format τ]

/-- One side of an entry as a text: the item, or null if there is none. -/
def Change.sideText : Option τ → String
  | some item => write item
  | none => "null"

/-- An entry as a text. -/
def Change.text (c : Change τ) : String :=
  "\x7b\"status\":\"" ++ c.status.name ++ "\",\"key\":" ++ write (key c) ++ ",\"current\":" ++
    sideText c.current? ++ ",\"previous\":" ++ sideText c.previous? ++ "\x7d"

/-- The tokens of an entry, whatever follows them. -/
theorem Change.tokens_append (c : Change τ) (rest : List Token) : c.tokens ++ rest =
    [Token.openObject, .text "status", .colon, .text c.status.name, .comma, .text "key", .colon] ++
      (Format.tokens (key c) ++ ([Token.comma, .text "current", .colon] ++ (Json.optional c.current? ++
        ([Token.comma, .text "previous", .colon] ++
          (Json.optional c.previous? ++ (.closeObject :: rest)))))) := by
  simp [tokens, object, Format.tokens]

theorem Change.compact_tokens (c : Change τ) : compact c.tokens = c.text := by
  have hside : ∀ item? : Option τ, compact (Json.optional item?) = sideText item? := by
    intro item?
    cases item? <;> rfl
  have hstatus : compact [Token.openObject, .text "status", .colon, .text c.status.name, .comma,
      .text "key", .colon] = "\x7b\"status\":\"" ++ c.status.name ++ "\",\"key\":" := by
    cases c.status <;> decide +kernel
  have hcurrent : compact [Token.comma, .text "current", .colon] = ",\"current\":" := by decide +kernel
  have hprevious : compact [Token.comma, .text "previous", .colon] = ",\"previous\":" := by
    decide +kernel
  have hclose : compact [Token.closeObject] = "\x7d" := rfl
  have hkey : compact (Format.tokens (key c)) = write (key c) := rfl
  rw [← List.append_nil c.tokens, tokens_append, compact_append, compact_append, compact_append,
    compact_append, compact_append, compact_append, hside, hside, hstatus, hkey, hcurrent, hprevious,
    hclose]
  unfold text
  simp only [String.append_assoc]

variable [Lawful τ]

theorem Change.isValue_tokens (c : Change τ) : IsValue c.tokens := by
  have hoptional : ∀ a? : Option τ, IsValue (Json.optional a?) := by
    intro a?
    cases a? with
    | none => exact .null
    | some a => exact isValue a
  refine .object ?_
  simp only [List.forall_mem_cons, hoptional, isValue]
  exact ⟨.text _, trivial, trivial, trivial, List.forall_mem_nil _⟩

theorem Change.tokens_append_inj {c d : Change τ} {rest rest' : List Token}
    (h : c.tokens ++ rest = d.tokens ++ rest') : c = d ∧ rest = rest' := by
  rw [tokens_append, tokens_append] at h
  simp only [List.cons_append, List.nil_append, List.cons.injEq, Token.text.injEq, true_and] at h
  obtain ⟨hname, h⟩ := h
  obtain ⟨-, h⟩ := Json.tokens_append_inj h
  simp only [List.cons.injEq, true_and] at h
  have hstatus : c.status = d.status := Status.name_injective hname
  cases c with
  | added a =>
    cases d with
    | added b =>
      obtain ⟨rfl, hprevious⟩ := Json.tokens_append_inj h
      simp only [previous?, Json.optional, List.cons_append, List.nil_append, List.cons.injEq,
        true_and] at hprevious
      exact ⟨rfl, hprevious⟩
    | removed | changed => cases hstatus
  | removed a =>
    cases d with
    | removed b =>
      simp only [current?, previous?, Json.optional, List.cons_append, List.nil_append, List.cons.injEq,
        true_and] at h
      obtain ⟨rfl, hrest⟩ := Json.tokens_append_inj h
      exact ⟨rfl, (List.cons.inj hrest).2⟩
    | added | changed => cases hstatus
  | changed a b =>
    cases d with
    | changed a' b' =>
      obtain ⟨rfl, hprevious⟩ := Json.tokens_append_inj h
      simp only [previous?, Json.optional, List.cons.injEq, true_and] at hprevious
      obtain ⟨rfl, hrest⟩ := Json.tokens_append_inj hprevious
      exact ⟨rfl, (List.cons.inj hrest).2⟩
    | added | removed => cases hstatus

end Change

namespace Diff

section Entries

variable {τ : Type} [Item τ]

theorem eq_iff_parts {d e : Diff τ} :
    d = e ↔ ∀ k, (d.get? k).map Change.parts = (e.get? k).map Change.parts := by
  constructor
  · rintro rfl k
    rfl
  · intro h
    apply Table.ext_get?
    exact fun k => Option.map_injective Change.parts_injective (h k)

/-- Under each key stands what the last of the merged differences that mention it says. -/
theorem get?_mergeAll (ds : List (Diff τ)) (k : String) :
    (mergeAll ds).get? k = ds.reverse.findSome? (·.get? k) := by
  have hfold : ∀ (ds : List (Diff τ)) (d : Diff τ),
      (ds.foldl Table.merge d).get? k = (ds.reverse.findSome? (·.get? k)).or (d.get? k) := by
    intro ds
    induction ds with
    | nil => exact fun d => Option.none_or.symm
    | cons e ds ih =>
      intro d
      rw [List.foldl_cons, ih, Table.get?_merge, List.reverse_cons, List.findSome?_append, Option.or_assoc]
      simp
  rw [mergeAll, hfold, Table.get?_empty, Option.or_none]

end Entries

section Report

variable {τ : Type} [Item τ] [Json.Format τ] [Lawful τ]

theorem legible_tokens (d : Diff τ) : Legible d.tokens := by
  refine (IsValue.array fun value hvalue => ?_).legible
  obtain ⟨c, -, rfl⟩ := List.mem_map.1 hvalue
  exact c.isValue_tokens

theorem scan_report (d : Diff τ) : Json.scan d.report = d.tokens :=
  scan_compact d.legible_tokens

theorem scan_reportIndented (d : Diff τ) : Json.scan d.reportIndented = d.tokens :=
  scan_indented d.legible_tokens

theorem tokens_injective : Function.Injective (tokens : Diff τ → List Token) := by
  intro d e h
  apply Table.ext
  exact array_map_injective Change.isValue_tokens Change.tokens_append_inj h

/-- A way to write a difference that says all of it and nothing else: which entries it has, and not how it
came to them. -/
structure Canonical (layout : Diff τ → String) : Prop where
  eq_iff : ∀ d e, layout d = layout e ↔
    ∀ k, (d.get? k).map Change.parts = (e.get? k).map Change.parts
  /-- Of what is put in under a key, in whatever order, the last entry counts. -/
  inserted : ∀ cs ds : List (Change τ), layout (.ofList cs) = layout (.ofList ds) ↔
    ∀ k, cs.reverse.find? (key · = k) = ds.reverse.find? (key · = k)
  /-- Of what is merged, in whatever order, the last difference that mentions a key counts. -/
  merged : ∀ ds es : List (Diff τ), layout (mergeAll ds) = layout (mergeAll es) ↔
    ∀ k, ds.reverse.findSome? (·.get? k) = es.reverse.findSome? (·.get? k)
  /-- It lists the entries as objects. -/
  scan_eq : ∀ d, Json.scan (layout d) = Json.array (d.toList.map Change.tokens)

theorem canonical_of_scan_eq {layout : Diff τ → String} (h : ∀ d, Json.scan (layout d) = d.tokens) :
    Canonical layout := by
  have hinjective : Function.Injective layout := by
    intro d e heq
    apply tokens_injective
    rw [← h, ← h, heq]
  refine ⟨fun d e => ?_, fun cs ds => ?_, fun ds es => ?_, h⟩
  · rw [hinjective.eq_iff, eq_iff_parts]
  · rw [hinjective.eq_iff]
    simp only [← Table.get?_ofList]
    exact ⟨fun heq k => by rw [heq], Table.ext_get?⟩
  · rw [hinjective.eq_iff]
    simp only [← get?_mergeAll]
    exact ⟨fun heq k => by rw [heq], Table.ext_get?⟩

end Report

section Reports

variable (τ : Type) [Item τ] [Json.Format τ]

/-- All that is asked of the reports on one kind of items. -/
structure Reports : Prop where
  report : Canonical (report : Diff τ → String)
  reportIndented : Canonical (reportIndented : Diff τ → String)
  /-- On one line, character by character. -/
  report_eq : ∀ d : Diff τ, d.report = "[" ++ ",".intercalate (d.toList.map Change.text) ++ "]"
  /-- It does not matter in which order the entries are at hand when they are sorted. -/
  sorted : ∀ (d : Diff τ) (entries : List (Change τ)), entries.Perm d.toList →
    compact (array ((Table.sortByKey entries).map Change.tokens)) = d.report
  /-- What is listed are the entries, one for each key. -/
  mem_iff : ∀ (d : Diff τ) (c : Change τ), c ∈ d.toList ↔ d.get? (key c) = some c
  ascending : ∀ d : Diff τ, (d.toList.map fun c => Utf8.encode (key c)).Pairwise (· < ·)

omit [Json.Format τ] in
variable {τ} in
theorem ascending_encode (d : Diff τ) :
    (d.toList.map fun c => Utf8.encode (key c)).Pairwise (· < ·) := by
  apply List.pairwise_map.2
  exact d.ascending.imp Utf8.encode_lt_encode_iff.2

theorem reports [Lawful τ] : Reports τ where
  report := canonical_of_scan_eq scan_report
  reportIndented := canonical_of_scan_eq scan_reportIndented
  report_eq d := by
    rw [report, tokens, compact_array, List.map_map]
    have htexts : compact ∘ Change.tokens = (Change.text : Change τ → String) :=
      funext Change.compact_tokens
    rw [htexts]
  sorted d entries h := by rw [Table.sortByKey_of_perm h, report, tokens]
  mem_iff d c := by rw [Table.get?_eq_some_iff, and_iff_left rfl]
  ascending := ascending_encode

example : report (.ofList [.removed ⟨"b"⟩, .added ⟨"a"⟩] : Diff KeyItem) =
    "[\x7b\"status\":\"added\",\"key\":\"a\",\"current\":\"a\",\"previous\":null\x7d," ++
      "\x7b\"status\":\"removed\",\"key\":\"b\",\"current\":null,\"previous\":\"b\"\x7d]" := by
  decide +kernel

end Reports

/-- Reports are equal exactly if what they report on is, in either layout and whatever came first, and they
list the entries by the bytes of their keys. -/
theorem reports_tell_differences_apart : Reports FileItem ∧ Reports KeyItem :=
  ⟨reports FileItem, reports KeyItem⟩

end Diff

end BuildDelta
