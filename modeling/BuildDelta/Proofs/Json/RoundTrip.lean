import BuildDelta.Json.Reader
import BuildDelta.Proofs.Json.Scan
/-!
# Written values are read back from their text

A format is `Lawful` when its reader takes off exactly the tokens of a value and leaves whatever stands
behind them; its texts are then read back (`decode_write`). Lists of such values are read back element by
element (`Reader.list_array`), and a record whose fields are written in the order in which they are known
field by field, each turning what has been read so far into the next draft (`Reader.InOrder`).
-/

namespace BuildDelta.Json

/-- No value starts like the end of an array, which is how an empty array is told. -/
theorem IsValue.exists_eq_cons {ts : List Token} (h : IsValue ts) :
    ∃ t us, ts = t :: us ∧ t ≠ .closeArray := by
  cases h with
  | text | natural | boolean | null => exact ⟨_, _, rfl, nofun⟩
  | @array values => cases values <;> exact ⟨_, _, rfl, nofun⟩
  | @object fields => cases fields <;> exact ⟨_, _, rfl, nofun⟩

theorem length_le_length_flatMap_comma {α : Type} {f : α → List Token} (as : List α) :
    as.length ≤ (as.flatMap fun a => .comma :: f a).length := by
  induction as with
  | nil => exact Nat.le_refl 0
  | cons a as ih =>
    rw [List.flatMap_cons, List.length_append, List.length_cons, List.length_cons]
    omega

namespace Reader

section List

variable {α : Type} {r : Reader α} {f : α → List Token}

theorem elements_comma (hread : ∀ a rest, r (f a ++ rest) = .ok (a, rest)) (a : α) (as : List α)
    (fuel : Nat) (hfuel : as.length < fuel) (rest : List Token) :
    elements r fuel (f a ++ (as.flatMap (fun a => .comma :: f a) ++ .closeArray :: rest)) =
      .ok (a :: as, rest) := by
  induction as generalizing a fuel with
  | nil =>
    cases fuel with
    | zero => cases hfuel
    | succ fuel => simp only [elements, hread, List.flatMap_nil, List.nil_append]
  | cons b as ih =>
    cases fuel with
    | zero => cases hfuel
    | succ fuel =>
      have hrest := ih b fuel (Nat.lt_of_succ_lt_succ hfuel)
      simp only [elements, hread, List.flatMap_cons, List.cons_append, List.append_assoc, hrest]
      rfl

theorem list_array (hvalue : ∀ a, IsValue (f a)) (hread : ∀ a rest, r (f a ++ rest) = .ok (a, rest))
    (as : List α) (rest : List Token) : list r (array (as.map f) ++ rest) = .ok (as, rest) := by
  cases as with
  | nil => rfl
  | cons a as =>
    obtain ⟨t, us, heq, hne⟩ := (hvalue a).exists_eq_cons
    have hfuel := length_le_length_flatMap_comma (f := f) as
    have helements := fun fuel hfuel => elements_comma hread a as fuel hfuel rest
    simp only [array, List.map_cons, List.flatMap_map, List.cons_append, List.append_assoc,
      List.nil_append]
    rw [heq] at helements ⊢
    rw [List.cons_append] at helements ⊢
    rw [list]
    · apply helements
      simp only [List.length_cons, List.length_append]
      omega
    · intro ts hts
      exact hne (List.cons.inj hts).1

end List

section Record

variable {α σ : Type} {known : List (Field σ)} {fields : List (String × List Token)}
  {start final : σ}

/-- Fields under the known names in order, each with the tokens that turn a draft without it into the
next one. -/
inductive InOrder : List (Field σ) → List (String × List Token) → σ → σ → Prop
  | nil (state : σ) : InOrder [] [] state state
  | cons {f : Field σ} {known : List (Field σ)} {value : List Token}
    {fields : List (String × List Token)} {state next final : σ} (hunseen : f.seen state = false)
    (hread : ∀ rest, f.read state (value ++ rest) = .ok (next, rest))
    (h : InOrder known fields next final) :
    InOrder (f :: known) ((f.name, value) :: fields) state final

theorem InOrder.of {name : String} {get : σ → Option α} {set : σ → α → σ} {r : Reader α}
    {value : List Token} {a : α} (hunseen : get start = none)
    (hread : ∀ rest, r (value ++ rest) = .ok (a, rest))
    (h : InOrder known fields (set start a) final) :
    InOrder (.of name get set r :: known) ((name, value) :: fields) start final := by
  refine .cons (f := .of name get set r) ?_ (fun rest => ?_) h
  · simp only [Field.of, hunseen, Option.isSome_none]
  · exact bind_ok (hread rest)

theorem member_name (hnames : (known.map Field.name).Nodup) {f : Field σ} (hf : f ∈ known) {state : σ}
    (hunseen : f.seen state = false) : member known state f.name = f.read state := by
  have hfind : known.find? (·.name = f.name) = some f := by
    induction known with
    | nil => cases hf
    | cons g known ih =>
      obtain ⟨hg, hnames⟩ := List.nodup_cons.1 hnames
      rcases List.mem_cons.1 hf with rfl | hmem
      · simp
      · have hne : g.name ≠ f.name := fun heq => hg (heq ▸ List.mem_map_of_mem hmem)
        simpa [hne] using ih hnames hmem
  simp [member, hfind, hunseen]

theorem members_inOrder {all : List (Field σ)} (hnames : (all.map Field.name).Nodup)
    (hknown : ∀ f ∈ known, f ∈ all) {name : String} {value : List Token}
    (h : InOrder known ((name, value) :: fields) start final) (fuel : Nat)
    (hfuel : fields.length < fuel) (rest : List Token) :
    members (member all) fuel start (.text name :: .colon :: (value ++
      (fields.flatMap (fun f => .comma :: .text f.1 :: .colon :: f.2) ++ .closeObject :: rest))) =
        .ok (final, rest) := by
  induction fields generalizing known start name value fuel with
  | nil =>
    cases fuel with
    | zero => cases hfuel
    | succ fuel =>
      cases h with
      | @cons f _ _ _ _ _ _ hunseen hread h =>
        cases h
        have hmember := member_name hnames (hknown f List.mem_cons_self) hunseen
        simp only [members, hmember, hread, List.flatMap_nil, List.nil_append]
  | cons field fields ih =>
    cases fuel with
    | zero => cases hfuel
    | succ fuel =>
      cases h with
      | @cons f _ _ _ _ _ _ hunseen hread h =>
        have hmember := member_name hnames (hknown f List.mem_cons_self) hunseen
        have hrest := ih (fun g hg => hknown g (List.mem_cons_of_mem f hg)) h fuel
          (Nat.lt_of_succ_lt_succ hfuel)
        simp only [members, hmember, hread, List.flatMap_cons, List.cons_append, List.append_assoc,
          hrest]

theorem fields_object (hnames : (known.map Field.name).Nodup)
    (h : InOrder known fields start final) (rest : List Token) :
    Reader.fields known start (object fields ++ rest) = .ok (final, rest) := by
  cases fields with
  | nil =>
    cases h
    rfl
  | cons field fields =>
    have hmembers := fun fuel hfuel => members_inOrder hnames (fun _ hf => hf) h fuel hfuel rest
    have hfuel := length_le_length_flatMap_comma (f := fun f : String × List Token =>
      .text f.1 :: .colon :: f.2) fields
    simp only [object, List.cons_append, List.append_assoc, List.nil_append, Reader.fields]
    apply hmembers
    simp only [List.length_cons, List.length_append]
    omega

theorem record_object {build : σ → Option α} {a : α} (hnames : (known.map Field.name).Nodup)
    (h : InOrder known fields start final) (hbuild : build final = some a) (rest : List Token) :
    record known start build (object fields ++ rest) = .ok (a, rest) := by
  refine (bind_ok (fields_object hnames h rest)).trans ?_
  rw [hbuild]
  rfl

end Record

end Reader

/-- A format that reads back what it wrote. -/
class Lawful (α : Type) [Format α] : Prop where
  isValue : ∀ a : α, IsValue (Format.tokens a)
  read_tokens : ∀ (a : α) (rest : List Token), Format.read (Format.tokens a ++ rest) = .ok (a, rest)

export Lawful (isValue read_tokens)

theorem decode_write {α : Type} [Format α] [Lawful α] (a : α) : decode (write a) = .ok a := by
  have hread := read_tokens a []
  rw [List.append_nil] at hread
  rw [decode, decodeWith, write, scan_compact (isValue a).legible, hread]

/-- No value's tokens go on where those of another end. -/
theorem tokens_append_inj {α : Type} [Format α] [Lawful α] {a b : α} {rest rest' : List Token}
    (h : Format.tokens a ++ rest = Format.tokens b ++ rest') : a = b ∧ rest = rest' := by
  have hread := read_tokens a rest
  rw [h, read_tokens] at hread
  obtain ⟨rfl, rfl⟩ := Prod.mk.inj (Except.ok.inj hread)
  exact ⟨rfl, rfl⟩

instance : Lawful String where
  isValue s := .text s
  read_tokens _ _ := rfl

theorem below_natural {n bound : Nat} (h : n < bound) (rest : List Token) :
    Reader.below bound (.natural n :: rest) = .ok (⟨n, h⟩, rest) :=
  dif_pos h

instance : Lawful UInt64 where
  isValue n := .natural n.toNat
  read_tokens n rest := by
    refine (Reader.bind_ok (below_natural n.toNat_lt rest)).trans ?_
    rw [UInt64.ofNatLT_toNat]
    rfl

instance {α : Type} [Format α] [Lawful α] : Lawful (List α) where
  isValue as := by
    refine .array fun value hvalue => ?_
    obtain ⟨a, -, rfl⟩ := List.mem_map.1 hvalue
    exact isValue a
  read_tokens as rest := Reader.list_array isValue read_tokens as rest

end BuildDelta.Json
