import BuildDelta.Proofs.Text.Strict
import BuildDelta.Proofs.Wire.RoundTrip
import BuildDelta.SourceSet.Persisted
import Mathlib.Data.List.Forall2
/-!
# What the bytes of a value can look like

The grammar of the wire says which byte strings denote a value, without reading any. A number has a
form for each width it fits in (`Numeral`), so most values have several forms. Readers take off exactly
these forms, whatever follows them (`Grammar.reads`), and of all forms the one that is written is the
only shortest (`Grammar.shortest`).
-/

namespace BuildDelta.Wire

variable {α β γ : Type}

/-- A reader takes off the byte strings that denote a value, and no others, whatever follows them. -/
def Reader.Reads (r : Reader α) (D : Bytes → α → Prop) : Prop :=
  ∀ bs a rest, r bs = .ok (a, rest) ↔ ∃ used, bs = used ++ rest ∧ D used a

namespace Reader

variable {r : Reader α} {D : Bytes → α → Prop}

theorem Reads.congr {D' : Bytes → α → Prop} (hr : r.Reads D) (h : ∀ used a, D used a ↔ D' used a) :
    r.Reads D' := by
  intro bs a rest
  simp only [hr bs a rest, h]

theorem Reads.read_eq {used : Bytes} {a : α} (hr : r.Reads D) (h : D used a) (rest : Bytes) :
    r (used ++ rest) = .ok (a, rest) :=
  (hr _ a rest).2 ⟨used, rfl, h⟩

/-- What is read to the end denotes what it is read as. -/
theorem Reads.of_read_eq {bs : Bytes} {a : α} (hr : r.Reads D) (h : r bs = .ok (a, [])) : D bs a := by
  obtain ⟨used, hused, hdenotes⟩ := (hr _ _ _).1 h
  rw [List.append_nil] at hused
  rwa [hused]

/-- A byte string begins with the bytes of one value at most. -/
theorem Reads.unique {used used' rest rest' : Bytes} {a b : α} (hr : r.Reads D) (h : D used a)
    (h' : D used' b) (heq : used ++ rest = used' ++ rest') : a = b ∧ rest = rest' := by
  have hread := hr.read_eq h rest
  rw [heq, hr.read_eq h' rest'] at hread
  cases hread
  exact ⟨rfl, rfl⟩

theorem reads_pure (a : α) : (pure a : Reader α).Reads fun used b => used = [] ∧ b = a := by
  intro bs b rest
  constructor
  · intro h
    cases h
    exact ⟨[], rfl, rfl, rfl⟩
  · rintro ⟨used, rfl, rfl, rfl⟩
    rfl

theorem reads_fail (e : Error) : (fail e : Reader α).Reads fun _ _ => False := by
  intro bs a rest
  constructor
  · intro h
    cases h
  · rintro ⟨used, -, h⟩
    exact h.elim

theorem bind_eq_ok {r : Reader α} {f : α → Reader β} {bs rest : Bytes} {b : β} :
    (r >>= f) bs = .ok (b, rest) ↔
      ∃ a between, r bs = .ok (a, between) ∧ f a between = .ok (b, rest) := by
  rw [bind_apply]
  cases r bs with
  | error e => exact ⟨nofun, fun ⟨_, _, h, _⟩ => nomatch h⟩
  | ok p =>
    obtain ⟨a, between⟩ := p
    constructor
    · intro h
      exact ⟨a, between, rfl, h⟩
    · intro h
      obtain ⟨_, _, ⟨⟩, h⟩ := h
      exact h

theorem Reads.bind {f : α → Reader β} {D' : α → Bytes → β → Prop} (hr : r.Reads D)
    (hf : ∀ a, (f a).Reads (D' a)) :
    (r >>= f).Reads fun used b => ∃ a first next, used = first ++ next ∧ D first a ∧ D' a next b := by
  intro bs b rest
  rw [bind_eq_ok]
  constructor
  · rintro ⟨a, between, hread, hread'⟩
    obtain ⟨first, rfl, hfirst⟩ := (hr bs a between).1 hread
    obtain ⟨next, rfl, hnext⟩ := (hf a between b rest).1 hread'
    exact ⟨first ++ next, (List.append_assoc ..).symm, a, first, next, rfl, hfirst, hnext⟩
  · rintro ⟨used, rfl, a, first, next, rfl, hfirst, hnext⟩
    rw [List.append_assoc]
    exact ⟨a, next ++ rest, hr.read_eq hfirst _, (hf a).read_eq hnext rest⟩

theorem Reads.map (hr : r.Reads D) (f : α → β) :
    (f <$> r).Reads fun used b => ∃ a, D used a ∧ b = f a := by
  refine (hr.bind fun a => reads_pure (f a)).congr fun used b => ?_
  constructor
  · rintro ⟨a, first, next, rfl, hfirst, rfl, rfl⟩
    rw [List.append_nil]
    exact ⟨a, hfirst, rfl⟩
  · rintro ⟨a, h, rfl⟩
    exact ⟨a, used, [], (List.append_nil used).symm, h, rfl, rfl⟩

/-- One value behind the other. -/
theorem Reads.both {r' : Reader β} {D' : Bytes → β → Prop} (hr : r.Reads D) (hr' : r'.Reads D')
    (combine : α → β → γ) :
    (do let a ← r; let b ← r'; pure (combine a b) : Reader γ).Reads fun used c =>
      ∃ a b first next, used = first ++ next ∧ D first a ∧ D' next b ∧ c = combine a b := by
  refine (hr.bind fun a => hr'.map (combine a)).congr fun used c => ?_
  constructor
  · rintro ⟨a, first, next, hused, hfirst, b, hnext, hc⟩
    exact ⟨a, b, first, next, hused, hfirst, hnext, hc⟩
  · rintro ⟨a, b, first, next, hused, hfirst, hnext, hc⟩
    exact ⟨a, first, next, hused, hfirst, b, hnext, hc⟩

theorem reads_take (n : Nat) (short : Nat → Error := .unexpectedEnd) :
    (take n short).Reads fun used bs => used = bs ∧ bs.length = n := by
  intro bs taken rest
  constructor
  · intro h
    unfold take at h
    split at h
    · rename_i hn
      cases h
      exact ⟨bs.take n, (List.take_append_drop n bs).symm, rfl, List.length_take_of_le hn⟩
    · cases h
  · rintro ⟨used, rfl, rfl, hlength⟩
    exact take_append hlength rest

theorem Reads.times (hr : r.Reads D) (n : Nat) : (r.times n).Reads fun used as =>
    as.length = n ∧ ∃ forms, used = forms.flatten ∧ List.Forall₂ D forms as := by
  induction n with
  | zero =>
    refine (reads_pure []).congr fun used as => ?_
    constructor
    · rintro ⟨rfl, rfl⟩
      exact ⟨rfl, [], rfl, .nil⟩
    · rintro ⟨hlength, forms, rfl, hforms⟩
      cases List.length_eq_zero_iff.1 hlength
      cases hforms
      exact ⟨rfl, rfl⟩
  | succ n ih =>
    refine (hr.both ih List.cons).congr fun used as => ?_
    constructor
    · rintro ⟨a, as, first, next, rfl, hfirst, ⟨rfl, forms, rfl, hforms⟩, rfl⟩
      exact ⟨rfl, first :: forms, rfl, .cons hfirst hforms⟩
    · rintro ⟨hlength, forms, rfl, hforms⟩
      cases hforms with
      | nil => cases hlength
      | @cons first a forms as hfirst hforms =>
        exact ⟨a, as, first, forms.flatten, rfl, hfirst, ⟨Nat.succ.inj hlength, forms, rfl, hforms⟩,
          rfl⟩

end Reader

/-- The forms of a number. A 32-bit one has none of eight bytes. -/
inductive Numeral (w : Width) : Bytes → Nat → Prop
  | one {n : Nat} (h : n < 251) : Numeral w [UInt8.ofNat n] n
  | two {n : Nat} (h : n < 0x10000) : Numeral w (251 :: Bytes.littleEndian 2 n) n
  | four {n : Nat} (h : n < 0x100000000) : Numeral w (252 :: Bytes.littleEndian 4 n) n
  | eight {n : Nat} (hw : w ≠ .word32) (h : n < 0x10000000000000000) :
    Numeral w (253 :: Bytes.littleEndian 8 n) n

theorem Numeral.lt_bound {w : Width} {used : Bytes} {n : Nat} (h : Numeral w used n) :
    n < w.bound := by
  have hleast : 0x100000000 ≤ w.bound := by cases w <;> decide
  cases h with
  | one h => omega
  | two h => omega
  | four h => omega
  | eight hw h => cases w <;> first | exact absurd rfl hw | exact h

theorem reads_fixed (width : Nat) : (fixed width).Reads fun used n =>
    n < Nat.pow 256 width ∧ used = Bytes.littleEndian width n := by
  refine ((Reader.reads_take width).map Bytes.toNat).congr fun used n => ?_
  constructor
  · rintro ⟨bs, ⟨rfl, rfl⟩, rfl⟩
    exact ⟨Bytes.toNat_lt used, (Bytes.littleEndian_toNat used).symm⟩
  · rintro ⟨h, rfl⟩
    exact ⟨_, ⟨rfl, Bytes.length_littleEndian width n⟩, (Bytes.toNat_littleEndian h).symm⟩

theorem numeral_of_read {w : Width} {bs rest : Bytes} {n : Nat}
    (h : readUnsigned w bs = .ok (n, rest)) : ∃ used, bs = used ++ rest ∧ Numeral w used n := by
  cases bs with
  | nil => cases h
  | cons marker bs =>
    simp only [readUnsigned] at h
    split at h
    · rename_i hsmall
      cases h
      refine ⟨[marker], rfl, ?_⟩
      have hone := Numeral.one (w := w) hsmall
      rwa [UInt8.ofNat_toNat] at hone
    split at h
    · rename_i hmarker
      subst hmarker
      obtain ⟨used, rfl, hn, rfl⟩ := (reads_fixed 2 _ _ _).1 h
      exact ⟨_, rfl, .two hn⟩
    split at h
    · rename_i hmarker
      subst hmarker
      obtain ⟨used, rfl, hn, rfl⟩ := (reads_fixed 4 _ _ _).1 h
      exact ⟨_, rfl, .four hn⟩
    split at h
    · rename_i hmarker
      subst hmarker
      split at h
      · cases h
      · rename_i hw
        obtain ⟨used, rfl, hn, rfl⟩ := (reads_fixed 8 _ _ _).1 h
        exact ⟨_, rfl, .eight hw hn⟩
    · split at h <;> cases h

theorem reads_numeral (w : Width) : (readUnsigned w).Reads (Numeral w) := by
  intro bs n rest
  constructor
  · exact numeral_of_read
  · rintro ⟨used, rfl, h⟩
    cases h with
    | one h =>
      have hbyte : (UInt8.ofNat n).toNat = n := by
        rw [UInt8.toNat_ofNat']
        omega
      rw [List.singleton_append, readUnsigned, hbyte, if_pos h]
    | two h => exact (reads_fixed 2).read_eq ⟨h, rfl⟩ rest
    | four h => exact (reads_fixed 4).read_eq ⟨h, rfl⟩ rest
    | eight hw h =>
      have hread : readUnsigned w (253 :: (Bytes.littleEndian 8 n ++ rest)) =
          fixed 8 (Bytes.littleEndian 8 n ++ rest) := by
        simp [readUnsigned, hw]
      rw [List.cons_append, hread]
      exact (reads_fixed 8).read_eq ⟨h, rfl⟩ rest

/-- A form is the one that is written, or longer. -/
def Shortest (written used : Bytes) : Prop :=
  used = written ∨ written.length < used.length

namespace Shortest

variable {written used : Bytes}

theorem refl (bs : Bytes) : Shortest bs bs := .inl rfl

theorem length_le (h : Shortest written used) : written.length ≤ used.length := by
  obtain rfl | h := h
  · exact Nat.le_refl _
  · exact Nat.le_of_lt h

theorem append {written' used' : Bytes} (h : Shortest written used) (h' : Shortest written' used') :
    Shortest (written ++ written') (used ++ used') := by
  have hlength := h.length_le
  have hlength' := h'.length_le
  rw [Shortest, List.length_append, List.length_append]
  obtain rfl | h := h
  · obtain rfl | h' := h'
    · exact .inl rfl
    · exact .inr (by omega)
  · exact .inr (by omega)

theorem eq_of_length_le (h : Shortest written used) (hle : used.length ≤ written.length) :
    used = written := by
  obtain heq | h := h
  · exact heq
  · omega

end Shortest

theorem Numeral.shortest {w : Width} {used : Bytes} {n : Nat} (h : Numeral w used n) :
    Shortest (writeUnsigned n) used := by
  unfold writeUnsigned
  cases h with
  | one h =>
    rw [if_pos h]
    exact .refl _
  | two h =>
    rw [if_pos h]
    split
    · exact .inr (by simp)
    · exact .refl _
  | four h =>
    rw [if_pos h]
    split
    · exact .inr (by simp)
    split
    · exact .inr (by simp)
    · exact .refl _
  | eight _ h =>
    split
    · exact .inr (by simp)
    split
    · exact .inr (by simp)
    split
    · exact .inr (by simp)
    · exact .refl _

/-- A format whose readers take off what its grammar says. -/
class Grammar (α : Type) [Format α] [Lawful α] where
  /-- The byte strings that denote a value. -/
  Denotes : Bytes → α → Prop
  reads : (read : Reader α).Reads Denotes
  fits : ∀ used a, Denotes used a → Fits a
  shortest : ∀ used a, Denotes used a → Shortest (write a) used

export Grammar (Denotes reads)

instance : Grammar UInt64 where
  Denotes used n := Numeral .word64 used n.toNat
  reads := by
    refine ((reads_numeral .word64).map UInt64.ofNat).congr fun used n => ?_
    constructor
    · rintro ⟨m, hm, rfl⟩
      rwa [UInt64.toNat_ofNat_of_lt' hm.lt_bound]
    · intro h
      exact ⟨n.toNat, h, UInt64.ofNat_toNat.symm⟩
  fits _ _ _ := trivial
  shortest _ _ h := h.shortest

instance : Grammar String where
  Denotes used s := ∃ length, used = length ++ Utf8.encode s ∧
    Numeral .word64 length (Utf8.encode s).length
  reads := by
    have hread : ∀ bs : Bytes, (match Utf8.decode bs with
        | .ok s => pure s
        | .error flaw => .fail (.notUtf8 flaw) : Reader String).Reads
          fun used s => used = [] ∧ bs = Utf8.encode s := by
      intro bs
      cases hdecode : Utf8.decode bs with
      | ok s =>
        refine (Reader.reads_pure s).congr fun used t => ?_
        rw [← Utf8.decode_eq_ok_iff.1 hdecode]
        constructor
        · rintro ⟨rfl, rfl⟩
          exact ⟨rfl, rfl⟩
        · rintro ⟨rfl, heq⟩
          exact ⟨rfl, Utf8.encode_injective heq.symm⟩
      | error flaw =>
        refine (Reader.reads_fail (.notUtf8 flaw)).congr fun used t => ⟨False.elim, ?_⟩
        rintro ⟨-, rfl⟩
        cases (Utf8.decode_encode t).symm.trans hdecode
    refine ((reads_numeral .word64).bind fun n => (Reader.reads_take n (.shortText n)).bind hread).congr
      fun used s => ?_
    constructor
    · rintro ⟨n, length, _, rfl, hlength, bs, _, _, rfl, ⟨rfl, rfl⟩, rfl, rfl⟩
      exact ⟨length, by rw [List.append_nil], hlength⟩
    · rintro ⟨length, rfl, hlength⟩
      exact ⟨_, length, _, rfl, hlength, _, _, [], (List.append_nil _).symm, ⟨rfl, rfl⟩, rfl, rfl⟩
  fits _ _ := by
    rintro ⟨length, -, hlength⟩
    exact hlength.lt_bound
  shortest _ _ := by
    rintro ⟨length, rfl, hlength⟩
    exact hlength.shortest.append (.refl _)

section List

/-- The forms of a list of values with these forms: the number of the values and then the values. -/
def ListOf (D : Bytes → α → Prop) (used : Bytes) (as : List α) : Prop :=
  ∃ count forms, used = count ++ List.flatten forms ∧ Numeral .count count as.length ∧
    List.Forall₂ D forms as

variable [Format α]

theorem reads_listOf {D : Bytes → α → Prop} (hr : (read : Reader α).Reads D) :
    (read : Reader (List α)).Reads (ListOf D) := by
  refine ((reads_numeral .count).bind fun n => hr.times n).congr fun used as => ?_
  constructor
  · rintro ⟨n, count, _, rfl, hcount, rfl, forms, rfl, hforms⟩
    exact ⟨count, forms, rfl, hcount, hforms⟩
  · rintro ⟨count, forms, rfl, hcount, hforms⟩
    exact ⟨_, count, _, rfl, hcount, rfl, forms, rfl, hforms⟩

variable [Lawful α]

/-- What is written for a value denotes it, whatever the grammar. -/
theorem denotes_write {D : Bytes → α → Prop} (hr : (read : Reader α).Reads D) {a : α} (h : Fits a) :
    D (write a) a :=
  hr.of_read_eq (read_write_self h)

variable [Grammar α]

theorem shortest_flatMap_write {forms : List Bytes} {as : List α}
    (h : List.Forall₂ Denotes forms as) : Shortest (as.flatMap write) forms.flatten := by
  induction h with
  | nil => exact .refl _
  | cons hfirst _ ih => exact (Grammar.shortest _ _ hfirst).append ih

theorem fits_of_forall₂ {forms : List Bytes} {as : List α} (h : List.Forall₂ Denotes forms as) :
    ∀ a ∈ as, Fits a := by
  induction h with
  | nil => exact fun _ ha => nomatch ha
  | cons hfirst _ ih =>
    intro a ha
    obtain rfl | ha := List.mem_cons.1 ha
    · exact Grammar.fits _ _ hfirst
    · exact ih a ha

instance : Grammar (List α) where
  Denotes used as := ∃ count forms, used = count ++ List.flatten forms ∧
    Numeral .count count as.length ∧ List.Forall₂ Denotes forms as
  reads := reads_listOf reads
  fits _ _ := by
    rintro ⟨count, forms, rfl, hcount, hforms⟩
    exact ⟨hcount.lt_bound, fits_of_forall₂ hforms⟩
  shortest _ _ := by
    rintro ⟨count, forms, rfl, hcount, hforms⟩
    exact hcount.shortest.append (shortest_flatMap_write hforms)

end List

end BuildDelta.Wire
