import BuildDelta.Proofs.Text.Utf8
import BuildDelta.Wire.Text
/-!
# Written values are read back

A format is `Lawful` when its reader takes off exactly what was written and leaves whatever stands
behind it. A number of variable length is, below the bound of its width
(`readUnsigned_writeUnsigned`); so are texts and lists whose lengths are below the bound of a count.
-/

namespace BuildDelta.Wire

/-- A format that reads back what it wrote, of the values that it is made for. -/
class Lawful (α : Type) [Format α] where
  Fits : α → Prop
  read_write : ∀ a, Fits a → ∀ rest, read (write a ++ rest) = .ok (a, rest)

export Lawful (Fits read_write)

theorem read_write_self {α : Type} [Format α] [Lawful α] {a : α} (h : Fits a) :
    read (write a) = .ok (a, []) := by
  have hread := read_write a h []
  rwa [List.append_nil] at hread

/-- What the numbers of a width stay below. -/
def Width.bound : Width → Nat
  | .word32 => 0x100000000
  | .word64 | .count => 0x10000000000000000

theorem Reader.take_append {n : Nat} {short : Nat → Error} {bs : Bytes} (h : bs.length = n)
    (rest : Bytes) : Reader.take n short (bs ++ rest) = .ok (bs, rest) := by
  subst h
  rw [Reader.take, if_pos (by simp), List.take_left, List.drop_left]

theorem Reader.map_ok {α β : Type} {r : Reader α} {bs rest : Bytes} {a : α} (f : α → β)
    (h : r bs = .ok (a, rest)) : (f <$> r) bs = .ok (f a, rest) :=
  Reader.bind_ok h

theorem fixed_littleEndian {width n : Nat} (h : n < Nat.pow 256 width) (rest : Bytes) :
    fixed width (Bytes.littleEndian width n ++ rest) = .ok (n, rest) := by
  rw [fixed, Reader.bind_ok (Reader.take_append (Bytes.length_littleEndian width n) rest),
    Bytes.toNat_littleEndian h]
  rfl

theorem readUnsigned_writeUnsigned {w : Width} {n : Nat} (h : n < w.bound) (rest : Bytes) :
    readUnsigned w (writeUnsigned n ++ rest) = .ok (n, rest) := by
  unfold writeUnsigned
  split
  · rename_i hsmall
    have hbyte : (UInt8.ofNat n).toNat = n := by
      rw [UInt8.toNat_ofNat']
      omega
    rw [List.singleton_append, readUnsigned, hbyte, if_pos hsmall]
  split
  · exact fixed_littleEndian (by assumption) rest
  split
  · exact fixed_littleEndian (by assumption) rest
  · rename_i hlarge
    have hwidth : w ≠ .word32 := by
      intro heq
      subst heq
      exact hlarge h
    have hbound : n < Nat.pow 256 8 := by
      cases w
      · exact absurd rfl hwidth
      · exact h
      · exact h
    have hread : readUnsigned w (253 :: (Bytes.littleEndian 8 n ++ rest)) =
        fixed 8 (Bytes.littleEndian 8 n ++ rest) := by
      simp [readUnsigned, hwidth]
    rw [List.cons_append, hread]
    exact fixed_littleEndian hbound rest

instance : Lawful UInt64 where
  Fits _ := True
  read_write n _ rest := by
    have hread := readUnsigned_writeUnsigned (w := .word64) n.toNat_lt rest
    refine (Reader.map_ok UInt64.ofNat hread).trans ?_
    rw [UInt64.ofNat_toNat]

/-- With its length in front of it, a text is there, whatever its bytes are. -/
theorem read_text {text : Bytes} (h : text.length < Width.word64.bound) (rest : Bytes) :
    (read : Reader String) (writeUnsigned text.length ++ (text ++ rest)) =
      match Utf8.decode text with
      | .ok s => .ok (s, rest)
      | .error flaw => .error (.notUtf8 flaw) := by
  refine (Reader.bind_ok (readUnsigned_writeUnsigned h _)).trans ?_
  refine (Reader.bind_ok (Reader.take_append rfl rest)).trans ?_
  cases Utf8.decode text <;> rfl

instance : Lawful String where
  Fits s := (Utf8.encode s).length < Width.word64.bound
  read_write s hs rest := by
    have hread := read_text hs rest
    rw [Utf8.decode_encode, ← List.append_assoc] at hread
    exact hread

@[simp] theorem fits_text (s : String) : Fits s ↔ (Utf8.encode s).length < Width.word64.bound :=
  Iff.rfl

variable {α : Type} [Format α] [Lawful α]

theorem times_flatMap_write {as : List α} (has : ∀ a ∈ as, Fits a) (rest : Bytes) :
    Reader.times read as.length (as.flatMap write ++ rest) = .ok (as, rest) := by
  induction as with
  | nil => rfl
  | cons a as ih =>
    rw [List.flatMap_cons, List.append_assoc]
    refine (Reader.bind_ok (read_write a (has a (by simp)) _)).trans ?_
    exact Reader.bind_ok (ih fun b hb => has b (List.mem_cons_of_mem a hb))

instance : Lawful (List α) where
  Fits as := as.length < Width.count.bound ∧ ∀ a ∈ as, Fits a
  read_write as has rest := by
    have hlength := readUnsigned_writeUnsigned (w := .count) has.1 (as.flatMap write ++ rest)
    rw [← List.append_assoc] at hlength
    exact (Reader.bind_ok hlength).trans (times_flatMap_write has.2 rest)

@[simp] theorem fits_list (as : List α) :
    Fits as ↔ as.length < Width.count.bound ∧ ∀ a ∈ as, Fits a := Iff.rfl

end BuildDelta.Wire
