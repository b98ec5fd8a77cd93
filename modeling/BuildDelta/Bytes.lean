/-!
# Byte strings

State files, hashes, file contents and path names are all lists of bytes. Numbers are laid out with
their low byte first: `Bytes.littleEndian` writes a number in a fixed width, `Bytes.toNat` reads one,
and each undoes the other inside that width. A buffer for bytes cannot be of any length, and a program
that asks for one that is too long ends (`OutOfMemory`).
-/

namespace BuildDelta

abbrev Bytes := List UInt8

namespace Bytes

/-- The low `width` bytes of `n`, lowest first. -/
def littleEndian : (width : Nat) → (n : Nat) → Bytes
  | 0, _ => []
  | width + 1, n => UInt8.ofNat n :: littleEndian width (n / 256)

/-- The number a byte string spells, lowest byte first. -/
def toNat : Bytes → Nat
  | [] => 0
  | b :: bs => b.toNat + 256 * toNat bs

@[simp] theorem length_littleEndian (width n : Nat) : (littleEndian width n).length = width := by
  induction width generalizing n with
  | zero => rfl
  | succ width ih => simp [littleEndian, ih]

theorem toNat_littleEndian {width n : Nat} (h : n < Nat.pow 256 width) :
    toNat (littleEndian width n) = n := by
  induction width generalizing n with
  | zero =>
    have hzero : n = 0 := Nat.lt_one_iff.1 h
    simp [hzero, littleEndian, toNat]
  | succ width ih =>
    have hq : n / 256 < Nat.pow 256 width := (Nat.div_lt_iff_lt_mul (by decide)).2 h
    simp only [littleEndian, toNat, ih hq, UInt8.toNat_ofNat']
    omega

theorem toNat_lt (bs : Bytes) : toNat bs < Nat.pow 256 bs.length := by
  induction bs with
  | nil => exact Nat.one_pos
  | cons b bs ih =>
    have hb := b.toNat_lt
    have hpow : Nat.pow 256 (b :: bs).length = Nat.pow 256 bs.length * 256 := rfl
    rw [toNat, hpow]
    omega

theorem littleEndian_toNat (bs : Bytes) : littleEndian bs.length (toNat bs) = bs := by
  induction bs with
  | nil => rfl
  | cons b bs ih =>
    have hb := b.toNat_lt
    have hhead : UInt8.ofNat (b.toNat + 256 * toNat bs) = b := by
      apply UInt8.toNat_inj.1
      simp only [UInt8.toNat_ofNat']
      omega
    have htail : (b.toNat + 256 * toNat bs) / 256 = toNat bs := by omega
    simp only [List.length_cons, littleEndian, toNat, hhead, htail, ih]

private def hexByte (b : UInt8) : List Char :=
  [Nat.digitChar (b.toNat / 16), Nat.digitChar (b.toNat % 16)]

/-- Two lower-case hexadecimal digits per byte. -/
def hex (bs : Bytes) : String :=
  String.ofList (bs.flatMap hexByte)

/-- The length of the longest buffer that there can be on a machine with 64-bit addresses. -/
def addressable : Nat := 0x7FFFFFFFFFFFFFFF

end Bytes

/-- The program ended, since there is no room for a buffer of this length. -/
structure OutOfMemory where
  length : Nat
deriving DecidableEq, Repr

/-- No memory is asked for what cannot be addressed. -/
def OutOfMemory.message (e : OutOfMemory) : String :=
  if Bytes.addressable < e.length then "capacity overflow"
  else "memory allocation of " ++ toString e.length ++ " bytes failed"

end BuildDelta
