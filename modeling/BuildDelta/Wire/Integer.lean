import BuildDelta.Wire.Basic
/-!
# Unsigned integers of variable length

A number below 251 is one byte. Otherwise a marker byte says how many bytes follow: 251 for two, 252
for four, 253 for eight. Writing takes the shortest form that fits; reading takes a longer one too.
-/

namespace BuildDelta.Wire

def writeUnsigned (n : Nat) : Bytes :=
  if n < 251 then [UInt8.ofNat n]
  else if n < 0x10000 then 251 :: Bytes.littleEndian 2 n
  else if n < 0x100000000 then 252 :: Bytes.littleEndian 4 n
  else 253 :: Bytes.littleEndian 8 n

def fixed (width : Nat) : Reader Nat := do
  let bs ← Reader.take width
  pure (Bytes.toNat bs)

/-- The type that a refused 64-bit marker is reported against. With nine bytes at hand, as many as
the longest form takes, it is the 32-bit one. -/
def Width.reported (w : Width) (available : Nat) : Width :=
  match w with
  | .word64 => if 9 ≤ available then .word32 else .word64
  | w => w

def readUnsigned (w : Width) : Reader Nat
  | [] => .error (.unexpectedEnd 1)
  | marker :: rest =>
    let refuse (found : Announced) : Except Error (Nat × Bytes) :=
      .error (.refusedMarker (w.reported (rest.length + 1)) found)
    if marker.toNat < 251 then .ok (marker.toNat, rest)
    else if marker = 251 then fixed 2 rest
    else if marker = 252 then fixed 4 rest
    else if marker = 253 then
      if w = .word32 then refuse .word64 else fixed 8 rest
    else if marker = 254 then refuse .word128
    else refuse .reserved

instance : Format UInt64 where
  write n := writeUnsigned n.toNat
  read := UInt64.ofNat <$> readUnsigned .word64

end BuildDelta.Wire
