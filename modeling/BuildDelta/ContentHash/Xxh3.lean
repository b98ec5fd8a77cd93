/-!
# XXH3 with 128 bits

The unseeded 128-bit member of the XXH3 family. Short inputs are mixed directly with the secret, in
one of five length classes; longer ones run eight 64-bit lanes over stripes of 64 bytes. All
arithmetic is modulo 2^64 or 2^32, as the words' types say. Nothing in the library depends on which
function this is.
-/

namespace BuildDelta.Xxh3

/-- A 128-bit number as two words. -/
structure Wide where
  low : UInt64
  high : UInt64

private def prime32_1 : UInt64 := 0x9E3779B1
private def prime32_2 : UInt64 := 0x85EBCA77
private def prime32_3 : UInt64 := 0xC2B2AE3D
private def prime64_1 : UInt64 := 0x9E3779B185EBCA87
private def prime64_2 : UInt64 := 0xC2B2AE3D27D4EB4F
private def prime64_3 : UInt64 := 0x165667B19E3779F9
private def prime64_4 : UInt64 := 0x85EBCA77C2B2AE63
private def prime64_5 : UInt64 := 0x27D4EB2F165667C5
private def primeMix_1 : UInt64 := 0x165667919E3779F9
private def primeMix_2 : UInt64 := 0x9FB21C651E98DF25

/-- The 192 fixed bytes that every length class draws on. -/
private def secret : ByteArray := ⟨#[
  0xb8, 0xfe, 0x6c, 0x39, 0x23, 0xa4, 0x4b, 0xbe, 0x7c, 0x01, 0x81, 0x2c, 0xf7, 0x21, 0xad, 0x1c,
  0xde, 0xd4, 0x6d, 0xe9, 0x83, 0x90, 0x97, 0xdb, 0x72, 0x40, 0xa4, 0xa4, 0xb7, 0xb3, 0x67, 0x1f,
  0xcb, 0x79, 0xe6, 0x4e, 0xcc, 0xc0, 0xe5, 0x78, 0x82, 0x5a, 0xd0, 0x7d, 0xcc, 0xff, 0x72, 0x21,
  0xb8, 0x08, 0x46, 0x74, 0xf7, 0x43, 0x24, 0x8e, 0xe0, 0x35, 0x90, 0xe6, 0x81, 0x3a, 0x26, 0x4c,
  0x3c, 0x28, 0x52, 0xbb, 0x91, 0xc3, 0x00, 0xcb, 0x88, 0xd0, 0x65, 0x8b, 0x1b, 0x53, 0x2e, 0xa3,
  0x71, 0x64, 0x48, 0x97, 0xa2, 0x0d, 0xf9, 0x4e, 0x38, 0x19, 0xef, 0x46, 0xa9, 0xde, 0xac, 0xd8,
  0xa8, 0xfa, 0x76, 0x3f, 0xe3, 0x9c, 0x34, 0x3f, 0xf9, 0xdc, 0xbb, 0xc7, 0xc7, 0x0b, 0x4f, 0x1d,
  0x8a, 0x51, 0xe0, 0x4b, 0xcd, 0xb4, 0x59, 0x31, 0xc8, 0x9f, 0x7e, 0xc9, 0xd9, 0x78, 0x73, 0x64,
  0xea, 0xc5, 0xac, 0x83, 0x34, 0xd3, 0xeb, 0xc3, 0xc5, 0x81, 0xa0, 0xff, 0xfa, 0x13, 0x63, 0xeb,
  0x17, 0x0d, 0xdd, 0x51, 0xb7, 0xf0, 0xda, 0x49, 0xd3, 0x16, 0x55, 0x26, 0x29, 0xd4, 0x68, 0x9e,
  0x2b, 0x16, 0xbe, 0x58, 0x7d, 0x47, 0xa1, 0xfc, 0x8f, 0xf8, 0xb8, 0xd1, 0x7a, 0xd0, 0x31, 0xce,
  0x45, 0xcb, 0x3a, 0x8f, 0x95, 0x16, 0x04, 0x28, 0xaf, 0xd7, 0xfb, 0xca, 0xbb, 0x4b, 0x40, 0x7e]⟩

/-- The byte at an offset; nothing beyond the end is ever asked for. -/
private def byte (b : ByteArray) (i : Nat) : UInt64 :=
  if h : i < b.size then b[i].toUInt64 else 0

private def word32 (b : ByteArray) (i : Nat) : UInt64 :=
  byte b i ||| byte b (i + 1) <<< 8 ||| byte b (i + 2) <<< 16 ||| byte b (i + 3) <<< 24

private def word64 (b : ByteArray) (i : Nat) : UInt64 :=
  word32 b i ||| word32 b (i + 4) <<< 32

/-- The bytes of a word in the opposite order. -/
private def swap (width : Nat) (x : UInt64) : UInt64 :=
  (List.range width).foldl (fun y i => y <<< 8 ||| (x >>> (8 * i).toUInt64 &&& 0xff)) 0

private def low32 (x : UInt64) : UInt64 := x &&& 0xFFFFFFFF

/-- The full product of two words. -/
private def mul (x y : UInt64) : Wide :=
  let p := x.toNat * y.toNat
  ⟨p.toUInt64, (p >>> 64).toUInt64⟩

private def mulFold (x y : UInt64) : UInt64 :=
  let p := mul x y
  p.low ^^^ p.high

private def xorShift (x : UInt64) (k : UInt64) : UInt64 := x ^^^ x >>> k

private def avalanche (h : UInt64) : UInt64 :=
  xorShift (xorShift h 37 * primeMix_1) 32

private def avalancheShort (h : UInt64) : UInt64 :=
  xorShift (xorShift (xorShift h 33 * prime64_2) 29 * prime64_3) 32

private def hashEmpty : Wide :=
  ⟨avalancheShort (word64 secret 64 ^^^ word64 secret 72),
   avalancheShort (word64 secret 80 ^^^ word64 secret 88)⟩

/-- One to three bytes. -/
private def hashUpTo3 (b : ByteArray) : Wide :=
  let n := b.size
  let low := byte b 0 <<< 16 ||| byte b (n / 2) <<< 24 ||| byte b (n - 1) ||| n.toUInt64 <<< 8
  let swapped := swap 4 low
  let high := low32 (swapped <<< 13) ||| swapped >>> 19
  ⟨avalancheShort (low ^^^ (word32 secret 0 ^^^ word32 secret 4)),
   avalancheShort (high ^^^ (word32 secret 8 ^^^ word32 secret 12))⟩

/-- Four to eight bytes. -/
private def hashUpTo8 (b : ByteArray) : Wide :=
  let n := b.size
  let input := word32 b 0 + word32 b (n - 4) <<< 32
  let keyed := input ^^^ (word64 secret 16 ^^^ word64 secret 24)
  let m := mul keyed (prime64_1 + n.toUInt64 <<< 2)
  let high := m.high + m.low <<< 1
  let low := m.low ^^^ high >>> 3
  ⟨xorShift (xorShift low 35 * primeMix_2) 28, avalanche high⟩

/-- Nine to sixteen bytes. -/
private def hashUpTo16 (b : ByteArray) : Wide :=
  let n := b.size
  let flipLow := word64 secret 32 ^^^ word64 secret 40
  let flipHigh := word64 secret 48 ^^^ word64 secret 56
  let first := word64 b 0
  let last := word64 b (n - 8)
  let m := mul (first ^^^ last ^^^ flipLow) prime64_1
  let low := m.low + (n - 1).toUInt64 <<< 54
  let keyed := last ^^^ flipHigh
  let high := m.high + keyed + low32 keyed * (prime32_2 - 1)
  let r := mul (low ^^^ swap 8 high) prime64_2
  ⟨avalanche r.low, avalanche (r.high + high * prime64_2)⟩

private def mix16 (b : ByteArray) (i key : Nat) : UInt64 :=
  mulFold (word64 b i ^^^ word64 secret key) (word64 b (i + 8) ^^^ word64 secret (key + 8))

private def mix32 (b : ByteArray) (acc : Wide) (i j key : Nat) : Wide :=
  ⟨(acc.low + mix16 b i key) ^^^ (word64 b j + word64 b (j + 8)),
   (acc.high + mix16 b j (key + 16)) ^^^ (word64 b i + word64 b (i + 8))⟩

private def finishMiddle (n : Nat) (acc : Wide) : Wide :=
  ⟨avalanche (acc.low + acc.high),
   0 - avalanche (acc.low * prime64_1 + acc.high * prime64_4 + n.toUInt64 * prime64_2)⟩

/-- Seventeen to 128 bytes: pairs of 16 bytes from both ends, the middle ones first. -/
private def hashUpTo128 (b : ByteArray) : Wide :=
  let n := b.size
  let pairs := (n - 1) / 32
  let acc := (List.range (pairs + 1)).reverse.foldl
    (fun acc i => mix32 b acc (16 * i) (n - 16 * (i + 1)) (32 * i)) ⟨n.toUInt64 * prime64_1, 0⟩
  finishMiddle n acc

/-- 129 to 240 bytes. -/
private def hashUpTo240 (b : ByteArray) : Wide :=
  let n := b.size
  let start := (List.range 4).foldl
    (fun acc i => mix32 b acc (32 * i) (32 * i + 16) (32 * i)) ⟨n.toUInt64 * prime64_1, 0⟩
  let acc := (List.range (n / 32 - 4)).foldl
    (fun acc i => mix32 b acc (32 * i + 128) (32 * i + 144) (32 * i + 3))
    ⟨avalanche start.low, avalanche start.high⟩
  finishMiddle n (mix32 b acc (n - 16) (n - 32) 103)

/-- The eight running words of a long input. -/
private abbrev Lanes := Vector UInt64 8

private def initialLanes : Lanes :=
  #v[prime32_3, prime64_1, prime64_2, prime64_3, prime64_4, prime32_2, prime64_5, prime32_1]

/-- Mixes one stripe of 64 bytes into the lanes; each word is also added to its neighbour. -/
private def accumulate (b : ByteArray) (offset key : Nat) (acc : Lanes) : Lanes :=
  Vector.ofFn fun i =>
    let neighbour := word64 b (offset + 8 * (i.val ^^^ 1))
    let keyed := word64 b (offset + 8 * i.val) ^^^ word64 secret (key + 8 * i.val)
    acc[i] + neighbour + low32 keyed * (keyed >>> 32)

private def scramble (acc : Lanes) : Lanes :=
  Vector.ofFn fun i => (xorShift acc[i] 47 ^^^ word64 secret (128 + 8 * i.val)) * prime32_1

private def mergeLanes (acc : Lanes) (key : Nat) (start : UInt64) : UInt64 :=
  let pair (i j : Fin 8) : UInt64 :=
    mulFold (acc[i] ^^^ word64 secret (key + 8 * i.val)) (acc[j] ^^^ word64 secret (key + 8 * j.val))
  avalanche (start + pair 0 1 + pair 2 3 + pair 4 5 + pair 6 7)

/-- More than 240 bytes: blocks of sixteen stripes, then what is left, then the last 64 bytes once
more under another part of the secret. -/
private def hashLong (b : ByteArray) : Wide :=
  let n := b.size
  let stripes (start count : Nat) (acc : Lanes) : Lanes :=
    (List.range count).foldl (fun acc i => accumulate b (start + 64 * i) (8 * i) acc) acc
  let blocks := (n - 1) / 1024
  let acc := (List.range blocks).foldl
    (fun acc i => scramble (stripes (1024 * i) 16 acc)) initialLanes
  let acc := stripes (1024 * blocks) ((n - 1 - 1024 * blocks) / 64) acc
  let acc := accumulate b (n - 64) 121 acc
  ⟨mergeLanes acc 11 (n.toUInt64 * prime64_1),
   mergeLanes acc 117 (0xFFFFFFFFFFFFFFFF ^^^ n.toUInt64 * prime64_2)⟩

def hash (b : ByteArray) : Wide :=
  if b.size = 0 then hashEmpty
  else if b.size ≤ 3 then hashUpTo3 b
  else if b.size ≤ 8 then hashUpTo8 b
  else if b.size ≤ 16 then hashUpTo16 b
  else if b.size ≤ 128 then hashUpTo128 b
  else if b.size ≤ 240 then hashUpTo240 b
  else hashLong b

end BuildDelta.Xxh3
