import BuildDelta.Bytes
/-!
# UTF-8

A byte string falls into pieces: characters, and runs of bytes that begin no character. Reading
strictly, reading with replacement characters and showing a damaged text are all folds over these
pieces, so they agree on where a text is damaged.

A damaged run is as long as the part of it that could still have become a character, and at least
one byte. The last run is cut when the input ends while a character could still follow.
-/

namespace BuildDelta.Utf8

def encodeChars (cs : List Char) : Bytes :=
  cs.flatMap String.utf8EncodeChar

def encode (s : String) : Bytes :=
  encodeChars s.toList

/-- How a character's first byte goes on: how many bytes follow, and the range of the first of
them. -/
inductive Lead where
  | single
  | pair
  | triple (low high : Nat)
  | quad (low high : Nat)
  | stray

/-- Overlong forms, surrogates and numbers above the last code point are ruled out here and by the
range of the second byte. -/
def Lead.of (a : Nat) : Lead :=
  if a < 0x80 then .single
  else if a < 0xC2 then .stray
  else if a < 0xE0 then .pair
  else if a = 0xE0 then .triple 0xA0 0xBF
  else if a = 0xED then .triple 0x80 0x9F
  else if a < 0xF0 then .triple 0x80 0xBF
  else if a = 0xF0 then .quad 0x90 0xBF
  else if a < 0xF4 then .quad 0x80 0xBF
  else if a = 0xF4 then .quad 0x80 0x8F
  else .stray

def isTail (low high : Nat) (b : UInt8) : Bool :=
  low ≤ b.toNat && b.toNat ≤ high

inductive Piece where
  | char (c : Char)
  /-- `cut` says that the input ended where a further byte could have completed a character. -/
  | damage (bytes : Bytes) (cut : Bool)

/-- The first piece of a nonempty byte string, and what follows it. -/
def next (a : UInt8) (rest : Bytes) : Piece × Bytes :=
  match Lead.of a.toNat with
  | .stray => (.damage [a] false, rest)
  | .single => (.char (Char.ofNat a.toNat), rest)
  | .pair =>
    match rest with
    | [] => (.damage [a] true, [])
    | b :: rest =>
      if isTail 0x80 0xBF b then
        (.char (Char.ofNat ((a.toNat - 0xC0) * 64 + (b.toNat - 0x80))), rest)
      else (.damage [a] false, b :: rest)
  | .triple low high =>
    match rest with
    | [] => (.damage [a] true, [])
    | b :: rest =>
      if isTail low high b then
        match rest with
        | [] => (.damage [a, b] true, [])
        | c :: rest =>
          if isTail 0x80 0xBF c then
            (.char (Char.ofNat
              ((a.toNat - 0xE0) * 4096 + (b.toNat - 0x80) * 64 + (c.toNat - 0x80))), rest)
          else (.damage [a, b] false, c :: rest)
      else (.damage [a] false, b :: rest)
  | .quad low high =>
    match rest with
    | [] => (.damage [a] true, [])
    | b :: rest =>
      if isTail low high b then
        match rest with
        | [] => (.damage [a, b] true, [])
        | c :: rest =>
          if isTail 0x80 0xBF c then
            match rest with
            | [] => (.damage [a, b, c] true, [])
            | d :: rest =>
              if isTail 0x80 0xBF d then
                (.char (Char.ofNat ((a.toNat - 0xF0) * 262144 + (b.toNat - 0x80) * 4096
                  + (c.toNat - 0x80) * 64 + (d.toNat - 0x80))), rest)
              else (.damage [a, b, c] false, d :: rest)
          else (.damage [a, b] false, c :: rest)
      else (.damage [a] false, b :: rest)

theorem length_next_le (a : UInt8) (rest : Bytes) : (next a rest).2.length ≤ rest.length := by
  unfold next
  repeat' split
  all_goals simp_all <;> omega

def pieces : Bytes → List Piece
  | [] => []
  | a :: rest => (next a rest).1 :: pieces (next a rest).2
termination_by bs => bs.length
decreasing_by
  have := length_next_le a rest
  simp only [List.length_cons]
  omega

/-- Where and how a byte string stops being UTF-8. -/
structure Flaw where
  /-- How many bytes before the damage are whole characters. -/
  validUpTo : Nat
  /-- The length of the damaged run, or nothing when the input is cut inside a character. -/
  length? : Option Nat
deriving DecidableEq, Repr

namespace Flaw

def describe (f : Flaw) : String :=
  let length := match f.length? with
    | some n => "Some(" ++ toString n ++ ")"
    | none => "None"
  "Utf8Error \x7b valid_up_to: " ++ toString f.validUpTo ++ ", error_len: " ++ length ++ " \x7d"

end Flaw

def join (done : Nat) : List Piece → Except Flaw (List Char)
  | [] => .ok []
  | .char c :: ps => (join (done + c.utf8Size) ps).map (c :: ·)
  | .damage bytes cut :: _ => .error ⟨done, if cut then none else some bytes.length⟩

def decode (bs : Bytes) : Except Flaw String :=
  (join 0 (pieces bs)).map String.ofList

def decode? (bs : Bytes) : Option String :=
  (decode bs).toOption

/-- Every damaged run becomes one replacement character. -/
def decodeLossy (bs : Bytes) : String :=
  String.ofList <| (pieces bs).map fun
    | .char c => c
    | .damage .. => '\ufffd'

end BuildDelta.Utf8
