import BuildDelta.Text.Quoted
/-!
# Reading bytes one value at a time

A reader takes a value off the front of a byte string and leaves the rest, or says why it cannot.
Readers are plain functions, so that every statement about them can be made for an arbitrary rest.
-/

namespace BuildDelta.Wire

/-- The integer types that can stand on the wire. A count is the number of elements of a list or a
map. -/
inductive Width where
  | word32
  | word64
  | count
deriving DecidableEq, Repr

/-- What a refused marker byte announces instead of a number that fits. -/
inductive Announced where
  | word64
  | word128
  | reserved
deriving DecidableEq, Repr

inductive Error where
  /-- A read of several bytes at once came this many short. -/
  | unexpectedEnd (missing : Nat)
  /-- The same for a text of this length, for which a buffer had been made before. -/
  | shortText (length missing : Nat)
  | refusedMarker (expected : Width) (found : Announced)
  | notUtf8 (flaw : Utf8.Flaw)
  | unknownVariant (index count : Nat)
  | repeatedKey (key : String)
deriving DecidableEq, Repr

/-- The length of a text that is not there. -/
def Error.missingText? : Error → Option Nat
  | shortText length _ => some length
  | _ => none

def repeatedKeyMessage (key : String) : String :=
  "persisted state contains duplicate key '" ++ key ++ "'"

namespace Error

private def widthName : Width → String
  | .word32 => "U32"
  | .word64 => "U64"
  | .count => "Usize"

private def announcedName : Announced → String
  | .word64 => "U64"
  | .word128 => "U128"
  | .reserved => "Reserved"

private def other (text : String) : String :=
  "OtherString(" ++ Text.quoted text ++ ")"

def message : Error → String
  | .unexpectedEnd missing | .shortText _ missing =>
    "UnexpectedEnd \x7b additional: " ++ toString missing ++ " \x7d"
  | .refusedMarker expected found =>
    "InvalidIntegerType \x7b expected: " ++ widthName expected ++ ", found: " ++
      announcedName found ++ " \x7d"
  | .notUtf8 flaw => "Utf8 \x7b inner: " ++ flaw.describe ++ " \x7d"
  | .unknownVariant index count =>
    other ("invalid value: integer \x60" ++ toString index ++
      "\x60, expected variant index 0 <= i < " ++ toString count)
  | .repeatedKey key => other (repeatedKeyMessage key)

end Error

def Reader (α : Type) := Bytes → Except Error (α × Bytes)

namespace Reader

variable {α β : Type}

instance : Monad Reader where
  pure a := fun bs => .ok (a, bs)
  bind r f := fun bs =>
    match r bs with
    | .ok (a, rest) => f a rest
    | .error e => .error e

def fail (e : Error) : Reader α := fun _ => .error e

@[simp] theorem pure_apply (a : α) (bs : Bytes) : (pure a : Reader α) bs = .ok (a, bs) := rfl

@[simp] theorem fail_apply (e : Error) (bs : Bytes) : (fail e : Reader α) bs = .error e := rfl

theorem bind_apply (r : Reader α) (f : α → Reader β) (bs : Bytes) :
    (r >>= f) bs = match r bs with
      | .ok (a, rest) => f a rest
      | .error e => .error e := rfl

theorem bind_ok {r : Reader α} {f : α → Reader β} {bs rest : Bytes} {a : α}
    (h : r bs = .ok (a, rest)) : (r >>= f) bs = f a rest := by
  simp [bind_apply, h]

theorem bind_error {r : Reader α} {f : α → Reader β} {bs : Bytes} {e : Error}
    (h : r bs = .error e) : (r >>= f) bs = .error e := by
  simp [bind_apply, h]

/-- Exactly `n` bytes, or an error about those that are missing. -/
def take (n : Nat) (short : Nat → Error := .unexpectedEnd) : Reader Bytes := fun bs =>
  if n ≤ bs.length then .ok (bs.take n, bs.drop n)
  else .error (short (n - bs.length))

/-- The same reader `n` times over. A reader that fails ends the run, so the run is never longer
than the input when each value takes at least one byte. -/
def times (r : Reader α) : Nat → Reader (List α)
  | 0 => pure []
  | n + 1 => do
    let a ← r
    let as ← times r n
    pure (a :: as)

end Reader

/-- A written form for the values of a type, and a reader for it. -/
class Format (α : Type) where
  write : α → Bytes
  read : Reader α

export Format (write read)

end BuildDelta.Wire
