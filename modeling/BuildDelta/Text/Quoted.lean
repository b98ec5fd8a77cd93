import BuildDelta.Text.Unprintable
import BuildDelta.Text.Utf8
/-!
# Quoted texts in messages

Between double quotes, with the usual short escapes, the number of any character that cannot be
seen, and the value of any byte that belongs to no character.
-/

namespace BuildDelta.Text

private def hexDigits (upper : Bool) (n : Nat) : List Char :=
  (Nat.toDigits 16 n).map fun c => if upper then c.toUpper else c

/-- One character between quotes; `marks` are the quotation marks that take a backslash. -/
def quoteChar (marks : List Char) (c : Char) : List Char :=
  if c = '\x00' then ['\\', '0']
  else if c = '\t' then ['\\', 't']
  else if c = '\r' then ['\\', 'r']
  else if c = '\n' then ['\\', 'n']
  else if c = '\\' then ['\\', '\\']
  else if marks.contains c then ['\\', c]
  else if isUnprintable c then ['\\', 'u', '\x7b'] ++ hexDigits false c.toNat ++ ['\x7d']
  else [c]

def quoted (s : String) : String :=
  String.ofList ('"' :: s.toList.flatMap (quoteChar ['"']) ++ ['"'])

private def quoteByte (b : UInt8) : List Char :=
  ['\\', 'x'] ++ hexDigits true b.toNat

/-- A byte string that is mostly text. Bytes of damaged runs are at least 128, so their two digits
need no padding. -/
def quotedBytes (bs : Bytes) : String :=
  String.ofList ('"' :: (Utf8.pieces bs).flatMap (fun
    | .char c => quoteChar ['"', '\''] c
    | .damage bytes _ => bytes.flatMap quoteByte) ++ ['"'])

end BuildDelta.Text
