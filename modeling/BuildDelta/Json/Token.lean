/-!
# JSON as tokens

Values are written as token lists and read back from token lists. The two layouts of a text, compact
and indented, are two ways to put the same tokens on paper.
-/

namespace BuildDelta.Json

/-- Lexemes that occur in texts of others but in no text of this library. -/
inductive Foreign where
  /-- A number with a sign, a fraction or an exponent. -/
  | number
  /-- A string with half of a surrogate pair in it: in order as JSON, but it names no text. -/
  | brokenText
  /-- What is no JSON at all; nothing is read after it. -/
  | junk
deriving DecidableEq, Repr

inductive Token where
  | openObject
  | closeObject
  | openArray
  | closeArray
  | comma
  | colon
  | text (s : String)
  | natural (n : Nat)
  | boolean (b : Bool)
  | null
  | foreign (f : Foreign)
deriving DecidableEq, Repr

/-- A value's fields in order. -/
def object : List (String × List Token) → List Token
  | [] => [.openObject, .closeObject]
  | (name, value) :: fields =>
    .openObject :: .text name :: .colon :: value ++
      fields.flatMap (fun (name, value) => .comma :: .text name :: .colon :: value) ++ [.closeObject]

def array : List (List Token) → List Token
  | [] => [.openArray, .closeArray]
  | value :: values =>
    .openArray :: value ++ values.flatMap (fun value => .comma :: value) ++ [.closeArray]

private def hexDigit (n : Nat) : Char := Nat.digitChar n

/-- A character inside a string. -/
def escape (c : Char) : List Char :=
  if c = '"' then ['\\', '"']
  else if c = '\\' then ['\\', '\\']
  else if c = '\x08' then ['\\', 'b']
  else if c = '\x0c' then ['\\', 'f']
  else if c = '\n' then ['\\', 'n']
  else if c = '\r' then ['\\', 'r']
  else if c = '\t' then ['\\', 't']
  else if c.toNat < 0x20 then
    ['\\', 'u', '0', '0', hexDigit (c.toNat / 16), hexDigit (c.toNat % 16)]
  else [c]

namespace Token

/-- A token as written. Foreign lexemes are never written. -/
def write : Token → List Char
  | .openObject => ['\x7b']
  | .closeObject => ['\x7d']
  | .openArray => ['[']
  | .closeArray => [']']
  | .comma => [',']
  | .colon => [':']
  | .text s => '"' :: s.toList.flatMap escape ++ ['"']
  | .natural n => Nat.toDigits 10 n
  | .boolean true => ['t', 'r', 'u', 'e']
  | .boolean false => ['f', 'a', 'l', 's', 'e']
  | .null => ['n', 'u', 'l', 'l']
  | .foreign _ => []

end Token

def compact (ts : List Token) : String :=
  String.ofList (ts.flatMap Token.write)

/-- A line break, then two blanks per level. -/
def lineBreak (depth : Nat) : List Char :=
  '\n' :: List.replicate (2 * depth) ' '

/-- One element or field a line. Empty arrays and objects stay on their line. -/
def layOut : (depth : Nat) → List Token → List Char
  | depth, .openArray :: .closeArray :: ts => '[' :: ']' :: layOut depth ts
  | depth, .openObject :: .closeObject :: ts => '\x7b' :: '\x7d' :: layOut depth ts
  | depth, .openArray :: ts => '[' :: lineBreak (depth + 1) ++ layOut (depth + 1) ts
  | depth, .openObject :: ts => '\x7b' :: lineBreak (depth + 1) ++ layOut (depth + 1) ts
  | depth, .closeArray :: ts => lineBreak (depth - 1) ++ ']' :: layOut (depth - 1) ts
  | depth, .closeObject :: ts => lineBreak (depth - 1) ++ '\x7d' :: layOut (depth - 1) ts
  | depth, .comma :: ts => ',' :: lineBreak depth ++ layOut depth ts
  | depth, .colon :: ts => ':' :: ' ' :: layOut depth ts
  | depth, t :: ts => t.write ++ layOut depth ts
  | _, [] => []

def indented (ts : List Token) : String :=
  String.ofList (layOut 0 ts)

end BuildDelta.Json
