import BuildDelta.Toml.Lexical
/-!
# Numbers

Integers fit in 64 bits with a sign. No setting is a number with a fraction, so of those only the
range is looked at: one that rounds to infinity is refused.
-/

namespace BuildDelta.Toml

inductive Number where
  | integer (n : Int)
  | real

/-- Digits, and single underscores between two of them. -/
def digitsOn (isDigit : Char → Bool) : List Char → List Char × List Char
  | [] => ([], [])
  | '_' :: c :: cs =>
    if isDigit c then
      let (ds, rest) := digitsOn isDigit cs
      (c :: ds, rest)
    else ([], '_' :: c :: cs)
  | c :: cs =>
    if isDigit c then
      let (ds, rest) := digitsOn isDigit cs
      (c :: ds, rest)
    else ([], c :: cs)

/-- The same, starting with a digit. -/
def digits (isDigit : Char → Bool) : Scanner (List Char)
  | [] => none
  | c :: cs =>
    if isDigit c then
      let (ds, rest) := digitsOn isDigit cs
      some (c :: ds, rest)
    else none

/-- Decimal digits without a needless zero in front. -/
def wholeDigits : Scanner (List Char)
  | '0' :: cs => some (['0'], cs)
  | cs => digits Char.isDigit cs

private def digitValue (c : Char) : Nat :=
  if c.isDigit then c.toNat - '0'.toNat else c.toLower.toNat - 'a'.toNat + 10

private def valueOf (base : Nat) (ds : List Char) : Nat :=
  ds.foldl (fun n d => base * n + digitValue d) 0

/-- Whether `m * 10 ^ e` is too large for a double: it is at least halfway from the largest one to
`2 ^ 1024`. The exponent is looked at first, so that no huge power is computed. -/
def overflows (m : Nat) (e : Int) : Bool :=
  let size : Int := (Nat.toDigits 10 m).length + e
  if m = 0 ∨ size < 300 then false
  else if 320 < size then true
  else
    let bound := Nat.pow 2 1024 - Nat.pow 2 970
    if 0 ≤ e then bound ≤ m * Nat.pow 10 e.toNat else bound * Nat.pow 10 (-e).toNat ≤ m

private def isHexDigit (c : Char) : Bool :=
  c.isDigit || ('a' ≤ c && c ≤ 'f') || ('A' ≤ c && c ≤ 'F')

namespace Scanner

private def inRange (n : Int) : Scanner Number :=
  if -0x8000000000000000 ≤ n ∧ n < 0x8000000000000000 then pure (.integer n) else failure

private def inBase (base : Nat) (isDigit : Char → Bool) : Scanner Number := do
  let ds ← digits isDigit
  inRange (valueOf base ds)

/-- The sign, if there is one; `true` for minus. -/
private def sign : Scanner (Option Bool) := do
  if ← accept '-' then pure (some true)
  else if ← accept '+' then pure (some false)
  else pure none

private def fraction : Scanner (List Char) := do
  char '.'
  digits Char.isDigit

private def exponent : Scanner Int := do
  unless ← accept 'e' do char 'E'
  let negative ← sign
  let n := valueOf 10 (← digits Char.isDigit)
  pure (if negative = some true then -n else n)

private def decimal (negative : Bool) : Scanner Number := do
  let whole ← wholeDigits
  let fraction? ← optional fraction
  let exponent? ← optional exponent
  let part := fraction?.getD []
  let n := valueOf 10 (whole ++ part)
  if fraction?.isNone ∧ exponent?.isNone then inRange (if negative then -n else n)
  else if ¬negative ∧ overflows n (exponent?.getD 0 - part.length) then failure
  else pure .real

/-- Only numbers without a sign may be written in another base. -/
def number : Scanner Number := do
  match ← sign with
  | none =>
    (word ['0', 'x'] *> inBase 16 isHexDigit)
      <|> (word ['0', 'o'] *> inBase 8 fun c => '0' ≤ c && c ≤ '7')
      <|> (word ['0', 'b'] *> inBase 2 fun c => c = '0' || c = '1')
      <|> unsigned false
  | some negative => unsigned negative
where
  unsigned (negative : Bool) : Scanner Number :=
    (word ['i', 'n', 'f'] *> pure .real) <|> (word ['n', 'a', 'n'] *> pure .real)
      <|> decimal negative

end Scanner

end BuildDelta.Toml
