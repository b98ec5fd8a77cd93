import BuildDelta.Toml.Lexical
/-!
# Texts and keys

A text stands between quotation marks, which take escapes, or between apostrophes, which take none.
Three marks in a row open a text of several lines; up to two more marks may stand just before its
closing ones. A key is a text on one line, or a bare word.
-/

namespace BuildDelta.Toml

private def digitValue? (c : Char) : Option Nat :=
  if c.isDigit then some (c.toNat - '0'.toNat)
  else if 'a' ≤ c ∧ c ≤ 'f' then some (c.toNat - 'a'.toNat + 10)
  else if 'A' ≤ c ∧ c ≤ 'F' then some (c.toNat - 'A'.toNat + 10)
  else none

/-- The character with this hexadecimal number. -/
def numberedChar? (digits : List Char) : Option Char := do
  let values ← digits.mapM digitValue?
  let n := values.foldl (fun n d => 16 * n + d) 0
  if n.isValidChar then some (Char.ofNat n) else none

def namedEscape? (c : Char) : Option Char :=
  if c = '"' ∨ c = '\\' then some c
  else if c = 'b' then some '\x08'
  else if c = 'f' then some '\x0c'
  else if c = 'n' then some '\n'
  else if c = 'r' then some '\r'
  else if c = 't' then some '\t'
  else none

/-- The inside of a quoted text on one line, and what follows its closing mark. -/
def quotedLine : List Char → Option (List Char × List Char)
  | [] => none
  | '"' :: cs => some ([], cs)
  | '\\' :: 'u' :: a :: b :: c :: d :: cs => do
    let x ← numberedChar? [a, b, c, d]
    let (xs, rest) ← quotedLine cs
    some (x :: xs, rest)
  | '\\' :: 'U' :: a :: b :: c :: d :: e :: f :: g :: h :: cs => do
    let x ← numberedChar? [a, b, c, d, e, f, g, h]
    let (xs, rest) ← quotedLine cs
    some (x :: xs, rest)
  | '\\' :: c :: cs => do
    let x ← namedEscape? c
    let (xs, rest) ← quotedLine cs
    some (x :: xs, rest)
  | c :: cs =>
    if isPlain c ∧ c ≠ '\\' then do
      let (xs, rest) ← quotedLine cs
      some (c :: xs, rest)
    else none

private def opensLine (cs : List Char) : Bool :=
  (Scanner.newline (cs.dropWhile isBlank)).isSome

/-- The inside of a quoted text on several lines. A backslash at the end of a line drops all blanks
and line feeds that follow it; `dropping` says that this is going on. -/
def quotedLines : (dropping : Bool) → List Char → Option (List Char × List Char)
  | _, [] => none
  | _, '"' :: '"' :: '"' :: '"' :: '"' :: cs => some (['"', '"'], cs)
  | _, '"' :: '"' :: '"' :: '"' :: cs => some (['"'], cs)
  | _, '"' :: '"' :: '"' :: cs => some ([], cs)
  | _, '\\' :: 'u' :: a :: b :: c :: d :: cs => do
    let x ← numberedChar? [a, b, c, d]
    let (xs, rest) ← quotedLines false cs
    some (x :: xs, rest)
  | _, '\\' :: 'U' :: a :: b :: c :: d :: e :: f :: g :: h :: cs => do
    let x ← numberedChar? [a, b, c, d, e, f, g, h]
    let (xs, rest) ← quotedLines false cs
    some (x :: xs, rest)
  | dropping, '\r' :: '\n' :: cs => do
    let (xs, rest) ← quotedLines dropping cs
    some (if dropping then xs else '\n' :: xs, rest)
  | _, '\\' :: c :: cs =>
    if opensLine (c :: cs) then quotedLines true (c :: cs)
    else do
      let x ← namedEscape? c
      let (xs, rest) ← quotedLines false cs
      some (x :: xs, rest)
  | dropping, c :: cs =>
    if isBlank c ∨ c = '\n' then do
      let (xs, rest) ← quotedLines dropping cs
      some (if dropping then xs else c :: xs, rest)
    else if isPlain c ∧ c ≠ '\\' then do
      let (xs, rest) ← quotedLines false cs
      some (c :: xs, rest)
    else none

def literalLine : List Char → Option (List Char × List Char)
  | [] => none
  | '\'' :: cs => some ([], cs)
  | c :: cs =>
    if isPlain c then do
      let (xs, rest) ← literalLine cs
      some (c :: xs, rest)
    else none

def literalLines : List Char → Option (List Char × List Char)
  | [] => none
  | '\'' :: '\'' :: '\'' :: '\'' :: '\'' :: cs => some (['\'', '\''], cs)
  | '\'' :: '\'' :: '\'' :: '\'' :: cs => some (['\''], cs)
  | '\'' :: '\'' :: '\'' :: cs => some ([], cs)
  | '\r' :: '\n' :: cs => do
    let (xs, rest) ← literalLines cs
    some ('\n' :: xs, rest)
  | c :: cs =>
    if isPlain c ∨ c = '\n' then do
      let (xs, rest) ← literalLines cs
      some (c :: xs, rest)
    else none

/-- A line feed right after the opening marks does not count. -/
private def afterNewline (cs : List Char) : List Char :=
  match Scanner.newline cs with
  | some (_, rest) => rest
  | none => cs

private def asText (r : Option (List Char × List Char)) : Option (String × List Char) :=
  r.map fun (xs, rest) => (String.ofList xs, rest)

namespace Scanner

def line : Scanner String
  | '"' :: cs => asText (quotedLine cs)
  | '\'' :: cs => asText (literalLine cs)
  | _ => none

def text : Scanner String
  | '"' :: '"' :: '"' :: cs => asText (quotedLines false (afterNewline cs))
  | '\'' :: '\'' :: '\'' :: cs => asText (literalLines (afterNewline cs))
  | cs => line cs

def isBare (c : Char) : Bool :=
  c.isAlphanum || c = '-' || c = '_'

def simpleKey : Scanner String := fun cs =>
  match line cs with
  | some found => some found
  | none =>
    let bare := cs.takeWhile isBare
    if bare.isEmpty then none else some (String.ofList bare, cs.dropWhile isBare)

/-- Keys with points between them, and blanks around each. -/
def keyPath : (fuel : Nat) → Scanner (List String)
  | 0 => failure
  | fuel + 1 => do
    blanks
    let key ← simpleKey
    blanks
    if ← accept '.' then
      let keys ← keyPath fuel
      pure (key :: keys)
    else pure [key]

end Scanner

end BuildDelta.Toml
