import BuildDelta.Json.Token
/-!
# Cutting a JSON text into tokens

Blanks between tokens disappear. The first thing that is no JSON ends the list with a `junk` token,
so that whoever reads the tokens notices a fault only on reaching it. What a written character or number
is cut into is said beside the scanners (`exists_piece`, `scanNumber_append`).
-/

namespace BuildDelta.Json

/-- A piece of a string: a character, or a UTF-16 unit given by its number. -/
inductive TextPiece where
  | char (c : Char)
  | number (n : Nat)

private def hexValue? (c : Char) : Option Nat :=
  if c.isDigit then some (c.toNat - '0'.toNat)
  else if 'a' ≤ c ∧ c ≤ 'f' then some (c.toNat - 'a'.toNat + 10)
  else if 'A' ≤ c ∧ c ≤ 'F' then some (c.toNat - 'A'.toNat + 10)
  else none

private def unitNumber? (a b c d : Char) : Option Nat := do
  let a ← hexValue? a
  let b ← hexValue? b
  let c ← hexValue? c
  let d ← hexValue? d
  some (((a * 16 + b) * 16 + c) * 16 + d)

private def shortEscape? (c : Char) : Option Char :=
  if c = '"' ∨ c = '\\' ∨ c = '/' then some c
  else if c = 'b' then some '\x08'
  else if c = 'f' then some '\x0c'
  else if c = 'n' then some '\n'
  else if c = 'r' then some '\r'
  else if c = 't' then some '\t'
  else none

/-- The inside of a string up to its closing quotation mark, and what follows the mark. -/
def scanText : List Char → Option (List TextPiece × List Char)
  | [] => none
  | '"' :: rest => some ([], rest)
  | '\\' :: 'u' :: a :: b :: c :: d :: rest => do
    let n ← unitNumber? a b c d
    let (pieces, rest) ← scanText rest
    some (.number n :: pieces, rest)
  | '\\' :: c :: rest => do
    let c ← shortEscape? c
    let (pieces, rest) ← scanText rest
    some (.char c :: pieces, rest)
  | c :: rest =>
    if c.toNat < 0x20 ∨ c = '\\' then none
    else do
      let (pieces, rest) ← scanText rest
      some (.char c :: pieces, rest)

private theorem scanText_short {c d : Char} (hu : c ≠ 'u') (h : shortEscape? c = some d)
    (rest : List Char) : scanText ('\\' :: c :: rest) =
      (scanText rest).map fun (pieces, rest) => (.char d :: pieces, rest) := by
  have hbind : ∀ o : Option (List TextPiece × List Char),
      (o.bind fun p => some (TextPiece.char d :: p.1, p.2)) = o.map fun p => (.char d :: p.1, p.2) := by
    intro o
    cases o <;> rfl
  rw [scanText]
  · simp [h, hbind]
  · simp [hu]

private theorem scanText_unit {n : Nat} (h : n < 0x20) (rest : List Char) :
    scanText ('\\' :: 'u' :: '0' :: '0' :: Nat.digitChar (n / 16) :: Nat.digitChar (n % 16) :: rest) =
      (scanText rest).map fun (pieces, rest) => (.number n :: pieces, rest) := by
  have hnumber : ∀ n < 0x20,
      unitNumber? '0' '0' (Nat.digitChar (n / 16)) (Nat.digitChar (n % 16)) = some n := by decide
  rw [scanText, hnumber n h]
  cases scanText rest <;> rfl

private theorem scanText_plain {c : Char} (hquote : c ≠ '"') (hslash : c ≠ '\\') (h : ¬c.toNat < 0x20)
    (rest : List Char) : scanText (c :: rest) =
      (scanText rest).map fun (pieces, rest) => (.char c :: pieces, rest) := by
  rw [scanText]
  · rw [if_neg (by simp [h, hslash])]
    cases scanText rest <;> rfl
  · simp [hquote]
  · simp [hslash]
  · simp [hslash]

private def isLeading (n : Nat) : Bool := 0xD800 ≤ n && n < 0xDC00

private def isTrailing (n : Nat) : Bool := 0xDC00 ≤ n && n < 0xE000

/-- Joins surrogate pairs. A lone half is refused. -/
def joinPieces : List TextPiece → Option (List Char)
  | [] => some []
  | .char c :: ps => (joinPieces ps).map (c :: ·)
  | .number a :: .number b :: ps =>
    if isLeading a then
      if isTrailing b then
        (joinPieces ps).map (Char.ofNat (0x10000 + (a - 0xD800) * 0x400 + (b - 0xDC00)) :: ·)
      else none
    else if isTrailing a then none
    else (joinPieces (.number b :: ps)).map (Char.ofNat a :: ·)
  | .number a :: ps =>
    if isLeading a ∨ isTrailing a then none else (joinPieces ps).map (Char.ofNat a :: ·)

private theorem joinPieces_number {n : Nat} (h : n < 0xD800) (ps : List TextPiece) :
    joinPieces (.number n :: ps) = (joinPieces ps).map (Char.ofNat n :: ·) := by
  have hleading : isLeading n = false := by
    simp [isLeading]
    omega
  have htrailing : isTrailing n = false := by
    simp [isTrailing]
    omega
  cases ps with
  | nil => simp [joinPieces, hleading, htrailing]
  | cons p ps => cases p <;> simp [joinPieces, hleading, htrailing]

/-- A character inside a string, escaped or not, is one piece, and the piece stands for it. -/
theorem exists_piece (c : Char) : ∃ piece,
    (∀ rest, scanText (escape c ++ rest) =
      (scanText rest).map fun (pieces, rest) => (piece :: pieces, rest)) ∧
    ∀ pieces, joinPieces (piece :: pieces) = (joinPieces pieces).map (c :: ·) := by
  have hchar : ∀ pieces, joinPieces (.char c :: pieces) = (joinPieces pieces).map (c :: ·) := by
    intro pieces
    rw [joinPieces]
  by_cases hshort : c ∈ ['"', '\\', '\x08', '\x0c', '\n', '\r', '\t']
  · refine ⟨.char c, ?_, hchar⟩
    simp only [List.mem_cons, List.not_mem_nil, or_false] at hshort
    rcases hshort with rfl | rfl | rfl | rfl | rfl | rfl | rfl
    all_goals exact scanText_short (by decide) rfl
  · simp only [List.mem_cons, List.not_mem_nil, or_false, not_or] at hshort
    obtain ⟨hquote, hslash, hb, hf, hn, hr, ht⟩ := hshort
    unfold escape
    rw [if_neg hquote, if_neg hslash, if_neg hb, if_neg hf, if_neg hn, if_neg hr, if_neg ht]
    split
    · rename_i hcontrol
      refine ⟨.number c.toNat, scanText_unit hcontrol, fun pieces => ?_⟩
      rw [joinPieces_number (by omega), Char.ofNat_toNat]
    · rename_i hcontrol
      exact ⟨.char c, scanText_plain hquote hslash hcontrol, hchar⟩

def textToken (pieces : List TextPiece) : Token :=
  match joinPieces pieces with
  | some cs => .text (String.ofList cs)
  | none => .foreign .brokenText

private def fraction? : List Char → Option (Bool × List Char)
  | '.' :: rest =>
    if (rest.takeWhile Char.isDigit).isEmpty then none
    else some (true, rest.dropWhile Char.isDigit)
  | rest => some (false, rest)

private def exponent? : List Char → Option (Bool × List Char)
  | c :: rest =>
    if c = 'e' ∨ c = 'E' then
      let rest := match rest with
        | '+' :: rest => rest
        | '-' :: rest => rest
        | rest => rest
      if (rest.takeWhile Char.isDigit).isEmpty then none
      else some (true, rest.dropWhile Char.isDigit)
    else some (false, c :: rest)
  | [] => some (false, [])

/-- A number and what follows it. No digit stands in front of a first digit zero. -/
def scanNumber (signed : Bool) (cs : List Char) : Option (Token × List Char) := do
  let digits := cs.takeWhile Char.isDigit
  if digits.isEmpty ∨ (digits.head? = some '0' ∧ digits.length > 1) then none
  let (fractional, rest) ← fraction? (cs.dropWhile Char.isDigit)
  let (scaled, rest) ← exponent? rest
  if signed || fractional || scaled then some (.foreign .number, rest)
  else some (.natural (Nat.ofDigitChars 10 digits 0), rest)

/-- Digits up to what is no part of a number are a natural number. -/
theorem scanNumber_append {digits rest : List Char} (hne : digits ≠ [])
    (hdigits : ∀ c ∈ digits, c.isDigit = true) (hzero : digits.head? = some '0' → digits.length = 1)
    (hrest : ∀ c, rest.head? = some c → c.isDigit = false ∧ c ≠ '.' ∧ c ≠ 'e' ∧ c ≠ 'E') :
    scanNumber false (digits ++ rest) = some (.natural (Nat.ofDigitChars 10 digits 0), rest) := by
  have htake : (digits ++ rest).takeWhile Char.isDigit = digits := by
    rw [List.takeWhile_append_of_pos hdigits]
    cases rest with
    | nil => simp
    | cons c rest => simp [(hrest c rfl).1]
  have hdrop : (digits ++ rest).dropWhile Char.isDigit = rest := by
    rw [List.dropWhile_append_of_pos hdigits]
    cases rest with
    | nil => rfl
    | cons c rest => simp [(hrest c rfl).1]
  have hfraction : fraction? rest = some (false, rest) := by
    cases rest with
    | nil => rfl
    | cons c rest =>
      rw [fraction?]
      simp [(hrest c rfl).2.1]
  have hexponent : exponent? rest = some (false, rest) := by
    cases rest with
    | nil => rfl
    | cons c rest => simp [exponent?, hrest c rfl]
  have hlead : digits.head? = some '0' → digits.length ≤ 1 := fun h => Nat.le_of_eq (hzero h)
  simpa [scanNumber, htake, hdrop, hne, hfraction, hexponent] using hlead

/-- The first token of a text that does not start with a blank. -/
def scanOne : List Char → Option (Token × List Char)
  | '\x7b' :: rest => some (.openObject, rest)
  | '\x7d' :: rest => some (.closeObject, rest)
  | '[' :: rest => some (.openArray, rest)
  | ']' :: rest => some (.closeArray, rest)
  | ',' :: rest => some (.comma, rest)
  | ':' :: rest => some (.colon, rest)
  | '"' :: rest => (scanText rest).map fun (pieces, rest) => (textToken pieces, rest)
  | 't' :: 'r' :: 'u' :: 'e' :: rest => some (.boolean true, rest)
  | 'f' :: 'a' :: 'l' :: 's' :: 'e' :: rest => some (.boolean false, rest)
  | 'n' :: 'u' :: 'l' :: 'l' :: rest => some (.null, rest)
  | '-' :: rest => scanNumber true rest
  | cs => scanNumber false cs

theorem scanOne_of_isDigit {c : Char} (h : c.isDigit = true) (cs : List Char) :
    scanOne (c :: cs) = scanNumber false (c :: cs) := by
  rw [scanOne]
  all_goals
    intro rest hcs
    obtain ⟨rfl, -⟩ := List.cons.inj hcs
    exact absurd h (by decide)

def isBlank (c : Char) : Bool :=
  c = ' ' || c = '\n' || c = '\r' || c = '\t'

/-- At most `fuel` tokens; each takes at least one character. -/
def scanUpTo : (fuel : Nat) → List Char → List Token
  | 0, _ => []
  | fuel + 1, cs =>
    match cs.dropWhile isBlank with
    | [] => []
    | cs =>
      match scanOne cs with
      | some (t, rest) => t :: scanUpTo fuel rest
      | none => [.foreign .junk]

def scan (s : String) : List Token :=
  scanUpTo s.toList.length s.toList

end BuildDelta.Json
