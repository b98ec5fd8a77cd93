import BuildDelta.Toml.Lexical
/-!
# Dates and times

No setting is a date, but a date that the calendar does not have makes a text invalid.
-/

namespace BuildDelta.Toml

def daysIn (year month : Nat) : Nat :=
  let leap := year % 4 = 0 ∧ (year % 100 ≠ 0 ∨ year % 400 = 0)
  if month = 2 then if leap then 29 else 28
  else if month = 4 ∨ month = 6 ∨ month = 9 ∨ month = 11 then 30
  else 31

namespace Scanner

/-- A number of exactly so many digits, within bounds. -/
def part (width low high : Nat) : Scanner Nat := fun cs =>
  let ds := cs.take width
  let n := Nat.ofDigitChars 10 ds 0
  if ds.length = width ∧ ds.all Char.isDigit ∧ low ≤ n ∧ n ≤ high then some (n, cs.drop width)
  else none

private def date : Scanner PUnit := do
  let year ← part 4 0 9999
  char '-'
  let month ← part 2 1 12
  char '-'
  let _ ← part 2 1 (daysIn year month)

/-- A minute may have a second number 60. -/
private def time : Scanner PUnit := do
  let _ ← part 2 0 23
  char ':'
  let _ ← part 2 0 59
  char ':'
  let _ ← part 2 0 60
  let _ ← optional do
    char '.'
    let _ ← part 1 0 9
    spanOf Char.isDigit

private def offset : Scanner PUnit :=
  char 'Z' <|> char 'z' <|> do
    char '+' <|> char '-'
    let _ ← part 2 0 23
    char ':'
    let _ ← part 2 0 59

/-- A date, a time, or a date and a time with or without the distance from universal time. -/
def moment : Scanner PUnit := dated <|> time
where
  dated : Scanner PUnit := do
    date
    let _ ← optional do
      char 'T' <|> char 't' <|> char ' '
      time
      optional offset

end Scanner

end BuildDelta.Toml
