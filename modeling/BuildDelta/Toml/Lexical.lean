/-!
# Characters of a settings file

A scanner takes something off the front of a character list or fails. Every fault in a text counts
the same, so failing carries no reason.
-/

namespace BuildDelta.Toml

abbrev Scanner := StateT (List Char) Option

/-- What may stand in comments and quotation marks: anything but control characters of ASCII, and
of those the tab. -/
def isPlain (c : Char) : Bool :=
  c = '\t' || (0x20 ≤ c.toNat && c.toNat ≠ 0x7F)

def isBlank (c : Char) : Bool :=
  c = ' ' || c = '\t'

namespace Scanner

variable {α : Type}

def char (c : Char) : Scanner PUnit
  | d :: cs => if d = c then some (⟨⟩, cs) else none
  | [] => none

/-- Takes the character if it comes next, and says whether it did. -/
def accept (c : Char) : Scanner Bool
  | d :: cs => if d = c then some (true, cs) else some (false, d :: cs)
  | [] => some (false, [])

def word : List Char → Scanner PUnit
  | [] => pure ⟨⟩
  | c :: cs => do
    char c
    word cs

def spanOf (p : Char → Bool) : Scanner (List Char) := fun cs =>
  some (cs.takeWhile p, cs.dropWhile p)

def blanks : Scanner PUnit := do
  let _ ← spanOf isBlank

/-- A line feed, after a carriage return or without one. -/
def newline : Scanner PUnit
  | '\n' :: cs | '\r' :: '\n' :: cs => some (⟨⟩, cs)
  | _ => none

def atEnd : Scanner Bool := fun cs => some (cs.isEmpty, cs)

/-- The end of a line with nothing more on it than a comment. -/
def endOfLine : Scanner PUnit := do
  blanks
  if ← accept '#' then
    let _ ← spanOf isPlain
  unless ← atEnd do newline

/-- What follows blanks, line feeds and comments. -/
def afterFiller : (inComment : Bool) → List Char → List Char
  | _, [] => []
  | _, '\r' :: '\n' :: cs => afterFiller false cs
  | inComment, c :: cs =>
    if inComment && isPlain c then afterFiller true cs
    else if isBlank c || c = '\n' then afterFiller false cs
    else if c = '#' then afterFiller true cs
    else c :: cs

def filler : Scanner PUnit := fun cs =>
  some (⟨⟩, afterFiller false cs)

end Scanner

end BuildDelta.Toml
