import BuildDelta.Json.Scan
/-!
# Reading values from tokens

A reader takes one value off the front of a token list. Values are read in the order in which they
stand, so of two faults the one that is complete first is reported: a repeated key is noticed at the
end of its list, even if the text is damaged further on.
-/

namespace BuildDelta.Json

inductive Error where
  | malformed
  | repeatedKey (key : String)
deriving DecidableEq, Repr

def Reader (α : Type) := List Token → Except Error (α × List Token)

namespace Reader

variable {α β σ : Type}

instance : Monad Reader where
  pure a := fun ts => .ok (a, ts)
  bind r f := fun ts =>
    match r ts with
    | .ok (a, rest) => f a rest
    | .error e => .error e

def fail (e : Error) : Reader α := fun _ => .error e

@[simp] theorem pure_apply (a : α) (ts : List Token) : (pure a : Reader α) ts = .ok (a, ts) := rfl

theorem bind_apply (r : Reader α) (f : α → Reader β) (ts : List Token) :
    (r >>= f) ts = match r ts with
      | .ok (a, rest) => f a rest
      | .error e => .error e := rfl

theorem bind_ok {r : Reader α} {f : α → Reader β} {ts rest : List Token} {a : α}
    (h : r ts = .ok (a, rest)) : (r >>= f) ts = f a rest := by
  simp [bind_apply, h]

def ofOption : Option α → Reader α
  | some a => pure a
  | none => fail .malformed

/-- Exactly this token. -/
def expect (t : Token) : Reader PUnit
  | [] => .error .malformed
  | u :: ts => if u = t then .ok (⟨⟩, ts) else .error .malformed

def text : Reader String
  | .text s :: ts => .ok (s, ts)
  | _ => .error .malformed

/-- A natural number below a bound. -/
def below (bound : Nat) : Reader { n : Nat // n < bound }
  | .natural n :: ts => if h : n < bound then .ok (⟨n, h⟩, ts) else .error .malformed
  | _ => .error .malformed

def word : Reader UInt64 := do
  let n ← below 0x10000000000000000
  pure (UInt64.ofNatLT n.val n.property)

/-- Elements up to the closing bracket, at least one. -/
def elements (r : Reader α) : (fuel : Nat) → Reader (List α)
  | 0 => fail .malformed
  | fuel + 1 => fun ts =>
    match r ts with
    | .ok (a, .comma :: rest) => (elements r fuel rest).map fun (as, rest) => (a :: as, rest)
    | .ok (a, .closeArray :: rest) => .ok ([a], rest)
    | .ok _ => .error .malformed
    | .error e => .error e

def list (r : Reader α) : Reader (List α)
  | .openArray :: .closeArray :: ts => .ok ([], ts)
  | .openArray :: ts => elements r ts.length ts
  | _ => .error .malformed

/-- Fields up to the closing brace, at least one; each turns a state into the next. -/
def members (step : σ → String → Reader σ) : (fuel : Nat) → σ → Reader σ
  | 0, _ => fail .malformed
  | fuel + 1, state => fun ts =>
    match ts with
    | .text name :: .colon :: ts =>
      match step state name ts with
      | .ok (state, .comma :: rest) => members step fuel state rest
      | .ok (state, .closeObject :: rest) => .ok (state, rest)
      | .ok _ => .error .malformed
      | .error e => .error e
    | _ => .error .malformed

/-- The fields of an object, in order and with repetitions. -/
def entries (r : Reader α) : Reader (List (String × α))
  | .openObject :: .closeObject :: ts => .ok ([], ts)
  | .openObject :: ts =>
    (members (fun done name => do
      let a ← r
      pure ((name, a) :: done)) ts.length [] ts).map fun (done, rest) => (done.reverse, rest)
  | _ => .error .malformed

mutual

/-- Skips one value of any kind. -/
def skipValue : (fuel : Nat) → List Token → Option (List Token)
  | 0, _ => none
  | fuel + 1, ts =>
    match ts with
    | .text _ :: ts | .natural _ :: ts | .boolean _ :: ts | .null :: ts => some ts
    | .foreign .number :: ts | .foreign .brokenText :: ts => some ts
    | .openArray :: .closeArray :: ts | .openObject :: .closeObject :: ts => some ts
    | .openArray :: ts => skipElements fuel ts
    | .openObject :: ts => skipFields fuel ts
    | _ => none

def skipElements : (fuel : Nat) → List Token → Option (List Token)
  | 0, _ => none
  | fuel + 1, ts =>
    match skipValue fuel ts with
    | some (.comma :: ts) => skipElements fuel ts
    | some (.closeArray :: ts) => some ts
    | _ => none

def skipFields : (fuel : Nat) → List Token → Option (List Token)
  | 0, _ => none
  | fuel + 1, ts =>
    match ts with
    | .text _ :: .colon :: ts | .foreign .brokenText :: .colon :: ts =>
      match skipValue fuel ts with
      | some (.comma :: ts) => skipFields fuel ts
      | some (.closeObject :: ts) => some ts
      | _ => none
    | _ => none

end

def skip : Reader PUnit := fun ts =>
  match skipValue (2 * ts.length) ts with
  | some rest => .ok (⟨⟩, rest)
  | none => .error .malformed

/-- A named part of a record that is put together in a state of type `σ`. -/
structure Field (σ : Type) where
  name : String
  /-- Whether the state has the field already. -/
  seen : σ → Bool
  read : σ → Reader σ

/-- A field for a part that is absent at first. -/
def Field.of (name : String) (get : σ → Option α) (set : σ → α → σ) (r : Reader α) : Field σ where
  name
  seen state := (get state).isSome
  read state := do
    let a ← r
    pure (set state a)

/-- One field of an object: a known one at most once, an unknown one is skipped. -/
def member (fields : List (Field σ)) (state : σ) (name : String) : Reader σ :=
  match fields.find? (·.name = name) with
  | some f => if f.seen state then fail .malformed else f.read state
  | none => do
    skip
    pure state

/-- Fields by position, up to the closing bracket. -/
def positional : List (Field σ) → σ → Reader σ
  | [], _ => fail .malformed
  | f :: fields, state => fun ts =>
    match f.read state ts with
    | .ok (state, .comma :: rest) => positional fields state rest
    | .ok (state, .closeArray :: rest) => .ok (state, rest)
    | .ok _ => .error .malformed
    | .error e => .error e

/-- A record is an object with its fields by name, or an array with its fields in order. -/
def fields (fields : List (Field σ)) (start : σ) : Reader σ
  | .openObject :: .closeObject :: ts | .openArray :: .closeArray :: ts => .ok (start, ts)
  | .openObject :: ts => members (member fields) ts.length start ts
  | .openArray :: ts => positional fields start ts
  | _ => .error .malformed

def record (known : List (Field σ)) (start : σ) (build : σ → Option α) : Reader α := do
  let state ← fields known start
  ofOption (build state)

end Reader

/-- A JSON form for the values of a type, and a reader for it. -/
class Format (α : Type) where
  tokens : α → List Token
  read : Reader α

/-- The value's text without any blanks. -/
def write {α : Type} [Format α] (a : α) : String :=
  compact (Format.tokens a)

/-- Reads a text that holds one value and nothing else. -/
def decodeWith {α : Type} (r : Reader α) (s : String) : Except Error α :=
  match r (scan s) with
  | .ok (a, []) => .ok a
  | .ok _ => .error .malformed
  | .error e => .error e

def decode {α : Type} [Format α] (s : String) : Except Error α :=
  decodeWith Format.read s

variable {α : Type}

instance : Format String where
  tokens s := [.text s]
  read := Reader.text

instance : Format UInt64 where
  tokens n := [.natural n.toNat]
  read := Reader.word

instance [Format α] : Format (List α) where
  tokens as := array (as.map Format.tokens)
  read := Reader.list Format.read

/-- An absent value is null. -/
def optional [Format α] : Option α → List Token
  | some a => Format.tokens a
  | none => [.null]

end BuildDelta.Json
