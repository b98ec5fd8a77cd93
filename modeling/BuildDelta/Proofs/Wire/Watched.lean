import BuildDelta.Wire.Text
import Mathlib.Algebra.GroupWithZero.Nat
/-!
# Results with a log

What a reader does on the way to its result is a list of acts, the first one first: it makes a buffer, it
looks at bytes, it puts a value in its place. Of a log it matters how many bytes were looked at, how many
values were built and how long the buffers were, and all of these add up along `++`.

A program that there is no memory for ends where it asks for it, so only the last act can be the buffer of
a text that is not there (`Watched.EndsForText`). This holds of a run whose steps have it.
-/

namespace BuildDelta.Wire

/-- The parts of a state file in which bytes are looked at. -/
inductive Part where
  | frame
  | header
  | payload
deriving DecidableEq

inductive Act where
  /-- Makes a buffer for a text of this length. -/
  | buffer (length : Nat)
  /-- Looks at `length` bytes, of which the first is at `start`. -/
  | look (part : Part) (start length : Nat)
  /-- Puts a value into a list or under a key. -/
  | build
deriving DecidableEq

namespace Act

/-- The bytes of a part that an act looks at. -/
def seen (part : Part) : Act → Nat
  | look part' _ length => if part' = part then length else 0
  | buffer _ => 0
  | build => 0

/-- The length of the buffer that an act makes. -/
def made : Act → Nat
  | buffer length => length
  | look .. => 0
  | build => 0

end Act

section Past

variable (part : Part) (act : Act) (past next : List Act)

/-- The bytes of a part that have been looked at. -/
def seen : Nat := (past.map (Act.seen part)).sum

/-- The values that have been put in their places. -/
def builds : Nat := past.count .build

/-- The length of all buffers that have been made. -/
def buffered : Nat := (past.map Act.made).sum

@[simp] theorem seen_nil : seen part [] = 0 := rfl

@[simp] theorem seen_cons : seen part (act :: past) = act.seen part + seen part past := rfl

@[simp] theorem seen_append : seen part (past ++ next) = seen part past + seen part next := by
  simp [seen]

theorem seen_eq_zero {part : Part} {past : List Act} (h : ∀ act ∈ past, act.seen part = 0) :
    seen part past = 0 := by
  apply List.sum_eq_zero_iff_forall_eq_nat.2
  intro n hn
  obtain ⟨act, hact, rfl⟩ := List.mem_map.1 hn
  exact h act hact

@[simp] theorem builds_append : builds (past ++ next) = builds past + builds next :=
  List.count_append

@[simp] theorem buffered_nil : buffered [] = 0 := rfl

@[simp] theorem buffered_cons : buffered (act :: past) = act.made + buffered past := rfl

@[simp] theorem buffered_append : buffered (past ++ next) = buffered past + buffered next := by
  simp [buffered]

theorem buffered_dropLast_le : buffered past.dropLast ≤ buffered past := by
  induction past with
  | nil => exact Nat.le_refl 0
  | cons act past ih =>
    cases past with
    | nil => exact Nat.zero_le _
    | cons act' past =>
      rw [List.dropLast_cons_cons, buffered_cons, buffered_cons act]
      exact Nat.add_le_add_left ih _

/-- What is not done with the last act was done before. -/
theorem buffered_dropLast_eq (h : ∀ length, past.getLast? ≠ some (.buffer length)) :
    buffered past.dropLast = buffered past := by
  cases hlast : past.getLast? with
  | none => rw [List.getLast?_eq_none_iff.1 hlast, List.dropLast_nil]
  | some act =>
    obtain ⟨earlier, rfl⟩ := List.getLast?_eq_some_iff.1 hlast
    have hmade : act.made = 0 := by
      cases act with
      | buffer length => exact absurd hlast (h length)
      | look => rfl
      | build => rfl
    rw [List.dropLast_concat, buffered_append, buffered_cons, hmade]
    rfl

theorem buffered_dropLast_append_le :
    buffered (past ++ next).dropLast ≤ buffered past + buffered next.dropLast := by
  by_cases hnext : next = []
  · rw [hnext, List.append_nil]
    exact buffered_dropLast_le past
  · have hsplit : (past ++ next).dropLast = past ++ next.dropLast :=
      List.dropLast_append_of_ne_nil hnext
    exact Nat.le_of_eq (by rw [hsplit, buffered_append])

end Past

/-- A result, and all that was done on the way to it. -/
structure Watched (ε α : Type) where
  log : List Act
  result : Except ε α

namespace Watched

variable {ε ε' α β : Type}

instance : Monad (Watched ε) where
  pure a := ⟨[], .ok a⟩
  bind w f :=
    match w.result with
    | .ok a => ⟨w.log ++ (f a).log, (f a).result⟩
    | .error e => ⟨w.log, .error e⟩

def fail (e : ε) : Watched ε α := ⟨[], .error e⟩

def refuseIf (c : Prop) [Decidable c] (e : ε) : Watched ε Unit := if c then fail e else pure ()

/-- Something else was done before. -/
def after (w : Watched ε α) (acts : List Act) : Watched ε α := ⟨acts ++ w.log, w.result⟩

def mapError (f : ε → ε') (w : Watched ε α) : Watched ε' α := ⟨w.log, w.result.mapError f⟩

theorem refuseIf_bind {c : Prop} {_ : Decidable c} (h : ¬c) (e : ε) (next : Unit → Watched ε α) :
    refuseIf c e >>= next = next () := by
  rw [refuseIf, if_neg h]
  rfl

theorem bind_ok {w : Watched ε α} {a : α} (h : w.result = .ok a) (f : α → Watched ε β) :
    w >>= f = ⟨w.log ++ (f a).log, (f a).result⟩ := by
  show (match w.result with
    | .ok a => (⟨w.log ++ (f a).log, (f a).result⟩ : Watched ε β)
    | .error e => ⟨w.log, .error e⟩) = _
  rw [h]

theorem bind_error {w : Watched ε α} {e : ε} (h : w.result = .error e) (f : α → Watched ε β) :
    w >>= f = ⟨w.log, .error e⟩ := by
  show (match w.result with
    | .ok a => (⟨w.log ++ (f a).log, (f a).result⟩ : Watched ε β)
    | .error e => ⟨w.log, .error e⟩) = _
  rw [h]

theorem result_mapError (f : ε → ε') (w : Watched ε α) :
    (w.mapError f).result = w.result.mapError f := rfl

theorem result_bind (w : Watched ε α) (f : α → Watched ε β) :
    (w >>= f).result = w.result >>= fun a => (f a).result := by
  cases h : w.result with
  | ok a => rw [bind_ok h]; rfl
  | error e => rw [bind_error h]; rfl

theorem log_bind_pure (w : Watched ε α) (f : α → β) : (w >>= fun a => pure (f a)).log = w.log := by
  cases h : w.result with
  | ok a =>
    rw [bind_ok h]
    exact List.append_nil w.log
  | error e => rw [bind_error h]

/-- The last act is a buffer if a text of that length is not there, and only then. -/
def EndsForText (missingText? : ε → Option Nat) (w : Watched ε α) : Prop :=
  ∀ length, w.log.getLast? = some (.buffer length) ↔
    ∃ e, w.result = .error e ∧ missingText? e = some length

section EndsForText

variable {missingText? : ε → Option Nat} {w : Watched ε α}

theorem endsForText_ok (a : α) : (⟨[], .ok a⟩ : Watched ε α).EndsForText missingText? :=
  fun _ => ⟨nofun, nofun⟩

theorem endsForText_fail {e : ε} (h : missingText? e = none) :
    (fail e : Watched ε α).EndsForText missingText? := by
  refine fun length => ⟨nofun, ?_⟩
  rintro ⟨_, ⟨⟩, hlength⟩
  cases h.symm.trans hlength

theorem EndsForText.getLast?_ne {a : α} (h : w.EndsForText missingText?) (hw : w.result = .ok a)
    (length : Nat) : w.log.getLast? ≠ some (.buffer length) := by
  intro hlast
  obtain ⟨e, he, -⟩ := (h length).1 hlast
  cases hw.symm.trans he

/-- What goes on behind an act that is no buffer. -/
theorem EndsForText.of_append {log : List Act} (h : w.EndsForText missingText?)
    (hlog : ∀ length, log.getLast? ≠ some (.buffer length)) :
    (w.after log).EndsForText missingText? := by
  intro length
  refine Iff.trans ?_ (h length)
  show (log ++ w.log).getLast? = _ ↔ _
  rw [List.getLast?_append]
  cases w.log.getLast? with
  | none =>
    rw [Option.none_or]
    exact ⟨fun heq => absurd heq (hlog length), nofun⟩
  | some act => rw [Option.some_or]

theorem EndsForText.bind {f : α → Watched ε β} (h : w.EndsForText missingText?)
    (hf : ∀ a, w.result = .ok a → (f a).EndsForText missingText?) :
    (w >>= f).EndsForText missingText? := by
  cases hw : w.result with
  | error e =>
    intro length
    have hlength := h length
    simp only [hw, Except.error.injEq] at hlength
    simp only [bind_error hw, Except.error.injEq]
    exact hlength
  | ok a =>
    rw [bind_ok hw]
    exact (hf a hw).of_append (h.getLast?_ne hw)

theorem EndsForText.mapError {missingText?' : ε' → Option Nat} {f : ε → ε'}
    (h : w.EndsForText missingText?) (hf : ∀ e, missingText?' (f e) = missingText? e) :
    (w.mapError f).EndsForText missingText?' := by
  intro length
  refine (h length).trans ?_
  show _ ↔ ∃ e', w.result.mapError f = .error e' ∧ _
  cases w.result with
  | ok a => exact ⟨nofun, nofun⟩
  | error e =>
    constructor
    · rintro ⟨_, ⟨⟩, hlength⟩
      exact ⟨f e, rfl, (hf e).trans hlength⟩
    · rintro ⟨_, ⟨⟩, hlength⟩
      exact ⟨e, rfl, (hf e).symm.trans hlength⟩

end EndsForText

end Watched

end BuildDelta.Wire
