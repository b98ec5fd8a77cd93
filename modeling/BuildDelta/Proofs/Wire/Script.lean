import BuildDelta.Proofs.Wire.Watched
/-!
# Readers spelled out

A reader is a function, and a function cannot be asked what it did on the way to its result. A script
spells a reader out: it takes bytes, it puts values into lists and under keys, and it ends. Running a
script gives a reader, and watching it gives the same result with a log of all that was done.

Four things are said here of every script. It looks at nothing but the bytes that it is given
(`Script.inside`). What stands behind the bytes it takes has no part in its result, nor in its log
(`Script.exists_used`). The buffers that it makes are for texts that are there, but for one with which it
ends (`Script.endsForText`, `Script.buffered_le_seen`). And if the bytes it takes pay for its acts, which can
be told from the script alone (`Script.Affords`), then at no point of a run has it done more than these
bytes paid for (`Script.Affords.cost_le`), whatever numbers it read.
-/

namespace BuildDelta.Wire

inductive Script (α : Type) where
  | done (a : α)
  /-- Fails, for a reason that may depend on how many bytes are left, but is no text that is not there. -/
  | refuse (why : Nat → Error) (h : ∀ left, (why left).missingText? = none)
  /-- Takes this many bytes, of a text or not, and goes on with them. -/
  | take (text : Bool) (n : Nat) (next : Bytes → Script α)
  | build (next : Script α)

namespace Script

variable {α β : Type}

def bind : Script α → (α → Script β) → Script β
  | done a, f => f a
  | refuse why h, _ => refuse why h
  | take text n next, f => take text n fun bs => (next bs).bind f
  | build next, f => build (next.bind f)

instance : Monad Script where
  pure := done
  bind := bind

/-- What is said when bytes are not there. -/
def short (text : Bool) (n : Nat) : Nat → Error := if text then .shortText n else .unexpectedEnd

/-- What is done before bytes are looked for. -/
def room (text : Bool) (n : Nat) : List Act := if text then [.buffer n] else []

/-- The reader that a script spells out. -/
def run : Script α → Reader α
  | done a => pure a
  | refuse why _ => fun bs => .error (why bs.length)
  | take text n next => Reader.take n (short text n) >>= fun bs => (next bs).run
  | build next => next.run

/-- Runs a script over bytes of which the first is at `start`, and logs what it does. -/
def watch (part : Part) : Script α → (start : Nat) → Bytes → Watched Error (α × Bytes)
  | done a, _, bs => pure (a, bs)
  | refuse why _, _, bs => .fail (why bs.length)
  | take text n next, start, bs =>
    if n ≤ bs.length then
      ((next (bs.take n)).watch part (start + n) (bs.drop n)).after
        (room text n ++ [.look part start n])
    else (Watched.fail (short text n (n - bs.length))).after (room text n)
  | build next, start, bs => (next.watch part start bs).after [.build]

def bytes (n : Nat) : Script Bytes := take false n pure

/-- The bytes of a text. -/
def text (n : Nat) : Script Bytes := take true n pure

/-- Fails if a calculation did. -/
def ofExcept {ε : Type} (why : ε → Error) (h : ∀ e, (why e).missingText? = none) :
    Except ε α → Script α
  | .ok a => done a
  | .error e => refuse (fun _ => why e) fun _ => h e

/-- Puts what was read last in its place. -/
def built : Script Unit := build (done ())

/-- The same script `n` times over. -/
def times (s : Script α) : Nat → Script (List α)
  | 0 => pure []
  | n + 1 => do
    let a ← s
    built
    let as ← times s n
    pure (a :: as)

section Run

variable {s : Script α} {f : α → Script β} {next : Bytes → Script α} {part : Part} {text : Bool}
  {n start : Nat} {bs rest : Bytes} {a : α}

theorem seen_room (part : Part) (text : Bool) (n : Nat) : seen part (room text n) = 0 := by
  cases text <;> rfl

theorem run_take (h : n ≤ bs.length) :
    (take text n next).run bs = (next (bs.take n)).run (bs.drop n) := by
  rw [run, Reader.bind_apply, Reader.take, if_pos h]

theorem run_take_short (h : ¬n ≤ bs.length) :
    (take text n next).run bs = .error (short text n (n - bs.length)) := by
  rw [run, Reader.bind_apply, Reader.take, if_neg h]

theorem length_le_of_run_take (h : (take text n next).run bs = .ok (a, rest)) : n ≤ bs.length := by
  by_cases hn : n ≤ bs.length
  · exact hn
  · rw [run_take_short hn] at h
    cases h

theorem watch_take (h : n ≤ bs.length) : (take text n next).watch part start bs =
    ((next (bs.take n)).watch part (start + n) (bs.drop n)).after
      (room text n ++ [.look part start n]) := by
  rw [watch, if_pos h]

theorem watch_take_short (h : ¬n ≤ bs.length) : (take text n next).watch part start bs =
    (Watched.fail (short text n (n - bs.length))).after (room text n) := by
  rw [watch, if_neg h]

@[simp] theorem run_pure (a : α) : (pure a : Script α).run = pure a := rfl

@[simp] theorem run_built : built.run = pure () := rfl

theorem run_take_pure (text : Bool) (n : Nat) :
    (take text n pure).run = Reader.take n (short text n) := by
  funext bs
  show (Reader.take n (short text n) >>= fun taken => (pure taken : Reader Bytes)) bs = _
  rw [Reader.bind_apply]
  cases Reader.take n (short text n) bs <;> rfl

@[simp] theorem run_bytes (n : Nat) : (bytes n).run = Reader.take n := run_take_pure false n

@[simp] theorem run_text (n : Nat) : (Script.text n).run = Reader.take n (.shortText n) :=
  run_take_pure true n

@[simp] theorem run_bind (s : Script α) (f : α → Script β) :
    (s >>= f).run = s.run >>= fun a => (f a).run := by
  induction s with
  | done a => rfl
  | refuse why h => rfl
  | take text n next ih =>
    funext bs
    show (Reader.take n (short text n) >>= fun taken => (next taken >>= f).run) bs = _
    simp only [run, Reader.bind_apply, ih]
    cases Reader.take n (short text n) bs <;> rfl
  | build next ih => exact ih

theorem run_times (s : Script α) (n : Nat) : (s.times n).run = s.run.times n := by
  induction n with
  | zero => rfl
  | succ n ih =>
    show (s >>= fun a => built >>= fun _ => s.times n >>= fun as => pure (a :: as)).run = _
    simp only [run_bind, run_built, run_pure, ih]
    rfl

/-- What is seen of a script when it is watched is what it does when it is run. -/
@[simp] theorem result_watch (s : Script α) (part : Part) (start : Nat) (bs : Bytes) :
    (s.watch part start bs).result = s.run bs := by
  induction s generalizing start bs with
  | done a => rfl
  | refuse why h => rfl
  | take text n next ih =>
    by_cases hn : n ≤ bs.length
    · rw [watch_take hn, run_take hn]
      exact ih _ _ _
    · rw [watch_take_short hn, run_take_short hn]
      rfl
  | build next ih => exact ih _ _

/-- Scripts put one behind the other. -/
theorem watch_bind_ok (h : s.run bs = .ok (a, rest)) : (s >>= f).watch part start bs =
    ⟨(s.watch part start bs).log ++
        ((f a).watch part (start + seen part (s.watch part start bs).log) rest).log,
      (f a).run rest⟩ := by
  induction s generalizing start bs with
  | done b =>
    cases h
    rw [← result_watch (f _) part start]
    rfl
  | refuse why => cases h
  | take text n next ih =>
    have hn := length_le_of_run_take h
    rw [run_take hn] at h
    have hnext := @ih (bs.take n) (start + n) (bs.drop n) h
    show (take text n fun taken => next taken >>= f).watch part start bs = _
    rw [watch_take hn, hnext, watch_take hn]
    simp only [Watched.after, seen_append, seen_room, seen_cons, seen_nil, Act.seen, if_pos,
      List.append_assoc, Nat.zero_add, Nat.add_zero, Nat.add_assoc]
  | build next ih =>
    have hnext := @ih start bs h
    show ((next >>= f).watch part start bs).after [.build] = _
    rw [hnext, watch]
    simp only [Watched.after, seen_append, seen_cons, seen_nil, Act.seen, Nat.zero_add,
      List.append_assoc]

/-- The bytes that were taken are a beginning of those that are there, and whatever else followed them,
the same would have been done, with the same result. -/
theorem exists_used (part : Part) (start : Nat) (h : s.run bs = .ok (a, rest)) :
    ∃ used, bs = used ++ rest ∧ seen part (s.watch part start bs).log = used.length ∧
      ∀ more, s.watch part start (used ++ more) = ⟨(s.watch part start bs).log, .ok (a, more)⟩ := by
  induction s generalizing start bs with
  | done b =>
    cases h
    exact ⟨[], rfl, rfl, fun _ => rfl⟩
  | refuse why => cases h
  | take text n next ih =>
    have hn := length_le_of_run_take h
    rw [run_take hn] at h
    obtain ⟨used, hbs, hseen, hmore⟩ := ih (bs.take n) (start + n) h
    have hlength : (bs.take n).length = n := List.length_take_of_le hn
    refine ⟨bs.take n ++ used, ?_, ?_, fun more => ?_⟩
    · rw [List.append_assoc, ← hbs, List.take_append_drop]
    · rw [watch_take hn]
      simp only [Watched.after, seen_append, seen_room, seen_cons, seen_nil, Act.seen, if_pos, hseen,
        List.length_append, hlength, Nat.zero_add, Nat.add_zero]
    · have hn' : n ≤ (bs.take n ++ used ++ more).length := by
        simp only [List.length_append, hlength]
        omega
      rw [watch_take hn', List.append_assoc, List.take_left' hlength, List.drop_left' hlength,
        hmore, watch_take hn]
      rfl
  | build next ih =>
    obtain ⟨used, hbs, hseen, hmore⟩ := ih start h
    refine ⟨used, hbs, ?_, fun more => ?_⟩
    · simp only [watch, Watched.after, seen_append, seen_cons, seen_nil, Act.seen, hseen, Nat.zero_add]
    · simp only [watch, hmore]
      rfl

theorem not_look_mem_room {place length : Nat} : .look part place length ∉ room text n := by
  cases text with
  | false => exact List.not_mem_nil
  | true => exact List.not_mem_cons_of_ne_of_not_mem nofun List.not_mem_nil

/-- All that is looked at is there, and in no other part. -/
theorem inside {part' : Part} {place length : Nat}
    (h : .look part' place length ∈ (s.watch part start bs).log) :
    part' = part ∧ start ≤ place ∧ place + length ≤ start + bs.length := by
  induction s generalizing start bs with
  | done b => exact absurd h List.not_mem_nil
  | refuse why => exact absurd h List.not_mem_nil
  | take text n next ih =>
    by_cases hn : n ≤ bs.length
    · rw [watch_take hn] at h
      obtain hfirst | hnext := List.mem_append.1 h
      · obtain hroom | hlook := List.mem_append.1 hfirst
        · exact absurd hroom not_look_mem_room
        · cases List.mem_singleton.1 hlook
          exact ⟨rfl, Nat.le_refl _, Nat.add_le_add_left hn _⟩
      · obtain ⟨hpart, hplace, hend⟩ := ih _ hnext
        rw [List.length_drop] at hend
        exact ⟨hpart, by omega, by omega⟩
    · rw [watch_take_short hn] at h
      obtain hroom | hnone := List.mem_append.1 h
      · exact absurd hroom not_look_mem_room
      · exact absurd hnone List.not_mem_nil
  | build next ih =>
    obtain hbuild | hnext := List.mem_cons.1 h
    · cases hbuild
    · exact ih hnext

/-- No other part is looked at. -/
theorem seen_eq_zero_of_ne {part' : Part} (h : part ≠ part') (s : Script α) (start : Nat)
    (bs : Bytes) : seen part' (s.watch part start bs).log = 0 := by
  apply seen_eq_zero
  intro act hact
  cases act with
  | look part'' => exact if_neg ((inside hact).1.trans_ne h)
  | buffer => rfl
  | build => rfl

/-- No byte is looked at twice. -/
theorem seen_le (s : Script α) (part : Part) (start : Nat) (bs : Bytes) :
    seen part (s.watch part start bs).log ≤ bs.length := by
  induction s generalizing start bs with
  | done b => exact Nat.zero_le _
  | refuse why => exact Nat.zero_le _
  | take text n next ih =>
    by_cases hn : n ≤ bs.length
    · have hnext := ih (bs.take n) (start + n) (bs.drop n)
      rw [List.length_drop] at hnext
      rw [watch_take hn]
      simp only [Watched.after, seen_append, seen_room, seen_cons, seen_nil, Act.seen, if_pos]
      omega
    · rw [watch_take_short hn]
      simp only [Watched.after, seen_append, seen_room]
      exact Nat.zero_le _
  | build next ih =>
    simp only [watch, Watched.after, seen_append, seen_cons, seen_nil, Act.seen, Nat.zero_add]
    exact ih start bs

/-- Of no bytes, none is looked at. -/
theorem seen_of_nil (s : Script α) (part' : Part) : seen part' (s.watch part start []).log = 0 := by
  by_cases h : part = part'
  · subst h
    exact Nat.le_zero.1 (s.seen_le part start [])
  · exact seen_eq_zero_of_ne h s start []

/-- When a buffer is the last that is made, the text for it is not there. -/
theorem endsForText (s : Script α) (part : Part) (start : Nat) (bs : Bytes) :
    (s.watch part start bs).EndsForText Error.missingText? := by
  induction s generalizing start bs with
  | done b => exact Watched.endsForText_ok _
  | refuse why h => exact Watched.endsForText_fail (h _)
  | take text n next ih =>
    by_cases hn : n ≤ bs.length
    · rw [watch_take hn]
      apply (ih _ _ _).of_append
      intro length
      rw [List.getLast?_concat]
      exact nofun
    · rw [watch_take_short hn]
      cases text with
      | false => exact Watched.endsForText_fail rfl
      | true =>
        intro length
        constructor
        · rintro ⟨⟩
          exact ⟨_, rfl, rfl⟩
        · rintro ⟨_, ⟨⟩, ⟨⟩⟩
          rfl
  | build next ih =>
    apply (ih start bs).of_append
    exact nofun

/-- All other buffers are for bytes that are looked at. -/
theorem buffered_le_seen (s : Script α) (part : Part) (start : Nat) (bs : Bytes) :
    buffered (s.watch part start bs).log.dropLast ≤ seen part (s.watch part start bs).log := by
  induction s generalizing start bs with
  | done b => exact Nat.le_refl 0
  | refuse why => exact Nat.le_refl 0
  | take text n next ih =>
    by_cases hn : n ≤ bs.length
    · have hnext := ih (bs.take n) (start + n) (bs.drop n)
      have hroom : buffered (room text n) ≤ n := by
        cases text with
        | false => exact Nat.zero_le n
        | true => exact Nat.le_refl n
      rw [watch_take hn]
      apply Nat.le_trans (buffered_dropLast_append_le _ _)
      simp only [Watched.after, seen_append, seen_room, seen_cons, seen_nil, Act.seen, if_pos,
        buffered_append, buffered_cons, buffered_nil, Act.made]
      omega
    · rw [watch_take_short hn]
      cases text <;> exact Nat.le_refl 0
  | build next ih =>
    have hnext := ih start bs
    apply Nat.le_trans (buffered_dropLast_append_le _ _)
    simp only [watch, Watched.after, seen_append, seen_cons, seen_nil, Act.seen, buffered_cons,
      buffered_nil, Act.made]
    omega

/-- What is taken off does not depend on what stands behind it. -/
theorem exists_taken (h : s.run bs = .ok (a, rest)) :
    ∃ used, bs = used ++ rest ∧ ∀ more, s.run (used ++ more) = .ok (a, more) := by
  obtain ⟨used, hbs, -, hmore⟩ := exists_used .payload 0 h
  refine ⟨used, hbs, fun more => ?_⟩
  rw [← result_watch s .payload 0, hmore]

/-- What is taken whole is refused when it is cut. -/
theorem exists_error_of_cut {cut more : Bytes} (h : s.run (cut ++ more) = .ok (a, []))
    (hmore : more ≠ []) : ∃ e, s.run cut = .error e := by
  cases hcut : s.run cut with
  | error e => exact ⟨e, rfl⟩
  | ok p =>
    obtain ⟨b, rest⟩ := p
    obtain ⟨used, rfl, hused⟩ := exists_taken hcut
    rw [List.append_assoc, hused] at h
    have hrest : rest ++ more = [] := congrArg Prod.snd (Except.ok.inj h)
    exact absurd (List.append_eq_nil_iff.1 hrest).2 hmore

/-- Bytes that are cut off a value that is there leave no text that is longer than they all were. -/
theorem length_le_of_missingText {cut more : Bytes} {e : Error} {length : Nat}
    (h : s.run (cut ++ more) = .ok (a, rest)) (hcut : s.run cut = .error e)
    (hlength : e.missingText? = some length) : length ≤ (cut ++ more).length := by
  induction s generalizing cut with
  | done b => cases hcut
  | refuse why => cases h
  | take text n next ih =>
    have hn := length_le_of_run_take h
    by_cases hn' : n ≤ cut.length
    · rw [run_take hn, List.take_append_of_le_length hn', List.drop_append_of_le_length hn'] at h
      rw [run_take hn'] at hcut
      have hnext := ih _ h hcut
      simp only [List.length_append, List.length_drop] at hnext ⊢
      omega
    · rw [run_take_short hn'] at hcut
      cases hcut
      cases text with
      | false => cases hlength
      | true =>
        cases hlength
        exact hn
  | build next ih => exact ih h hcut

end Run

end Script

/-- What a byte earns, once it is taken, and what a look or a buffer costs. Putting a value in its place
costs 1, and a byte must earn that, a buffer and two looks. -/
structure Tariff where
  perByte : Nat
  perLook : Nat
  fair : 1 + 3 * perLook ≤ perByte

namespace Tariff

/-- Counts the values that are put in their places. -/
def forBuilds : Tariff := ⟨1, 0, by decide⟩

/-- Counts all acts. -/
def forActs : Tariff := ⟨4, 1, by decide⟩

def price (t : Tariff) : Act → Nat
  | .buffer _ => t.perLook
  | .look .. => t.perLook
  | .build => 1

def cost (t : Tariff) (past : List Act) : Nat := (past.map t.price).sum

@[simp] theorem cost_cons (t : Tariff) (act : Act) (past : List Act) :
    t.cost (act :: past) = t.price act + t.cost past := rfl

theorem cost_append (t : Tariff) (past next : List Act) :
    t.cost (past ++ next) = t.cost past + t.cost next := by
  simp [cost]

theorem cost_le_of_prefix (t : Tariff) {past all : List Act} (h : past <+: all) :
    t.cost past ≤ t.cost all := by
  obtain ⟨next, rfl⟩ := h
  rw [cost_append]
  exact Nat.le_add_right _ _

theorem cost_forBuilds (past : List Act) : forBuilds.cost past = builds past := by
  induction past with
  | nil => rfl
  | cons act past ih =>
    rw [cost_cons, ih, builds, builds, List.count_cons]
    cases act with
    | buffer => exact Nat.zero_add _
    | look => exact Nat.zero_add _
    | build => exact Nat.add_comm 1 _

theorem cost_forActs (past : List Act) : forActs.cost past = past.length := by
  induction past with
  | nil => rfl
  | cons act past ih =>
    rw [cost_cons, ih, List.length_cons]
    cases act <;> exact Nat.add_comm 1 _

end Tariff

namespace Script

variable {α β : Type}

/-- The credit there is at the start and the bytes that are taken pay for each act when it is done, and
this much is left in the end. -/
def Affords (t : Tariff) (left : α → Nat) : Script α → (credit : Nat) → Prop
  | done a, credit => left a ≤ credit
  | refuse .., _ => True
  | take text n next, credit => ∃ kept, credit = t.cost (room text n) + kept ∧
    ∀ bs, bs.length = n → ∃ credit', kept + t.perByte * n = t.perLook + credit' ∧
      (next bs).Affords t left credit'
  | build next, credit => ∃ credit', credit = 1 + credit' ∧ next.Affords t left credit'

/-- A script that puts no value in a place. -/
inductive Quiet : Script α → Prop
  | done (a : α) : Quiet (done a)
  | refuse (why : Nat → Error) (h : ∀ left, (why left).missingText? = none) : Quiet (refuse why h)
  | take (text : Bool) (n : Nat) {next : Bytes → Script α} (h : ∀ bs, Quiet (next bs)) :
    Quiet (take text n next)

variable {t : Tariff} {left left' : α → Nat} {s : Script α} {credit : Nat} {part : Part} {start : Nat}
  {bs rest : Bytes} {a : α}

theorem Quiet.bind {f : α → Script β} (hs : s.Quiet) (hf : ∀ a, (f a).Quiet) : (s >>= f).Quiet := by
  induction hs with
  | done a => exact hf a
  | refuse why h => exact .refuse why h
  | take text n _ ih => exact .take text n ih

theorem quiet_bytes (n : Nat) : (bytes n).Quiet := .take false n fun bs => .done bs

theorem quiet_textBytes (n : Nat) : (text n).Quiet := .take true n fun bs => .done bs

theorem Quiet.build_notMem (hs : s.Quiet) : .build ∉ (s.watch part start bs).log := by
  induction hs generalizing start bs with
  | done a => exact List.not_mem_nil
  | refuse why => exact List.not_mem_nil
  | take text n _ ih =>
    have hroom : .build ∉ room text n := by
      cases text with
      | false => exact List.not_mem_nil
      | true => exact List.not_mem_cons_of_ne_of_not_mem nofun List.not_mem_nil
    rw [watch]
    split
    · simp only [Watched.after, List.mem_append, List.mem_singleton, not_or]
      exact ⟨⟨hroom, nofun⟩, ih _⟩
    · simp only [Watched.after, List.mem_append, not_or]
      exact ⟨hroom, List.not_mem_nil⟩

theorem affords_pure (h : left a ≤ credit) : (pure a : Script α).Affords t left credit := h

theorem affords_refuse (why : Nat → Error) (h : ∀ left, (why left).missingText? = none) :
    (refuse why h : Script α).Affords t left credit := trivial

theorem affords_built : built.Affords t (fun _ => credit) (1 + credit) :=
  ⟨credit, rfl, Nat.le_refl credit⟩

theorem affords_take (text : Bool) {left : Bytes → Nat} {n : Nat}
    (h : ∀ bs, bs.length = n → t.perLook + left bs ≤ credit + t.perByte * n) :
    (take text n pure).Affords t left (t.cost (room text n) + credit) := by
  refine ⟨credit, rfl, fun bs hbs => ?_⟩
  obtain ⟨extra, hextra⟩ := Nat.exists_eq_add_of_le (h bs hbs)
  exact ⟨left bs + extra, by omega, Nat.le_add_right _ _⟩

theorem affords_bytes {left : Bytes → Nat} {n : Nat}
    (h : ∀ bs, bs.length = n → t.perLook + left bs ≤ credit + t.perByte * n) :
    (bytes n).Affords t left credit := by
  have htake := affords_take false h
  rwa [show t.cost (room false n) = 0 from rfl, Nat.zero_add] at htake

/-- The buffer is paid for before any byte is there. -/
theorem affords_text {left : Bytes → Nat} {n : Nat}
    (h : ∀ bs, bs.length = n → t.perLook + left bs ≤ credit + t.perByte * n) :
    (text n).Affords t left (t.perLook + credit) := affords_take true h

theorem Affords.weaken (h : s.Affords t left credit) (hleft : ∀ a, left' a ≤ left a) :
    s.Affords t left' credit := by
  induction s generalizing credit with
  | done a => exact Nat.le_trans (hleft a) h
  | refuse why => trivial
  | take text n next ih =>
    obtain ⟨kept, hroom, h⟩ := h
    refine ⟨kept, hroom, fun bs hbs => ?_⟩
    obtain ⟨credit', hpaid, hnext⟩ := h bs hbs
    exact ⟨credit', hpaid, ih bs hnext⟩
  | build next ih =>
    obtain ⟨credit', hpaid, hnext⟩ := h
    exact ⟨credit', hpaid, ih hnext⟩

/-- What was there before need not be touched. -/
theorem Affords.frame (h : s.Affords t left credit) (before : Nat) :
    s.Affords t (fun a => before + left a) (before + credit) := by
  induction s generalizing credit with
  | done a => exact Nat.add_le_add_left h before
  | refuse why => trivial
  | take text n next ih =>
    obtain ⟨kept, hroom, h⟩ := h
    refine ⟨before + kept, by omega, fun bs hbs => ?_⟩
    obtain ⟨credit', hpaid, hnext⟩ := h bs hbs
    exact ⟨before + credit', by omega, ih bs hnext⟩
  | build next ih =>
    obtain ⟨credit', hpaid, hnext⟩ := h
    exact ⟨before + credit', by omega, ih hnext⟩

theorem Affords.mono {credit' : Nat} (h : s.Affords t left credit) (hcredit : credit ≤ credit') :
    s.Affords t left credit' := by
  obtain ⟨extra, rfl⟩ := Nat.exists_eq_add_of_le' hcredit
  exact (h.frame extra).weaken fun a => Nat.le_add_left _ _

theorem Affords.bind {f : α → Script β} {left' : β → Nat} (h : s.Affords t left credit)
    (hf : ∀ a, (f a).Affords t left' (left a)) : (s >>= f).Affords t left' credit := by
  induction s generalizing credit with
  | done a => exact (hf a).mono h
  | refuse why => trivial
  | take text n next ih =>
    obtain ⟨kept, hroom, h⟩ := h
    refine ⟨kept, hroom, fun bs hbs => ?_⟩
    obtain ⟨credit', hpaid, hnext⟩ := h bs hbs
    exact ⟨credit', hpaid, ih bs hnext⟩
  | build next ih =>
    obtain ⟨credit', hpaid, hnext⟩ := h
    exact ⟨credit', hpaid, ih hnext⟩

/-- Values whose scripts leave what putting them in their places costs can be read as often as anything
asks for. -/
theorem Affords.times (h : s.Affords t (fun a => 1 + left a) 0) (n : Nat) :
    (s.times n).Affords t (fun as => (as.map left).sum) 0 := by
  induction n with
  | zero => exact affords_pure (Nat.le_refl 0)
  | succ n ih =>
    apply h.bind
    intro a
    apply affords_built.bind
    intro _
    apply (ih.frame (left a)).bind
    intro as
    exact affords_pure (Nat.le_refl _)

/-- A point of a run is in front of the bytes that are taken first, or behind the room for them. -/
theorem prefix_after {past front back : List Act} {act : Act} (h : past <+: front ++ [act] ++ back) :
    past <+: front ∨ ∃ past', past = front ++ past' ∧ past' <+: act :: back := by
  rw [List.append_assoc] at h
  obtain hfront | ⟨past', rfl⟩ :=
    List.prefix_or_prefix_of_prefix h (List.prefix_append front _)
  · exact .inl hfront
  · exact .inr ⟨past', rfl, (List.prefix_append_right_inj front).1 h⟩

/-- At every point of a run, what has been done was paid for by the bytes that had been taken. -/
theorem Affords.cost_le (h : s.Affords t left credit) {past : List Act}
    (hpast : past <+: (s.watch part start bs).log) :
    t.cost past ≤ credit + t.perByte * seen part past := by
  induction s generalizing credit start bs past with
  | done a =>
    obtain rfl := List.prefix_nil.1 hpast
    exact Nat.zero_le _
  | refuse why =>
    obtain rfl := List.prefix_nil.1 hpast
    exact Nat.zero_le _
  | take text n next ih =>
    obtain ⟨kept, rfl, h⟩ := h
    by_cases hn : n ≤ bs.length
    · rw [watch_take hn] at hpast
      obtain hroom | ⟨past, rfl, hlook⟩ := prefix_after hpast
      · exact Nat.le_trans (t.cost_le_of_prefix hroom) (Nat.le_trans (Nat.le_add_right _ _)
          (Nat.le_add_right _ _))
      obtain rfl | ⟨past, rfl, hrest⟩ := List.prefix_cons_iff.1 hlook
      · simp only [List.append_nil, seen_room]
        omega
      · obtain ⟨credit', hpaid, hnext⟩ := h _ (List.length_take_of_le hn)
        have hcost := ih _ hnext hrest
        simp only [Tariff.cost_append, Tariff.cost_cons, Tariff.price, seen_append, seen_room,
          seen_cons, Act.seen, if_pos, Nat.mul_add]
        omega
    · rw [watch_take_short hn] at hpast
      have hroom : past <+: room text n := by rwa [← List.append_nil (room text n)]
      exact Nat.le_trans (t.cost_le_of_prefix hroom) (Nat.le_trans (Nat.le_add_right _ _)
        (Nat.le_add_right _ _))
  | build next ih =>
    obtain rfl | ⟨past, rfl, hrest⟩ := List.prefix_cons_iff.1 hpast
    · exact Nat.zero_le _
    · obtain ⟨credit', hpaid, hnext⟩ := h
      have hcost := ih hnext hrest
      simp only [Tariff.cost_cons, Tariff.price, seen_cons, Act.seen, Nat.zero_add]
      omega

/-- At no point has more been put in its place than bytes were looked at. -/
theorem Affords.builds_le (h : s.Affords .forBuilds left 0) {past : List Act}
    (hpast : past <+: (s.watch part start bs).log) : builds past ≤ seen part past := by
  have hcost := h.cost_le hpast
  have hrate : Tariff.forBuilds.perByte = 1 := rfl
  rwa [Tariff.cost_forBuilds, hrate, Nat.zero_add, Nat.one_mul] at hcost

/-- A run ends after at most four acts for each byte, whatever becomes of it. -/
theorem Affords.length_log_le (h : s.Affords .forActs left 0) (part : Part) (start : Nat)
    (bs : Bytes) : (s.watch part start bs).log.length ≤ 4 * bs.length := by
  have hcost := h.cost_le (List.prefix_refl (s.watch part start bs).log)
  have hrate : Tariff.forActs.perByte = 4 := rfl
  have hseen := s.seen_le part start bs
  rw [Tariff.cost_forActs, hrate] at hcost
  omega

section Fills

variable {held : α → Nat} {before : Nat}

/-- What is held in the end, `before` of which was there already, has been put in its place. -/
def Fills (s : Script α) (held : α → Nat) (before : Nat) : Prop :=
  ∀ part start bs a rest, s.run bs = .ok (a, rest) →
    held a ≤ before + builds (s.watch part start bs).log

theorem fills_none (s : Script α) : s.Fills (fun _ => before) before :=
  fun _ _ _ _ _ _ => Nat.le_add_right _ _

theorem fills_pure (h : held a ≤ before) : (pure a : Script α).Fills held before := by
  intro part start bs b rest hrun
  cases hrun
  exact h

theorem fills_built : built.Fills (fun _ => before + 1) before :=
  fun _ _ _ _ _ _ => Nat.le_refl _

theorem Fills.frame (h : s.Fills held before) (extra : Nat) :
    s.Fills (fun a => extra + held a) (extra + before) := by
  intro part start bs a rest hrun
  have hheld := h part start bs a rest hrun
  show extra + held a ≤ _
  omega

theorem Fills.bind {f : α → Script β} {held' : β → Nat} (h : s.Fills held before)
    (hf : ∀ a, (f a).Fills held' (held a)) : (s >>= f).Fills held' before := by
  intro part start bs b rest hrun
  rw [run_bind, Reader.bind_apply] at hrun
  cases hs : s.run bs with
  | error e =>
    rw [hs] at hrun
    cases hrun
  | ok p =>
    obtain ⟨a, between⟩ := p
    rw [hs] at hrun
    have hfirst := h part start bs a between hs
    have hnext := hf a part (start + seen part (s.watch part start bs).log) between b rest hrun
    rw [watch_bind_ok hs, builds_append]
    omega

theorem Fills.times (h : s.Fills held 0) (n : Nat) :
    (s.times n).Fills (fun as => (as.map fun a => 1 + held a).sum) 0 := by
  induction n with
  | zero => exact fills_pure (Nat.le_refl 0)
  | succ n ih =>
    apply h.bind
    intro a
    apply fills_built.bind
    intro _
    apply (ih.frame (held a + 1)).bind
    intro as
    apply fills_pure
    exact Nat.le_of_eq (by rw [List.map_cons, List.sum_cons, Nat.add_comm 1])

end Fills

end Script

end BuildDelta.Wire
