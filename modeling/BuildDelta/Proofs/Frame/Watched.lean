import BuildDelta.Proofs.Frame.Grammar
import BuildDelta.Proofs.Wire.Scripted
/-!
# Decoding, step by step

`Frame.watch` takes the steps of `Frame.parse` and logs them: which bytes are cut out of the frame, which
are looked at in the header and in the payload, which buffers are made for texts, and when a value is put
in its place. It is another way to write `parse`, and gives the same result for all bytes
(`Frame.result_watch`).

The log falls into two. In front of the payload nothing is built, every cut is checked first, and the
header's script stays inside what was cut out for it (`careful_open`). Behind that comes the log of the
payload's script, of which all is known that is to be known once its bytes pay for it
(`contained_watch`). Where memory is short the log ends with the buffer that there is no room for, and it
ends there anyway (`endsForText_watch`).
-/

namespace BuildDelta

namespace Frame

open Wire

/-- Cuts a part out of the bytes of a frame. -/
def cut (bytes : Bytes) (start length : Nat) : Watched CorruptState Bytes :=
  ⟨[.look .frame start length], .ok ((bytes.drop start).take length)⟩

/-- Goes through a frame up to the end of its header, and gives the header and where the payload begins. -/
def watchHeader (bytes : Bytes) : Watched CorruptState (Header × Nat) := do
  .refuseIf (bytes.length < 8) (.truncated bytes.length)
  let front ← cut bytes 0 4
  .refuseIf (front ≠ magic) .badMagic
  let length ← cut bytes 4 4
  let start := 8 + Bytes.toNat length
  .refuseIf (bytes.length < start) (.truncated bytes.length)
  let whole ← cut bytes 8 (Bytes.toNat length)
  let (header, _) ← ((script : Script Header).watch .header 8 whole).mapError .badHeader
  pure (header, start)

/-- Goes on to the payload, if that is one of this kind. Its checksum takes all of its bytes. -/
def watchOpen (name : String) (bytes : Bytes) (checksum : Checksum) :
    Watched CorruptState (Nat × Bytes) := do
  let (header, start) ← watchHeader bytes
  .refuseIf (header.version ≠ version) (.wrongVersion header.version)
  .refuseIf (header.kind ≠ name) (.wrongKind name header.kind)
  let data ← cut bytes start (bytes.length - start)
  .refuseIf (checksum data ≠ header.checksum)
    (.checksumMismatch header.checksum (checksum data))
  pure (start, data)

variable {α β : Type}

/-- Reads a payload to its end. -/
def watchPayload (payload : Script α) (start : Nat) (data : Bytes) : Watched CorruptState α := do
  let (value, rest) ← (payload.watch .payload start data).mapError .badPayload
  let consumed := data.length - rest.length
  .refuseIf (consumed ≠ data.length) (.trailingBytes (data.length - consumed))
  pure value

/-- Decodes a frame and logs what is done. -/
def watch (name : String) (payload : Script α) (bytes : Bytes) (checksum : Checksum) :
    Watched CorruptState α := do
  let (start, data) ← watchOpen name bytes checksum
  watchPayload payload start data

/-- An act that looks at bytes which are there, and which are in the part that it looks at. -/
def Inside (bytes : Bytes) : Act → Prop
  | .look .frame start length => start + length ≤ bytes.length
  | .look .header start length =>
    8 ≤ start ∧ start + length ≤ payloadStart bytes ∧ payloadStart bytes ≤ bytes.length
  | .look .payload start length => payloadStart bytes ≤ start ∧ start + length ≤ bytes.length
  | .buffer _ => True
  | .build => True

section Result

theorem cut_bind {bytes : Bytes} {start length : Nat} (next : Bytes → Watched CorruptState α) :
    cut bytes start length >>= next =
      (next ((bytes.drop start).take length)).after [.look .frame start length] := rfl

theorem result_cut {bytes : Bytes} {start length : Nat} (next : Bytes → Watched CorruptState α) :
    (cut bytes start length >>= next).result = (next ((bytes.drop start).take length)).result := rfl

/-- A check is made before all that follows it. -/
theorem result_refuseIf {c c' : Prop} {_ : Decidable c} {_ : Decidable c'} {e : CorruptState}
    {next : Unit → Watched CorruptState α} {next' : PUnit → Except CorruptState β}
    {last : α → Except CorruptState β} (hsame : c ↔ c')
    (h : ¬c → (next ()).result >>= last = next' ⟨⟩) :
    (Watched.refuseIf c e >>= next).result >>= last =
      if c' then throw e >>= next' else next' ⟨⟩ := by
  by_cases hc : c
  · rw [Watched.refuseIf, if_pos hc, if_pos (hsame.1 hc)]
    rfl
  · rw [Watched.refuseIf_bind hc, if_neg (mt hsame.2 hc)]
    exact h hc

/-- Up to the payload, parsing takes the steps of `watchOpen`. -/
theorem parse_eq (kind : Kind) (reader : Reader α) (bytes : Bytes) (checksum : Checksum) :
    parse kind reader bytes checksum =
      (watchOpen kind.name bytes checksum).result >>= fun p => readWhole reader p.2 := by
  symm
  unfold watchOpen parse
  rw [Watched.result_bind, bind_assoc]
  unfold watchHeader
  refine result_refuseIf Iff.rfl fun hlong => ?_
  refine result_refuseIf Iff.rfl fun hmagic => ?_
  have hbody : bytes.length < 8 + Bytes.toNat ((bytes.drop 4).take 4) ↔
      (bytes.drop 8).length < Bytes.toNat ((bytes.drop 4).take 4) := by
    rw [List.length_drop]
    omega
  refine result_refuseIf hbody fun hwhole => ?_
  rw [result_cut, Watched.result_bind, Watched.result_mapError, Script.result_watch,
    run_script]
  generalize Bytes.toNat ((bytes.drop 4).take 4) = length at *
  cases hread : (read : Reader Header) ((bytes.drop 8).take length) with
  | error e => rfl
  | ok p =>
    obtain ⟨header, surplus⟩ := p
    show (Watched.refuseIf (header.version ≠ version) _ >>= _).result >>= _ = pure header >>= _
    rw [pure_bind]
    refine result_refuseIf Iff.rfl fun hversion => ?_
    refine result_refuseIf Iff.rfl fun hkind => ?_
    have hdata : (bytes.drop (8 + length)).take (bytes.length - (8 + length)) =
        (bytes.drop 8).drop length := by
      rw [List.drop_drop, List.take_of_length_le (by rw [List.length_drop])]
    rw [result_cut, hdata]
    refine result_refuseIf Iff.rfl fun hsum => ?_
    rfl

theorem result_watchPayload (payload : Script α) (start : Nat) (data : Bytes) :
    (watchPayload payload start data).result = readWhole payload.run data := by
  rw [watchPayload, Watched.result_bind, Watched.result_mapError, Script.result_watch, readWhole]
  cases hread : payload.run data with
  | error e => rfl
  | ok p =>
    obtain ⟨a, rest⟩ := p
    obtain ⟨used, rfl, -, -⟩ := Script.exists_used .payload start hread
    have hconsumed : (used ++ rest).length - rest.length = used.length := by
      rw [List.length_append, Nat.add_sub_cancel]
    have htrailing : (used ++ rest).length - used.length = rest.length := by
      rw [List.length_append, Nat.add_sub_cancel_left]
    show (Watched.refuseIf _ _ >>= fun _ => pure a : Watched CorruptState α).result = _
    rw [hconsumed, htrailing]
    cases rest with
    | nil => rw [Watched.refuseIf, if_neg (by simp)]; rfl
    | cons b rest => rw [Watched.refuseIf, if_pos (by simp)]; rfl

/-- What is watched is what parsing does. -/
theorem result_watch (kind : Kind) (payload : Script α) (bytes : Bytes) (checksum : Checksum) :
    (watch kind.name payload bytes checksum).result = parse kind payload.run bytes checksum := by
  rw [watch, Watched.result_bind, parse_eq]
  congr 1
  funext p
  exact result_watchPayload payload p.1 p.2

end Result

section Before

/-- An act in front of the payload. -/
def Before (bytes : Bytes) (act : Act) : Prop :=
  Inside bytes act ∧ act ≠ .build ∧ act.seen .payload = 0

/-- Steps in front of the payload: at most `limit` acts, buffers of the length `room` at most for what is
there, and a result of which something is known. -/
structure Careful (bytes : Bytes) (limit room : Nat) (known : α → Prop) (w : Watched CorruptState α) :
    Prop where
  before : ∀ act ∈ w.log, Before bytes act
  length_le : w.log.length ≤ limit
  buffered_le : buffered w.log.dropLast ≤ room
  ends : w.EndsForText CorruptState.missingText?
  known : ∀ a, w.result = .ok a → known a
  /-- That nothing may be left over is said of the payload only. -/
  whole : ∀ n, w.result ≠ .error (.trailingBytes n)

namespace Careful

variable {bytes : Bytes} {limit room : Nat} {known : α → Prop} {known' : β → Prop}
  {w : Watched CorruptState α}

theorem pure {a : α} (h : known a) : Careful bytes limit room known (pure a) where
  before _ hact := absurd hact List.not_mem_nil
  length_le := Nat.zero_le _
  buffered_le := Nat.zero_le _
  ends := Watched.endsForText_ok a
  known _ heq := Except.ok.inj heq ▸ h
  whole := nofun

theorem fail {e : CorruptState} (he : ∀ n, e ≠ .trailingBytes n) (htext : e.missingText? = none) :
    Careful bytes limit room known (.fail e) where
  before _ hact := absurd hact List.not_mem_nil
  length_le := Nat.zero_le _
  buffered_le := Nat.zero_le _
  ends := Watched.endsForText_fail htext
  known _ heq := by cases heq
  whole n heq := he n (Except.error.inj heq)

/-- What goes on made its buffers for what is there. -/
theorem buffered_le_of_ok {a : α} (h : Careful bytes limit room known w) (hw : w.result = .ok a) :
    buffered w.log ≤ room := by
  rw [← buffered_dropLast_eq w.log (h.ends.getLast?_ne hw)]
  exact h.buffered_le

theorem bind {f : α → Watched CorruptState β} {first firstRoom : Nat}
    (h : Careful bytes first firstRoom known w) (hfirst : first ≤ limit) (hroom : firstRoom ≤ room)
    (hf : ∀ a, known a → Careful bytes (limit - first) (room - firstRoom) known' (f a)) :
    Careful bytes limit room known' (w >>= f) := by
  have hends := h.ends.bind fun a ha => (hf a (h.known a ha)).ends
  cases hw : w.result with
  | error e =>
    rw [Watched.bind_error hw] at hends ⊢
    refine ⟨h.before, Nat.le_trans h.length_le hfirst, Nat.le_trans h.buffered_le hroom, hends, nofun,
      fun n heq => h.whole n ?_⟩
    rw [hw, Except.error.inj heq]
  | ok a =>
    have hnext := hf a (h.known a hw)
    have hlength := h.length_le
    have hlength' := hnext.length_le
    have hbuffered := h.buffered_le_of_ok hw
    have hbuffered' := hnext.buffered_le
    rw [Watched.bind_ok hw] at hends ⊢
    refine ⟨fun act hact => ?_, ?_, ?_, hends, hnext.known, hnext.whole⟩
    · exact (List.mem_append.1 hact).elim (h.before act) (hnext.before act)
    · rw [List.length_append]
      omega
    · exact Nat.le_trans (buffered_dropLast_append_le _ _) (by omega)

theorem refuse {c : Prop} {_ : Decidable c} {e : CorruptState} {next : Unit → Watched CorruptState α}
    (he : ∀ n, e ≠ .trailingBytes n) (htext : e.missingText? = none)
    (h : ¬c → Careful bytes limit room known (next ())) :
    Careful bytes limit room known (Watched.refuseIf c e >>= next) := by
  by_cases hc : c
  · rw [Watched.refuseIf, if_pos hc]
    exact fail he htext
  · rw [Watched.refuseIf_bind hc]
    exact h hc

theorem cut {start length : Nat} {next : Bytes → Watched CorruptState α} (hlimit : 0 < limit)
    (hend : start + length ≤ bytes.length)
    (h : Careful bytes (limit - 1) room known (next ((bytes.drop start).take length))) :
    Careful bytes limit room known (cut bytes start length >>= next) := by
  have hcut : Careful bytes 1 0 (· = (bytes.drop start).take length) (Frame.cut bytes start length) := by
    refine ⟨fun act hact => ?_, Nat.le_refl 1, Nat.le_refl 0, fun _ => ⟨nofun, nofun⟩,
      fun _ heq => (Except.ok.inj heq).symm, nofun⟩
    rw [List.mem_singleton.1 hact]
    exact ⟨hend, nofun, rfl⟩
  exact hcut.bind hlimit (Nat.zero_le room) fun _ heq => heq ▸ h

end Careful

section

variable {bytes : Bytes}

theorem careful_script {length : Nat} (hstart : payloadStart bytes = 8 + length)
    (hwhole : payloadStart bytes ≤ bytes.length) :
    Careful bytes (4 * length) length (fun _ => True)
      (((script : Script Header).watch .header 8 ((bytes.drop 8).take length)).mapError
        CorruptState.badHeader) where
  before act hact := by
    cases act with
    | buffer => exact ⟨trivial, nofun, rfl⟩
    | build => exact absurd hact quiet_script.build_notMem
    | look part place taken =>
      obtain ⟨rfl, hplace, hend⟩ := Script.inside hact
      have htake : ((bytes.drop 8).take length).length ≤ length := List.length_take_le _ _
      exact ⟨⟨hplace, by omega, hwhole⟩, nofun, rfl⟩
  length_le := by
    have htake : ((bytes.drop 8).take length).length ≤ length := List.length_take_le _ _
    have hlog := (affords_script (α := Header) .forActs).length_log_le .header 8
      ((bytes.drop 8).take length)
    exact Nat.le_trans hlog (Nat.mul_le_mul_left 4 htake)
  buffered_le := by
    have hbuffered := (script : Script Header).buffered_le_seen .header 8 ((bytes.drop 8).take length)
    have hseen := (script : Script Header).seen_le .header 8 ((bytes.drop 8).take length)
    exact Nat.le_trans hbuffered (Nat.le_trans hseen (List.length_take_le _ _))
  ends := ((script : Script Header).endsForText .header 8 _).mapError fun _ => rfl
  known _ _ := trivial
  whole n heq := by
    obtain ⟨_, _, ⟨⟩⟩ := mapError_eq_error.1 heq

theorem careful_header (bytes : Bytes) : Careful bytes
    (4 * min (payloadStart bytes) bytes.length - 1) (min (payloadStart bytes) bytes.length)
    (fun p => p.2 = payloadStart bytes ∧ payloadStart bytes ≤ bytes.length) (watchHeader bytes) := by
  have hstart : payloadStart bytes = 8 + Bytes.toNat ((bytes.drop 4).take 4) := rfl
  refine .refuse nofun rfl fun hlong => ?_
  apply Careful.cut (by omega) (by omega)
  refine .refuse nofun rfl fun hmagic => ?_
  apply Careful.cut (by omega) (by omega)
  refine .refuse nofun rfl fun hwhole => ?_
  apply Careful.cut (by omega) (by omega)
  apply (careful_script hstart (by omega)).bind (by omega) (by omega)
  intro p _
  exact .pure ⟨rfl, by omega⟩

/-- On the way to the payload no byte of it has been looked at but for the checksum. -/
theorem careful_open (name : String) (bytes : Bytes) (checksum : Checksum) :
    Careful bytes (4 * min (payloadStart bytes) bytes.length) (min (payloadStart bytes) bytes.length)
      (fun p => p = (payloadStart bytes, bytes.drop (payloadStart bytes)) ∧
        payloadStart bytes ≤ bytes.length) (watchOpen name bytes checksum) := by
  have hstart : payloadStart bytes = 8 + Bytes.toNat ((bytes.drop 4).take 4) := rfl
  apply (careful_header bytes).bind (by omega) (Nat.le_refl _)
  rintro ⟨header, start⟩ ⟨rfl, hinside⟩
  refine .refuse nofun rfl fun hversion => ?_
  refine .refuse nofun rfl fun hkind => ?_
  apply Careful.cut (by omega) (by omega)
  refine .refuse nofun rfl fun hsum => ?_
  refine .pure ⟨?_, hinside⟩
  rw [List.take_of_length_le (by rw [List.length_drop])]

end

end Before

section Contained

variable {bytes : Bytes} {front : List Act} {payload : Script α} {left : α → Nat} {name : String}
  {checksum : Checksum}

/-- What is done stays inside the bytes that are there, and what is built stays behind the bytes of the
payload that have been looked at. All buffers but the last act are for bytes that are there. -/
structure Contained (bytes : Bytes) (log : List Act) : Prop where
  inside : ∀ act ∈ log, Inside bytes act
  builds_le : ∀ past, past <+: log → builds past ≤ seen .payload past
  buffered_le : buffered log.dropLast ≤ bytes.length
  length_le : log.length ≤ 4 * bytes.length

theorem builds_front (h : ∀ act ∈ front, Before bytes act) : builds front = 0 :=
  List.count_eq_zero.2 fun hbuild => (h .build hbuild).2.1 rfl

theorem seen_front (h : ∀ act ∈ front, Before bytes act) : seen .payload front = 0 :=
  seen_eq_zero fun act hact => (h act hact).2.2

theorem contained_front (h : ∀ act ∈ front, Before bytes act)
    (hbuffered : buffered front.dropLast ≤ bytes.length) (hlength : front.length ≤ 4 * bytes.length) :
    Contained bytes front where
  inside act hact := (h act hact).1
  builds_le past hpast := by
    rw [builds_front fun act hact => h act (hpast.subset hact)]
    exact Nat.zero_le _
  buffered_le := hbuffered
  length_le := hlength

/-- A payload whose bytes pay for all that is done. -/
theorem contained_append (h : ∀ act ∈ front, Before bytes act)
    (hbuffered : buffered front ≤ payloadStart bytes)
    (hlength : front.length ≤ 4 * payloadStart bytes) (hstart : payloadStart bytes ≤ bytes.length)
    (hpaid : ∀ t, payload.Affords t left 0) :
    Contained bytes (front ++
      (payload.watch .payload (payloadStart bytes) (bytes.drop (payloadStart bytes))).log) where
  inside act hact := by
    obtain hact | hact := List.mem_append.1 hact
    · exact (h act hact).1
    · cases act with
      | buffer => trivial
      | build => trivial
      | look part place length =>
        obtain ⟨rfl, hplace, hend⟩ := Script.inside hact
        rw [List.length_drop] at hend
        exact ⟨hplace, by omega⟩
  builds_le past hpast := by
    obtain hfront | ⟨later, rfl⟩ := List.prefix_or_prefix_of_prefix hpast (List.prefix_append front _)
    · rw [builds_front fun act hact => h act (hfront.subset hact)]
      exact Nat.zero_le _
    · have hlater := (hpaid .forBuilds).builds_le ((List.prefix_append_right_inj front).1 hpast)
      rw [builds_append, seen_append, builds_front h, seen_front h]
      omega
  buffered_le := by
    have hpayload := payload.buffered_le_seen .payload (payloadStart bytes)
      (bytes.drop (payloadStart bytes))
    have hseen := payload.seen_le .payload (payloadStart bytes) (bytes.drop (payloadStart bytes))
    rw [List.length_drop] at hseen
    exact Nat.le_trans (buffered_dropLast_append_le _ _) (by omega)
  length_le := by
    have hlog := (hpaid .forActs).length_log_le .payload (payloadStart bytes)
      (bytes.drop (payloadStart bytes))
    rw [List.length_drop] at hlog
    rw [List.length_append]
    omega

theorem log_watchPayload (payload : Script α) (start : Nat) (data : Bytes) :
    (watchPayload payload start data).log = (payload.watch .payload start data).log := by
  have hmap : ((payload.watch .payload start data).mapError CorruptState.badPayload).result =
      (payload.run data).mapError .badPayload := by
    rw [Watched.result_mapError, Script.result_watch]
  cases hread : payload.run data with
  | error e =>
    rw [hread] at hmap
    rw [watchPayload, Watched.bind_error hmap]
    rfl
  | ok p =>
    rw [hread] at hmap
    rw [watchPayload, Watched.bind_ok hmap]
    show (payload.watch .payload start data).log ++ (Watched.refuseIf _ _ >>= _).log = _
    rw [Watched.refuseIf]
    split <;> exact List.append_nil _

/-- The payload is read behind all that stands in front of it. -/
theorem log_watch {start : Nat} {data : Bytes}
    (h : (watchOpen name bytes checksum).result = .ok (start, data)) :
    (watch name payload bytes checksum).log =
      (watchOpen name bytes checksum).log ++ (payload.watch .payload start data).log := by
  rw [watch, Watched.bind_ok h, ← log_watchPayload]

theorem contained_watch (hpaid : ∀ t, payload.Affords t left 0) (name : String) (bytes : Bytes)
    (checksum : Checksum) : Contained bytes (watch name payload bytes checksum).log := by
  have hopen := careful_open name bytes checksum
  have hlength := hopen.length_le
  cases hresult : (watchOpen name bytes checksum).result with
  | error e =>
    rw [watch, Watched.bind_error hresult]
    exact contained_front hopen.before (Nat.le_trans hopen.buffered_le (by omega))
      (Nat.le_trans hlength (by omega))
  | ok p =>
    obtain ⟨rfl, hstart⟩ := hopen.known p hresult
    have hbuffered := hopen.buffered_le_of_ok hresult
    rw [log_watch hresult]
    exact contained_append hopen.before (by omega) (by omega) hstart hpaid

theorem endsForText_watch (name : String) (payload : Script α) (bytes : Bytes) (checksum : Checksum) :
    (watch name payload bytes checksum).EndsForText CorruptState.missingText? := by
  have hopen := careful_open name bytes checksum
  apply hopen.ends.bind
  intro p _
  have hpayload : ((payload.watch .payload p.1 p.2).mapError .badPayload).EndsForText
      CorruptState.missingText? := (payload.endsForText .payload p.1 p.2).mapError fun _ => rfl
  apply hpayload.bind
  intro q _
  dsimp only
  rw [Watched.refuseIf]
  split
  · exact Watched.endsForText_fail rfl
  · exact Watched.endsForText_ok _

/-- A payload that decodes was looked at whole. -/
theorem exists_of_result_watch {a : α} (h : (watch name payload bytes checksum).result = .ok a) :
    ∃ data, (watchOpen name bytes checksum).result = .ok (payloadStart bytes, data) ∧
      data = bytes.drop (payloadStart bytes) ∧ payloadStart bytes ≤ bytes.length ∧
      payload.run data = .ok (a, []) := by
  rw [watch, Watched.result_bind, bind_eq_ok] at h
  obtain ⟨p, hresult, hpayload⟩ := h
  obtain ⟨rfl, hstart⟩ := (careful_open name bytes checksum).known p hresult
  refine ⟨_, hresult, rfl, hstart, ?_⟩
  rw [result_watchPayload] at hpayload
  exact readWhole_eq_ok.1 hpayload

/-- What is done with the value of a payload, once that was looked at whole. -/
theorem contained_further {a : α} {further : α → Script β} {left : β → Nat}
    (hpaid : ∀ t, (payload >>= further).Affords t left 0)
    (h : (watch name payload bytes checksum).result = .ok a) :
    Contained bytes ((watch name payload bytes checksum).log ++
      ((further a).watch .payload bytes.length []).log) := by
  have hopen := careful_open name bytes checksum
  have hlength := hopen.length_le
  obtain ⟨_, hresult, rfl, hstart, hread⟩ := exists_of_result_watch h
  have hbuffered := hopen.buffered_le_of_ok hresult
  obtain ⟨used, hused, hseen, -⟩ := Script.exists_used .payload (payloadStart bytes) hread
  have hend : payloadStart bytes + used.length = bytes.length := by
    rw [← List.append_nil used, ← hused, List.length_drop, Nat.add_sub_of_le hstart]
  have hall := contained_append hopen.before (by omega) (by omega) hstart hpaid
  rw [Script.watch_bind_ok hread, hseen, hend] at hall
  rw [log_watch hresult, List.append_assoc]
  exact hall

end Contained

section Whole

variable {bytes : Bytes} {payload : Script α} {kind : Kind} {checksum : Checksum} {memory : Nat} {a : α}

/-- What is left over is what was not looked at. -/
theorem seen_add_trailing {n : Nat}
    (h : parse kind payload.run bytes checksum = .error (.trailingBytes n)) :
    seen .payload (watch kind.name payload bytes checksum).log + n =
      (bytes.drop (payloadStart bytes)).length ∧ 0 < n := by
  have hopen := careful_open kind.name bytes checksum
  rw [parse_eq, bind_eq_error] at h
  rcases h with hfront | ⟨p, hresult, hwhole⟩
  · exact absurd hfront (hopen.whole n)
  obtain ⟨rfl, -⟩ := hopen.known p hresult
  rw [log_watch hresult, seen_append, seen_front hopen.before]
  unfold readWhole at hwhole
  split at hwhole
  · cases hwhole
  · rename_i value rest hrest hread
    obtain ⟨used, hused, hseen, -⟩ := Script.exists_used .payload (payloadStart bytes) hread
    cases hwhole
    dsimp only at hused ⊢
    rw [hseen, hused, List.length_append, Nat.zero_add]
    exact ⟨rfl, List.length_pos_iff.2 hrest⟩
  · cases hwhole

/-- Of a header with something behind it, the header is looked at. -/
theorem watchHeader_assemble {header surplus : Bytes} {h : Header}
    (hwidth : (header ++ surplus).length < 0x100000000) (hdenotes : Denotes header h) (data : Bytes) :
    ∃ log, watchHeader (assemble (header ++ surplus) data) =
        ⟨log, .ok (h, 8 + (header ++ surplus).length)⟩ ∧ seen .header log = header.length := by
  have hread : (script : Script Header).run (header ++ surplus) = .ok (h, surplus) := by
    rw [run_script]
    exact reads.read_eq hdenotes surplus
  obtain ⟨used, hused, hseen, -⟩ := Script.exists_used .header 8 hread
  obtain rfl := List.append_cancel_right hused
  generalize header ++ surplus = whole at *
  have hlong : ¬(assemble whole data).length < 8 := by
    rw [length_assemble]
    omega
  have hmagic : ¬((assemble whole data).drop 0).take 4 ≠ magic := not_not_intro (take_assemble whole data)
  have hwhole : ¬(assemble whole data).length < 8 + whole.length := by
    rw [length_assemble, List.length_append]
    omega
  have hscript : (((script : Script Header).watch .header 8 whole).mapError
      CorruptState.badHeader).result = .ok (h, surplus) := by
    rw [Watched.result_mapError, Script.result_watch, hread]
    rfl
  refine ⟨.look .frame 0 4 :: .look .frame 4 4 :: .look .frame 8 whole.length ::
    ((script : Script Header).watch .header 8 whole).log ++ [], ?_, ?_⟩
  · simp only [watchHeader, cut_bind, headerLength_assemble hwidth, drop_assemble, List.take_left,
      Watched.refuseIf_bind hlong, Watched.refuseIf_bind hmagic, Watched.refuseIf_bind hwhole,
      Watched.bind_ok hscript]
    rfl
  · simpa [Act.seen] using hseen

theorem watchOpen_assemble {name : String} {header surplus data : Bytes}
    (hwidth : (header ++ surplus).length < 0x100000000)
    (hdenotes : Denotes header (⟨version, name, checksum data⟩ : Header)) :
    ∃ log, watchOpen name (assemble (header ++ surplus) data) checksum =
        ⟨log, .ok (8 + (header ++ surplus).length, data)⟩ ∧ seen .header log = header.length := by
  obtain ⟨log, hheader, hseen⟩ := watchHeader_assemble hwidth hdenotes data
  generalize header ++ surplus = whole at *
  have hdata : ((assemble whole data).drop (8 + whole.length)).take
      ((assemble whole data).length - (8 + whole.length)) = data := by
    rw [← List.drop_drop, drop_assemble, List.drop_left, length_assemble, List.length_append,
      ← Nat.add_assoc, Nat.add_sub_cancel_left, List.take_length]
  have hresult : (watchHeader (assemble whole data)).result =
      .ok (⟨version, name, checksum data⟩, 8 + whole.length) := by
    rw [hheader]
  rw [watchOpen, Watched.bind_ok hresult, hheader]
  simp only [cut_bind, hdata, Watched.refuseIf_bind (not_not_intro rfl)]
  refine ⟨_, rfl, ?_⟩
  rw [seen_append, hseen]
  rfl

/-- A state is made of a header and a payload, and all of these that decides on it was looked at. What
stands behind the header makes no difference. What stands behind the payload shows in the checksum, or
else it is left over. -/
def Decided (decoded : Bytes → Except CorruptState α) (checksum : Checksum) (log : List Act)
    (bytes : Bytes) (a : α) : Prop :=
  ∃ header surplus data, bytes = assemble (header ++ surplus) data ∧
    seen .header log = header.length ∧ seen .payload log = data.length ∧
    ∀ surplus' more, (header ++ surplus').length < 0x100000000 →
      decoded (assemble (header ++ surplus') (data ++ more)) =
        if checksum (data ++ more) ≠ checksum data then
          .error (.checksumMismatch (checksum data) (checksum (data ++ more)))
        else if more = [] then .ok a
        else .error (.trailingBytes more.length)

theorem decided_of_decode (h : decode kind payload.run bytes checksum memory = .ok a) :
    Decided (decode kind payload.run · checksum memory) checksum
      (watch kind.name payload bytes checksum).log bytes a := by
  obtain ⟨data, ⟨header, surplus, rfl, hwidth, hdenotes⟩, hread⟩ := decode_eq_ok_iff.1 h
  have hopen := careful_open kind.name (assemble (header ++ surplus) data) checksum
  obtain ⟨log, heq, hheader⟩ := watchOpen_assemble hwidth hdenotes
  have hresult : (watchOpen kind.name (assemble (header ++ surplus) data) checksum).result =
      .ok (8 + (header ++ surplus).length, data) := by
    rw [heq]
  obtain ⟨used, hused, hseen, hmore⟩ :=
    Script.exists_used .payload (8 + (header ++ surplus).length) hread
  rw [List.append_nil] at hused
  subst hused
  refine ⟨header, surplus, data, rfl, ?_, ?_, fun surplus' more hwidth' => ?_⟩
  · have hother : Part.payload ≠ Part.header := nofun
    rw [log_watch hresult, seen_append, Script.seen_eq_zero_of_ne hother, heq, hheader]
    rfl
  · rw [log_watch hresult, seen_append, seen_front hopen.before, hseen, Nat.zero_add]
  · have hwhole : readWhole payload.run (data ++ more) =
        if more = [] then .ok a else .error (.trailingBytes more.length) := by
      have hread' : payload.run (data ++ more) = .ok (a, more) := by
        rw [← Script.result_watch payload .payload (8 + (header ++ surplus).length), hmore]
      rw [readWhole, hread']
      cases more <;> rfl
    show (parse kind payload.run (assemble (header ++ surplus') (data ++ more)) checksum).mapError _ = _
    rw [parse_of_denotes hwidth' hdenotes, hwhole]
    split
    · rfl
    split <;> rfl

end Whole

end Frame

end BuildDelta
