import BuildDelta.Proofs.Frame.Watched
import BuildDelta.Proofs.Snapshot.RoundTrip
/-!
# What hostile bytes can do

A state file may be damaged, or made by someone who means ill: a header of four gigabytes, a text or a
list longer than any memory. Whatever it says, no byte is looked at that is not there, no more is built
than there are bytes of the payload that were looked at, and the steps are at most four for each byte
of the file (`Contained`). What comes of it depends on no byte but those that were looked at and those
that the checksum takes, which may be any function (`Decided`).

A text that is longer than what is left of the file is another matter. Its buffer is made first, and
where there is no room for that the program ends instead of reporting an error (`Bounded.ends_iff`).
Eighteen bytes are enough for it on any machine (`hostile_bytes_end_the_program`).

Snapshots are decoded as lists of items, and put under their keys after that. The bytes of the items
have been looked at by then, and what is left of them pays for the index
(`Snapshot.bounded_deserialize`).
-/

namespace BuildDelta

open Wire

namespace Frame

variable {α : Type}

/-- What is said of a function that makes states of bytes in some memory. The watched form of it says what
is done. -/
structure Bounded (memory : Nat) (held : α → Nat) (watched : Bytes → Checksum → Watched CorruptState α)
    (decoded : Bytes → Checksum → Except CorruptState α) : Prop where
  result_eq : ∀ bytes checksum,
    (watched bytes checksum).result.mapError (.within memory) = decoded bytes checksum
  contained : ∀ bytes checksum, Contained bytes (watched bytes checksum).log
  /-- The program ends with a buffer that there is no room for, and only with one. -/
  ends_iff : ∀ bytes checksum crash,
    decoded bytes checksum = .error (.outOfMemory crash) ↔
      (watched bytes checksum).log.getLast? = some (.buffer crash.length) ∧ memory < crash.length
  /-- All that a state holds was built. -/
  held_le : ∀ bytes checksum a, decoded bytes checksum = .ok a →
    held a ≤ builds (watched bytes checksum).log
  /-- What is left over is what was not looked at. -/
  trailing : ∀ bytes checksum n, decoded bytes checksum = .error (.trailingBytes n) →
    seen .payload (watched bytes checksum).log + n = (bytes.drop (payloadStart bytes)).length ∧ 0 < n
  decided : ∀ bytes checksum a, decoded bytes checksum = .ok a →
    Decided (decoded · checksum) checksum (watched bytes checksum).log bytes a

/-- What is consumed is a beginning of what is there, so what is left over is the difference. Nothing
behind it has a part in the value, nor in what is done. -/
def Consumes (script : Script α) (reader : Reader α) : Prop :=
  ∀ start data a rest, reader data = .ok (a, rest) → ∃ used, data = used ++ rest ∧
    seen .payload (script.watch .payload start data).log = used.length ∧
    ∀ more, reader (used ++ more) = .ok (a, more) ∧
      (script.watch .payload start (used ++ more)).log = (script.watch .payload start data).log

theorem consumes (script : Script α) : Consumes script script.run := by
  intro start data a rest h
  obtain ⟨used, hdata, hseen, hmore⟩ := Script.exists_used .payload start h
  refine ⟨used, hdata, hseen, fun more => ⟨?_, ?_⟩⟩
  · rw [← Script.result_watch script .payload start, hmore]
  · rw [hmore]

/-- What is said of decoding the values of a type. -/
structure DecodesBounded (α : Type) [Format α] [Scripted α] (memory : Nat) : Prop where
  consumes : Consumes (script : Script α) read
  bounded : ∀ kind : Kind, Bounded memory held (watch kind.name (script : Script α))
    fun bytes checksum => decode kind read bytes checksum memory

/-- Where memory is short, the last act was to make a buffer. -/
theorem ends_iff {w : Watched CorruptState α} {memory : Nat} {crash : OutOfMemory}
    (hends : w.EndsForText CorruptState.missingText?)
    (hgoes : ∀ crash, w.result ≠ .error (.outOfMemory crash)) :
    w.result.mapError (CorruptState.within memory) = .error (.outOfMemory crash) ↔
      w.log.getLast? = some (.buffer crash.length) ∧ memory < crash.length := by
  rw [mapError_eq_error, hends crash.length]
  constructor
  · rintro ⟨e, he, hwithin⟩
    have hne : e ≠ .outOfMemory crash := fun heq => hgoes crash (heq ▸ he)
    obtain ⟨hlength, hmemory⟩ := (CorruptState.within_eq_outOfMemory_iff hne).1 hwithin
    exact ⟨⟨e, he, hlength⟩, hmemory⟩
  · rintro ⟨⟨e, he, hlength⟩, hmemory⟩
    have hne : e ≠ .outOfMemory crash := fun heq => hgoes crash (heq ▸ he)
    exact ⟨e, he, (CorruptState.within_eq_outOfMemory_iff hne).2 ⟨hlength, hmemory⟩⟩

theorem decodesBounded (α : Type) [Format α] [Scripted α] (memory : Nat) : DecodesBounded α memory := by
  constructor
  · rw [← run_script]
    exact Frame.consumes script
  · rw [← run_script]
    intro kind
    constructor
    · intro bytes checksum
      rw [result_watch, decode]
    · exact contained_watch affords_script kind.name
    · intro bytes checksum crash
      rw [decode, ← result_watch]
      apply ends_iff (endsForText_watch _ _ _ _)
      intro crash'
      rw [result_watch]
      exact parse_ne_outOfMemory crash'
    · intro bytes checksum a h
      rw [decode_eq_ok, ← result_watch] at h
      obtain ⟨data, hresult, -, -, hread⟩ := exists_of_result_watch h
      have hheld := fills_script .payload (payloadStart bytes) data a [] hread
      rw [log_watch hresult, builds_append]
      omega
    · intro bytes checksum n h
      have hparse := parse_eq_error_of_decode (fun _ => CorruptState.noConfusion) h
      exact seen_add_trailing hparse
    · intro bytes checksum a h
      exact decided_of_decode h

end Frame

open BuildDelta.Frame

namespace Snapshot

variable {τ : Type} [Item τ] [Format τ] {bytes : Bytes} {checksum : Checksum} {memory : Nat}
  {parts : String × List τ} {s : Snapshot τ}

/-- The root and the items are read as any pair is. -/
theorem deserialize_eq_read : deserialize bytes checksum memory =
    decode (frameKind τ) (read : Reader (String × List τ)) bytes checksum memory >>= ofParts :=
  deserialize_eq bytes checksum memory

omit [Format τ] in
theorem ofParts_eq_error {e : CorruptState} (h : ofParts parts = .error e) :
    ∃ key, e = .duplicateKey key := by
  obtain ⟨cause, -, rfl⟩ := mapError_eq_error.1 h
  exact ⟨cause.key, rfl⟩

/-- What decoding does not end with, building does not end with. -/
theorem deserialize_eq_error {e : CorruptState} (he : ∀ key, e ≠ .duplicateKey key)
    (h : (deserialize bytes checksum memory : Except CorruptState (Snapshot τ)) = .error e) :
    decode (frameKind τ) (read : Reader (String × List τ)) bytes checksum memory = .error e := by
  rw [deserialize_eq_read, bind_eq_error] at h
  obtain h | ⟨parts, -, h⟩ := h
  · exact h
  · obtain ⟨key, rfl⟩ := ofParts_eq_error h
    exact absurd rfl (he key)

/-- What deserialises was looked at whole, and then it was put under its keys. -/
theorem exists_parts (h : deserialize bytes checksum memory = .ok s) :
    ∃ parts : String × List τ, decode (frameKind τ) read bytes checksum memory = .ok parts ∧
      (Table.empty.index parts.2).run [] = .ok (s.items, []) := by
  rw [deserialize_eq_read, bind_eq_ok] at h
  obtain ⟨parts, hparts, hitems⟩ := h
  refine ⟨parts, hparts, ?_⟩
  unfold ofParts ofItems Table.ofList? at hitems
  rw [Table.run_index]
  cases hnew : Table.empty.insertNew parts.2 with
  | error key =>
    rw [hnew] at hitems
    cases hitems
  | ok table =>
    rw [hnew] at hitems
    cases hitems
    rfl

variable [ScriptedItem τ]

/-- Reads the state file of a snapshot and logs all that is done. -/
def watch (bytes : Bytes) (checksum : Checksum) : Watched CorruptState (Snapshot τ) := do
  let (root, items) ← Frame.watch (frameKind τ).name (script : Script (String × List τ)) bytes checksum
  let (table, _) ← ((Table.empty.index items).watch .payload bytes.length []).mapError fun
    | .repeatedKey key => .duplicateKey key
    | e => .badPayload e
  pure ⟨root, table⟩

theorem result_watch : (watch bytes checksum : Watched CorruptState (Snapshot τ)).result =
    parse (frameKind τ) (read : Reader (String × List τ)) bytes checksum >>= ofParts := by
  rw [watch, Watched.result_bind, Frame.result_watch, run_script]
  congr 1
  funext parts
  rw [Watched.result_bind, Watched.result_mapError, Script.result_watch, Table.run_index]
  unfold ofParts ofItems Table.ofList?
  cases Table.empty.insertNew parts.2 <;> rfl

/-- Building needs no buffer. -/
theorem mapError_result_watch :
    (watch bytes checksum : Watched CorruptState (Snapshot τ)).result.mapError (.within memory) =
      deserialize bytes checksum memory := by
  rw [result_watch, deserialize_eq_read, decode]
  cases parse (frameKind τ) (read : Reader (String × List τ)) bytes checksum with
  | error e => rfl
  | ok parts =>
    show (ofParts parts).mapError _ = ofParts parts
    cases hparts : ofParts parts with
    | ok s => rfl
    | error e =>
      obtain ⟨key, rfl⟩ := ofParts_eq_error hparts
      rfl

/-- A table needs no buffer, so only what is read can end a program. -/
theorem endsForText_watch :
    (watch bytes checksum : Watched CorruptState (Snapshot τ)).EndsForText
      CorruptState.missingText? := by
  apply (Frame.endsForText_watch (frameKind τ).name _ bytes checksum).bind
  intro parts _
  dsimp only
  have hindex := (Table.empty.index parts.2).endsForText .payload bytes.length []
  apply Watched.EndsForText.bind
  · apply hindex.mapError
    intro e
    cases e <;> rfl
  · intro p _
    exact Watched.endsForText_ok _

/-- The index is made once the payload has been looked at whole. -/
theorem log_watch
    (h : (Frame.watch (frameKind τ).name (script : Script (String × List τ)) bytes checksum).result =
      .ok parts) :
    (watch bytes checksum : Watched CorruptState (Snapshot τ)).log =
      (Frame.watch (frameKind τ).name (script : Script (String × List τ)) bytes checksum).log ++
        ((Table.empty.index parts.2).watch .payload bytes.length []).log := by
  obtain ⟨root, items⟩ := parts
  rw [watch, Watched.bind_ok h]
  exact congrArg (_ ++ ·)
    (Watched.log_bind_pure (Watched.mapError _ _) fun p : Table τ × Bytes => Snapshot.mk root p.1)

theorem contained_watch :
    Contained bytes (watch bytes checksum : Watched CorruptState (Snapshot τ)).log := by
  cases h : (Frame.watch (frameKind τ).name (script : Script (String × List τ)) bytes checksum).result with
  | error e =>
    rw [watch, Watched.bind_error h]
    exact Frame.contained_watch affords_script _ bytes checksum
  | ok parts =>
    have hpaid : ∀ t, ((script : Script (String × List τ)) >>= fun parts =>
        Table.empty.index parts.2).Affords t (fun _ => 1) 0 :=
      fun t => (affords_script t).bind (affords_index t)
    rw [log_watch h]
    exact contained_further hpaid h

theorem size_le_builds (h : deserialize bytes checksum memory = .ok s) :
    s.items.size ≤ builds (watch bytes checksum : Watched CorruptState (Snapshot τ)).log := by
  obtain ⟨parts, hparts, hindex⟩ := exists_parts h
  rw [decode_eq_ok, ← run_script, ← Frame.result_watch] at hparts
  have hsize := Table.fills_index Table.empty parts.2 .payload bytes.length [] s.items [] hindex
  have hempty : (Table.empty : Table τ).size = 0 := rfl
  rw [log_watch hparts, builds_append]
  omega

theorem bounded_deserialize (τ : Type) [Item τ] [Format τ] [ScriptedItem τ] (memory : Nat) :
    Bounded memory held (watch : Bytes → Checksum → Watched CorruptState (Snapshot τ))
      fun bytes checksum => deserialize bytes checksum memory := by
  have hdecode := (decodesBounded (String × List τ) memory).bounded (frameKind τ)
  constructor
  · intro bytes checksum
    exact mapError_result_watch
  · intro bytes checksum
    exact contained_watch
  · intro bytes checksum crash
    rw [← mapError_result_watch]
    apply ends_iff endsForText_watch
    intro crash' hresult
    rw [result_watch, bind_eq_error] at hresult
    obtain hparse | ⟨parts, -, hparts⟩ := hresult
    · exact parse_ne_outOfMemory crash' hparse
    · obtain ⟨key, ⟨⟩⟩ := ofParts_eq_error hparts
  · intro bytes checksum s h
    exact size_le_builds h
  · intro bytes checksum n h
    have hread : decode (frameKind τ) read bytes checksum memory = .error (.trailingBytes n) :=
      deserialize_eq_error (fun _ => CorruptState.noConfusion) h
    have hresult : (Frame.watch (frameKind τ).name (script : Script (String × List τ)) bytes
        checksum).result = .error (.trailingBytes n) := by
      rw [Frame.result_watch, run_script]
      exact parse_eq_error_of_decode (fun _ => CorruptState.noConfusion) hread
    rw [watch, Watched.bind_error hresult]
    exact hdecode.trailing bytes checksum n hread
  · intro bytes checksum s h
    obtain ⟨parts, hparts, hindex⟩ := exists_parts h
    obtain ⟨header, surplus, data, hbytes, hheader, hdata, hmore⟩ :=
      hdecode.decided bytes checksum parts hparts
    have hresult : (Frame.watch (frameKind τ).name (script : Script (String × List τ)) bytes
        checksum).result = .ok parts := by
      rw [Frame.result_watch, run_script]
      exact decode_eq_ok.1 hparts
    rw [deserialize_eq_read, hparts] at h
    rw [log_watch hresult]
    refine ⟨header, surplus, data, hbytes, ?_, ?_, fun surplus' more hwidth => ?_⟩
    · rw [seen_append, Script.seen_of_nil, hheader, Nat.add_zero]
    · rw [seen_append, Script.seen_of_nil, hdata, Nat.add_zero]
    · have hdecoded := hmore surplus' more hwidth
      dsimp only at hdecoded ⊢
      rw [deserialize_eq_read, hdecoded]
      split
      · rfl
      split
      · exact h
      · rfl

end Snapshot

/-- What is said of making states of items. -/
structure LoadsBounded (τ : Type) [Item τ] [Format τ] [ScriptedItem τ] (memory : Nat) : Prop where
  parts : DecodesBounded (String × List τ) memory
  snapshot : Bounded memory held (Snapshot.watch : Bytes → Checksum → Watched CorruptState (Snapshot τ))
    fun bytes checksum => Snapshot.deserialize bytes checksum memory
  /-- A snapshot inside a larger state. -/
  inner : DecodesBounded (Snapshot τ) memory
  whole : DecodesBounded (SourceSet τ) memory
  sourceSet : Bounded memory held
    (Frame.watch (SourceSet.frameKind τ).name (script : Script (SourceSet τ)))
    fun bytes checksum => SourceSet.deserialize bytes checksum memory

theorem loadsBounded (τ : Type) [Item τ] [Format τ] [ScriptedItem τ] (memory : Nat) :
    LoadsBounded τ memory where
  parts := decodesBounded _ memory
  snapshot := Snapshot.bounded_deserialize τ memory
  inner := decodesBounded _ memory
  whole := decodesBounded _ memory
  sourceSet := (decodesBounded _ memory).bounded (SourceSet.frameKind τ)

/-- Of all types that are persisted, whatever the bytes are and however much memory there is. -/
theorem decoding_is_bounded (memory : Nat) :
    DecodesBounded (List String) memory ∧ DecodesBounded (List UInt64) memory ∧
      LoadsBounded FileItem memory ∧ LoadsBounded KeyItem memory :=
  ⟨decodesBounded _ memory, decodesBounded _ memory, loadsBounded _ memory, loadsBounded _ memory⟩

/-- A list that says that it is longer than any can be is read as far as there are bytes. -/
example : (script : Script (List UInt64)).watch .payload 0 (253 :: List.replicate 8 255 ++ [7]) =
    ⟨[.look .payload 0 1, .look .payload 1 8, .look .payload 9 1, .build], .error (.unexpectedEnd 1)⟩ :=
  rfl

/-- A header of ten bytes, in which the kind says that it is as long as a number of eight bytes can be. -/
def Frame.hostile : Bytes := magic ++ [10, 0, 0, 0, 1, 253] ++ List.replicate 8 255

/-- Nothing is found out about bytes that ask for more than there is room for on any machine. -/
theorem hostile_bytes_end_the_program :
    let texts (kind : Kind) : Except CorruptState (List String) := decode kind read hostile
    let seen (kind : Kind) := watch kind.name (script : Script (List String)) hostile .ofBytes
    hostile.length = 18 ∧ Bytes.addressable < 2 ^ 64 - 1 ∧
      (Kind.ofString? "k").map texts = some (.error (.outOfMemory ⟨2 ^ 64 - 1⟩)) ∧
      ((Kind.ofString? "k").map seen).map Watched.log =
        some [.look .frame 0 4, .look .frame 4 4, .look .frame 8 10, .look .header 8 1,
          .look .header 9 1, .look .header 10 8, .buffer (2 ^ 64 - 1)] := by
  decide +kernel

end BuildDelta
