import BuildDelta.Proofs.Text.Utf8
import Mathlib.Data.String.Basic
/-!
# Texts are in the order of their bytes

Texts are compared character by character, and this is the order that keys are kept in. It is also the
order of the UTF-8 forms, byte by byte (`encode_lt_encode_iff`): the lesser of two characters has the
lesser bytes, whatever follows either of them (`encodeChar_append_lt`), since a longer form starts with a
greater byte.
-/

namespace BuildDelta.Utf8

/-- Two bytes in the order of their numbers, or the same byte twice and in order what follows it. -/
theorem cons_lt_cons {m n : Nat} {bs bs' : Bytes} (hn : n < 256) (hle : m ≤ n)
    (hrest : m = n → bs < bs') : UInt8.ofNat m :: bs < UInt8.ofNat n :: bs' := by
  rw [List.cons_lt_cons_iff]
  rcases Nat.lt_or_eq_of_le hle with hlt | rfl
  · left
    rw [UInt8.lt_iff_toNat_lt, UInt8.toNat_ofNat', UInt8.toNat_ofNat']
    omega
  · exact .inr ⟨rfl, hrest rfl⟩

theorem encodeChar_append_lt {c d : Char} (h : c < d) (bs bs' : Bytes) :
    String.utf8EncodeChar c ++ bs < String.utf8EncodeChar d ++ bs' := by
  have hnumber : c.toNat < d.toNat := h
  have hbound : d.toNat < 0x110000 := by
    have hvalid : d.toNat < 0xD800 ∨ (0xDFFF < d.toNat ∧ d.toNat < 0x110000) := d.valid
    omega
  unfold String.utf8EncodeChar
  simp only [Char.toNat_val]
  generalize c.toNat = m at hnumber
  generalize d.toNat = n at hnumber hbound
  -- forms of different lengths differ in their first byte, so only equal lengths go on to the next one
  split
  · split_ifs <;> exact cons_lt_cons (by omega) (by omega) (by omega)
  split
  · split_ifs
    · omega
    · exact cons_lt_cons (by omega) (by omega) fun _ => cons_lt_cons (by omega) (by omega) (by omega)
    · exact cons_lt_cons (by omega) (by omega) (by omega)
    · exact cons_lt_cons (by omega) (by omega) (by omega)
  split
  · split_ifs
    · omega
    · omega
    · exact cons_lt_cons (by omega) (by omega) fun _ => cons_lt_cons (by omega) (by omega) fun _ =>
        cons_lt_cons (by omega) (by omega) (by omega)
    · exact cons_lt_cons (by omega) (by omega) (by omega)
  · split_ifs
    · omega
    · omega
    · omega
    · exact cons_lt_cons (by omega) (by omega) fun _ => cons_lt_cons (by omega) (by omega) fun _ =>
        cons_lt_cons (by omega) (by omega) fun _ => cons_lt_cons (by omega) (by omega) (by omega)

theorem encodeChars_lt_encodeChars {cs ds : List Char} (h : cs < ds) :
    encodeChars cs < encodeChars ds := by
  induction h with
  | @nil d ds =>
    obtain ⟨a, as, hencode, -⟩ := next_encodeChar d
    rw [encodeChars, encodeChars, List.flatMap_nil, List.flatMap_cons, hencode]
    exact List.nil_lt_cons _ _
  | @cons c cs ds _ ih =>
    rw [encodeChars, encodeChars, List.flatMap_cons, List.flatMap_cons]
    exact List.append_left_lt ih
  | @rel c cs d ds hlt =>
    rw [encodeChars, encodeChars, List.flatMap_cons, List.flatMap_cons]
    exact encodeChar_append_lt hlt _ _

theorem encode_lt_encode_iff {s t : String} : encode s < encode t ↔ s < t := by
  have hforward : ∀ {s t : String}, s < t → encode s < encode t := fun h =>
    encodeChars_lt_encodeChars (String.lt_iff.1 h)
  constructor
  · intro h
    rcases lt_trichotomy s t with hlt | rfl | hgt
    · exact hlt
    · exact absurd h (List.lt_irrefl _)
    · exact absurd h (List.lt_asymm (hforward hgt))
  · exact hforward

end BuildDelta.Utf8

namespace BuildDelta.Text

/-! What sorting asks of an order. -/

theorem decide_le_trans (s t u : String) (h : decide (s ≤ t) = true) (h' : decide (t ≤ u) = true) :
    decide (s ≤ u) = true :=
  decide_eq_true (le_trans (of_decide_eq_true h) (of_decide_eq_true h'))

theorem decide_le_total (s t : String) : (decide (s ≤ t) || decide (t ≤ s)) = true := by
  simpa using le_total s t

end BuildDelta.Text
