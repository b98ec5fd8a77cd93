import BuildDelta.Proofs.Text.Utf8
/-!
# What is read strictly is the written form

A character that `next` takes off stands there in its own bytes (`next_eq_char`), so a byte string is
read as a text only if it is the UTF-8 form of that text (`decode_eq_ok_iff`), and has no second one.
-/

namespace BuildDelta.Utf8

private theorem ofNat_eq {n : Nat} {b : UInt8} (h : n = b.toNat) : UInt8.ofNat n = b := by
  subst h
  exact UInt8.ofNat_toNat

private theorem toNat_ofNat {n : Nat} (h : n < 0xD800 ∨ (0xDFFF < n ∧ n < 0x110000)) :
    (Char.ofNat n).toNat = n := by
  have hvalid : n.isValidChar := h
  rw [Char.ofNat, dif_pos hvalid]
  rfl

private theorem encode_single {n : Nat} (h : n ≤ 0x7F) :
    String.utf8EncodeChar (Char.ofNat n) = [UInt8.ofNat n] := by
  have hn : (Char.ofNat n).toNat = n := toNat_ofNat (by omega)
  unfold String.utf8EncodeChar
  simp only [Char.toNat_val, hn]
  rw [if_pos h]

private theorem encode_pair {n : Nat} (hlow : 0x80 ≤ n) (hhigh : n ≤ 0x7FF) :
    String.utf8EncodeChar (Char.ofNat n) =
      [UInt8.ofNat (n / 64 + 0xC0), UInt8.ofNat (n % 64 + 0x80)] := by
  have hn : (Char.ofNat n).toNat = n := toNat_ofNat (by omega)
  have hlead : n / 64 % 0x20 = n / 64 := Nat.mod_eq_of_lt (by omega)
  unfold String.utf8EncodeChar
  simp only [Char.toNat_val, hn]
  rw [if_neg (by omega), if_pos hhigh, hlead]

private theorem encode_triple {n : Nat} (hlow : 0x800 ≤ n) (hhigh : n ≤ 0xFFFF)
    (hvalid : n < 0xD800 ∨ 0xDFFF < n) :
    String.utf8EncodeChar (Char.ofNat n) =
      [UInt8.ofNat (n / 4096 + 0xE0), UInt8.ofNat (n / 64 % 64 + 0x80),
        UInt8.ofNat (n % 64 + 0x80)] := by
  have hn : (Char.ofNat n).toNat = n := toNat_ofNat (by omega)
  have hlead : n / 4096 % 0x10 = n / 4096 := Nat.mod_eq_of_lt (by omega)
  unfold String.utf8EncodeChar
  simp only [Char.toNat_val, hn]
  rw [if_neg (by omega), if_neg (by omega), if_pos hhigh, hlead]

private theorem encode_quad {n : Nat} (hlow : 0x10000 ≤ n) (hhigh : n < 0x110000) :
    String.utf8EncodeChar (Char.ofNat n) =
      [UInt8.ofNat (n / 262144 + 0xF0), UInt8.ofNat (n / 4096 % 64 + 0x80),
        UInt8.ofNat (n / 64 % 64 + 0x80), UInt8.ofNat (n % 64 + 0x80)] := by
  have hn : (Char.ofNat n).toNat = n := toNat_ofNat (by omega)
  have hlead : n / 262144 % 0x08 = n / 262144 := Nat.mod_eq_of_lt (by omega)
  unfold String.utf8EncodeChar
  simp only [Char.toNat_val, hn]
  rw [if_neg (by omega), if_neg (by omega), if_neg (by omega), hlead]

private theorem single_of_lead {a : Nat} (h : Lead.of a = .single) : a ≤ 0x7F := by
  unfold Lead.of at h
  repeat' split at h
  all_goals first | omega | cases h

private theorem pair_of_lead {a : Nat} (h : Lead.of a = .pair) : 0xC2 ≤ a ∧ a ≤ 0xDF := by
  unfold Lead.of at h
  repeat' split at h
  all_goals first | omega | cases h

/-- The range of the second byte leaves out what has a shorter form, and surrogates. -/
private theorem triple_of_lead {a low high : Nat} (h : Lead.of a = .triple low high) :
    0xE0 ≤ a ∧ a ≤ 0xEF ∧ 0x80 ≤ low ∧ high ≤ 0xBF ∧ (a = 0xE0 → 0xA0 ≤ low) ∧
      (a = 0xED → high ≤ 0x9F) := by
  unfold Lead.of at h
  repeat' split at h
  all_goals first | (cases h; omega) | cases h

private theorem quad_of_lead {a low high : Nat} (h : Lead.of a = .quad low high) :
    0xF0 ≤ a ∧ a ≤ 0xF4 ∧ 0x80 ≤ low ∧ high ≤ 0xBF ∧ (a = 0xF0 → 0x90 ≤ low) ∧
      (a = 0xF4 → high ≤ 0x8F) := by
  unfold Lead.of at h
  repeat' split at h
  all_goals first | (cases h; omega) | cases h

private theorem bounds_of_isTail {low high : Nat} {b : UInt8} (h : isTail low high b = true) :
    low ≤ b.toNat ∧ b.toNat ≤ high := by
  simpa [isTail] using h

private theorem bytes_of_pair {a b : UInt8} (hlead : Lead.of a.toNat = .pair)
    (hb : isTail 0x80 0xBF b = true) :
    String.utf8EncodeChar (Char.ofNat ((a.toNat - 0xC0) * 64 + (b.toNat - 0x80))) = [a, b] := by
  obtain ⟨hlow, hhigh⟩ := pair_of_lead hlead
  obtain ⟨hbl, hbh⟩ := bounds_of_isTail hb
  rw [encode_pair (by omega) (by omega), ofNat_eq (b := a) (by omega), ofNat_eq (b := b) (by omega)]

private theorem bytes_of_triple {a b c : UInt8} {low high : Nat}
    (hlead : Lead.of a.toNat = .triple low high) (hb : isTail low high b = true)
    (hc : isTail 0x80 0xBF c = true) :
    String.utf8EncodeChar (Char.ofNat
      ((a.toNat - 0xE0) * 4096 + (b.toNat - 0x80) * 64 + (c.toNat - 0x80))) = [a, b, c] := by
  obtain ⟨hal, hah, hlow, hhigh, hshort, hsurrogate⟩ := triple_of_lead hlead
  obtain ⟨hbl, hbh⟩ := bounds_of_isTail hb
  obtain ⟨hcl, hch⟩ := bounds_of_isTail hc
  rw [encode_triple (by omega) (by omega) (by omega), ofNat_eq (b := a) (by omega),
    ofNat_eq (b := b) (by omega), ofNat_eq (b := c) (by omega)]

private theorem bytes_of_quad {a b c d : UInt8} {low high : Nat}
    (hlead : Lead.of a.toNat = .quad low high) (hb : isTail low high b = true)
    (hc : isTail 0x80 0xBF c = true) (hd : isTail 0x80 0xBF d = true) :
    String.utf8EncodeChar (Char.ofNat ((a.toNat - 0xF0) * 262144 + (b.toNat - 0x80) * 4096
      + (c.toNat - 0x80) * 64 + (d.toNat - 0x80))) = [a, b, c, d] := by
  obtain ⟨hal, hah, hlow, hhigh, hshort, hlarge⟩ := quad_of_lead hlead
  obtain ⟨hbl, hbh⟩ := bounds_of_isTail hb
  obtain ⟨hcl, hch⟩ := bounds_of_isTail hc
  obtain ⟨hdl, hdh⟩ := bounds_of_isTail hd
  rw [encode_quad (by omega) (by omega), ofNat_eq (b := a) (by omega), ofNat_eq (b := b) (by omega),
    ofNat_eq (b := c) (by omega), ofNat_eq (b := d) (by omega)]

/-- A character stands in front of what is left in its own bytes. -/
theorem next_eq_char {a : UInt8} {rest rest' : Bytes} {c : Char}
    (h : next a rest = (.char c, rest')) : a :: rest = String.utf8EncodeChar c ++ rest' := by
  unfold next at h
  split at h
  · cases h
  · rename_i hlead
    cases h
    rw [encode_single (single_of_lead hlead), ofNat_eq rfl]
    rfl
  · rename_i hlead
    split at h
    · cases h
    split at h
    · rename_i hb
      obtain ⟨hchar, rfl⟩ := Prod.mk.inj h
      rw [← Piece.char.inj hchar, bytes_of_pair hlead hb]
      rfl
    · cases h
  · rename_i hlead
    split at h
    · cases h
    split at h
    · rename_i hb
      split at h
      · cases h
      split at h
      · rename_i hc
        obtain ⟨hchar, rfl⟩ := Prod.mk.inj h
        rw [← Piece.char.inj hchar, bytes_of_triple hlead hb hc]
        rfl
      · cases h
    · cases h
  · rename_i hlead
    split at h
    · cases h
    split at h
    · rename_i hb
      split at h
      · cases h
      split at h
      · rename_i hc
        split at h
        · cases h
        split at h
        · rename_i hd
          obtain ⟨hchar, rfl⟩ := Prod.mk.inj h
          rw [← Piece.char.inj hchar, bytes_of_quad hlead hb hc hd]
          rfl
        · cases h
      · cases h
    · cases h

theorem encodeChars_of_join {bs : Bytes} {done : Nat} {cs : List Char}
    (h : join done (pieces bs) = .ok cs) : encodeChars cs = bs := by
  fun_induction pieces bs generalizing done cs with
  | case1 =>
    cases h
    rfl
  | case2 a rest ih =>
    cases hnext : next a rest with
    | mk piece rest' =>
      rw [hnext] at h ih
      cases piece with
      | damage => cases h
      | char c =>
        rw [join] at h
        cases hjoin : join (done + c.utf8Size) (pieces rest') with
        | error flaw =>
          rw [hjoin] at h
          cases h
        | ok cs' =>
          rw [hjoin] at h
          cases h
          have hrest : encodeChars cs' = rest' := ih hjoin
          rw [next_eq_char hnext, ← hrest, encodeChars, encodeChars, List.flatMap_cons]

/-- A byte string is read as the text whose form it is, and as no other. -/
theorem decode_eq_ok_iff {bs : Bytes} {s : String} : decode bs = .ok s ↔ encode s = bs := by
  constructor
  · intro h
    rw [decode] at h
    cases hjoin : join 0 (pieces bs) with
    | error flaw =>
      rw [hjoin] at h
      cases h
    | ok cs =>
      rw [hjoin] at h
      cases h
      rw [encode, String.toList_ofList]
      exact encodeChars_of_join hjoin
  · intro h
    subst h
    exact decode_encode s

theorem decode?_eq_some_iff {bs : Bytes} {s : String} : decode? bs = some s ↔ encode s = bs := by
  rw [decode?, ← decode_eq_ok_iff]
  cases decode bs with
  | error flaw =>
    constructor
    · intro h
      cases h
    · intro h
      cases h
  | ok t =>
    constructor
    · intro h
      cases h
      rfl
    · intro h
      cases h
      rfl

end BuildDelta.Utf8
