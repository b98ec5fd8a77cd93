import BuildDelta.Text.Utf8
/-!
# Written texts are read back

Each character is written as bytes that `next` takes off again as one piece, whatever follows them
(`next_encodeChar`); with that, decoding undoes encoding (`decode_encode`). A text is at most as long
as the bytes it was read from, and no character takes more than four bytes.
-/

namespace BuildDelta.Utf8

/-- The numbers that characters have. -/
private theorem toNat_valid (c : Char) :
    c.toNat < 0xD800 ∨ (0xDFFF < c.toNat ∧ c.toNat < 0x110000) :=
  c.valid

private theorem lead_pair {n : Nat} (hlow : 0x80 ≤ n) (hhigh : n ≤ 0x7FF) :
    Lead.of (n / 64 + 0xC0) = .pair := by
  unfold Lead.of
  repeat' split
  all_goals first | rfl | omega

/-- The range of the second byte excludes what has a shorter form, and surrogates. -/
private theorem lead_triple {n : Nat} (hlow : 0x800 ≤ n) (hhigh : n ≤ 0xFFFF)
    (hvalid : n < 0xD800 ∨ 0xDFFF < n) :
    ∃ low high, Lead.of (n / 4096 + 0xE0) = .triple low high ∧
      low ≤ n / 64 % 64 + 0x80 ∧ n / 64 % 64 + 0x80 ≤ high := by
  unfold Lead.of
  repeat' split
  all_goals first | omega | exact ⟨_, _, rfl, by omega, by omega⟩

private theorem lead_quad {n : Nat} (hlow : 0x10000 ≤ n) (hhigh : n < 0x110000) :
    ∃ low high, Lead.of (n / 262144 + 0xF0) = .quad low high ∧
      low ≤ n / 4096 % 64 + 0x80 ∧ n / 4096 % 64 + 0x80 ≤ high := by
  unfold Lead.of
  repeat' split
  all_goals first | omega | exact ⟨_, _, rfl, by omega, by omega⟩

private theorem toNat_byte {n : Nat} (h : n < 256) : (UInt8.ofNat n).toNat = n := by
  rw [UInt8.toNat_ofNat']
  exact Nat.mod_eq_of_lt h

private theorem isTail_byte {low high n : Nat} (hlow : low ≤ n) (hhigh : n ≤ high) (h : n < 256) :
    isTail low high (UInt8.ofNat n) = true := by
  simp [isTail, toNat_byte h, hlow, hhigh]

private theorem next_single {n : Nat} (h : n ≤ 0x7F) (rest : Bytes) :
    next (UInt8.ofNat n) rest = (.char (Char.ofNat n), rest) := by
  have hlead : Lead.of n = .single := by
    rw [Lead.of, if_pos (by omega)]
  unfold next
  rw [toNat_byte (by omega), hlead]

private theorem next_pair {n : Nat} (hlow : 0x80 ≤ n) (hhigh : n ≤ 0x7FF) (rest : Bytes) :
    next (UInt8.ofNat (n / 64 + 0xC0)) (UInt8.ofNat (n % 64 + 0x80) :: rest) =
      (.char (Char.ofNat n), rest) := by
  have hb : isTail 0x80 0xBF (UInt8.ofNat (n % 64 + 0x80)) = true :=
    isTail_byte (by omega) (by omega) (by omega)
  have hsum : (n / 64 + 0xC0 - 0xC0) * 64 + (n % 64 + 0x80 - 0x80) = n := by omega
  unfold next
  rw [toNat_byte (by omega), lead_pair hlow hhigh]
  simp only [hb, if_true]
  rw [toNat_byte (by omega), hsum]

private theorem next_triple {n : Nat} (hlow : 0x800 ≤ n) (hhigh : n ≤ 0xFFFF)
    (hvalid : n < 0xD800 ∨ 0xDFFF < n) (rest : Bytes) :
    next (UInt8.ofNat (n / 4096 + 0xE0))
        (UInt8.ofNat (n / 64 % 64 + 0x80) :: UInt8.ofNat (n % 64 + 0x80) :: rest) =
      (.char (Char.ofNat n), rest) := by
  obtain ⟨low, high, hlead, hbl, hbh⟩ := lead_triple hlow hhigh hvalid
  have hb : isTail low high (UInt8.ofNat (n / 64 % 64 + 0x80)) = true :=
    isTail_byte hbl hbh (by omega)
  have hc : isTail 0x80 0xBF (UInt8.ofNat (n % 64 + 0x80)) = true :=
    isTail_byte (by omega) (by omega) (by omega)
  have hsum : (n / 4096 + 0xE0 - 0xE0) * 4096 + (n / 64 % 64 + 0x80 - 0x80) * 64 +
      (n % 64 + 0x80 - 0x80) = n := by omega
  unfold next
  rw [toNat_byte (by omega), hlead]
  simp only [hb, hc, if_true]
  rw [toNat_byte (by omega), toNat_byte (by omega), hsum]

private theorem next_quad {n : Nat} (hlow : 0x10000 ≤ n) (hhigh : n < 0x110000) (rest : Bytes) :
    next (UInt8.ofNat (n / 262144 + 0xF0))
        (UInt8.ofNat (n / 4096 % 64 + 0x80) :: UInt8.ofNat (n / 64 % 64 + 0x80) ::
          UInt8.ofNat (n % 64 + 0x80) :: rest) =
      (.char (Char.ofNat n), rest) := by
  obtain ⟨low, high, hlead, hbl, hbh⟩ := lead_quad hlow hhigh
  have hb : isTail low high (UInt8.ofNat (n / 4096 % 64 + 0x80)) = true :=
    isTail_byte hbl hbh (by omega)
  have hc : isTail 0x80 0xBF (UInt8.ofNat (n / 64 % 64 + 0x80)) = true :=
    isTail_byte (by omega) (by omega) (by omega)
  have hd : isTail 0x80 0xBF (UInt8.ofNat (n % 64 + 0x80)) = true :=
    isTail_byte (by omega) (by omega) (by omega)
  have hsum : (n / 262144 + 0xF0 - 0xF0) * 262144 + (n / 4096 % 64 + 0x80 - 0x80) * 4096 +
      (n / 64 % 64 + 0x80 - 0x80) * 64 + (n % 64 + 0x80 - 0x80) = n := by omega
  unfold next
  rw [toNat_byte (by omega), hlead]
  simp only [hb, hc, hd, if_true]
  rw [toNat_byte (by omega), toNat_byte (by omega), toNat_byte (by omega), hsum]

/-- The bytes of a character are taken off as this character, whatever follows them. -/
theorem next_encodeChar (c : Char) :
    ∃ a as, String.utf8EncodeChar c = a :: as ∧ ∀ rest, next a (as ++ rest) = (.char c, rest) := by
  have hvalid := toNat_valid c
  have hc : Char.ofNat c.toNat = c := Char.ofNat_toNat c
  unfold String.utf8EncodeChar
  simp only [Char.toNat_val]
  generalize c.toNat = n at hvalid hc
  subst hc
  split
  · rename_i h
    exact ⟨_, _, rfl, next_single h⟩
  split
  · rename_i hlow hhigh
    rw [Nat.mod_eq_of_lt (by omega : n / 64 < 0x20)]
    exact ⟨_, _, rfl, next_pair (by omega) hhigh⟩
  split
  · rename_i hlow hhigh
    rw [Nat.mod_eq_of_lt (by omega : n / 4096 < 0x10)]
    exact ⟨_, _, rfl, next_triple (by omega) hhigh (by omega)⟩
  · rw [Nat.mod_eq_of_lt (by omega : n / 262144 < 0x08)]
    exact ⟨_, _, rfl, next_quad (by omega) (by omega)⟩

theorem pieces_encodeChars (cs : List Char) : pieces (encodeChars cs) = cs.map .char := by
  induction cs with
  | nil => simp [encodeChars, pieces]
  | cons c cs ih =>
    obtain ⟨a, as, hencode, hnext⟩ := next_encodeChar c
    have hcons : encodeChars (c :: cs) = a :: (as ++ encodeChars cs) := by
      rw [encodeChars, List.flatMap_cons, hencode]
      rfl
    rw [hcons, pieces, hnext, ih, List.map_cons]

private theorem join_chars (done : Nat) (cs : List Char) : join done (cs.map .char) = .ok cs := by
  induction cs generalizing done with
  | nil => rfl
  | cons c cs ih => rw [List.map_cons, join, ih]; rfl

theorem decode_encode (s : String) : decode (encode s) = .ok s := by
  rw [decode, encode, pieces_encodeChars, join_chars]
  exact congrArg Except.ok String.ofList_toList

/-- Nothing is replaced in what is text. -/
theorem decodeLossy_encode (s : String) : decodeLossy (encode s) = s := by
  rw [decodeLossy, encode, pieces_encodeChars, List.map_map]
  exact (congrArg String.ofList (List.map_id _)).trans String.ofList_toList

theorem encode_injective {s t : String} (h : encode s = encode t) : s = t := by
  have hdecode := decode_encode t
  rw [← h, decode_encode] at hdecode
  exact Except.ok.inj hdecode

theorem encode_append (s t : String) : encode (s ++ t) = encode s ++ encode t := by
  rw [encode, encode, encode, encodeChars, encodeChars, encodeChars, String.toList_append,
    List.flatMap_append]

theorem length_pieces_le (bs : Bytes) : (pieces bs).length ≤ bs.length := by
  fun_induction pieces bs with
  | case1 => simp
  | case2 a rest ih =>
    have hnext := length_next_le a rest
    simp only [List.length_cons]
    omega

theorem length_encodeChars_le (cs : List Char) : (encodeChars cs).length ≤ 4 * cs.length := by
  induction cs with
  | nil => simp [encodeChars]
  | cons c cs ih =>
    have hchar : (String.utf8EncodeChar c).length ≤ 4 := by
      rw [String.length_utf8EncodeChar]
      exact c.utf8Size_le_four
    rw [encodeChars] at ih
    rw [encodeChars, List.flatMap_cons, List.length_append, List.length_cons]
    omega

theorem length_of_join {done : Nat} {ps : List Piece} {cs : List Char}
    (h : join done ps = .ok cs) : cs.length = ps.length := by
  induction ps generalizing done cs with
  | nil =>
    cases h
    rfl
  | cons p ps ih =>
    cases p with
    | damage => cases h
    | char c =>
      rw [join] at h
      cases hjoin : join (done + c.utf8Size) ps with
      | error flaw =>
        rw [hjoin] at h
        cases h
      | ok rest =>
        rw [hjoin] at h
        cases h
        rw [List.length_cons, List.length_cons, ih hjoin]

theorem length_encode_le (s : String) : (encode s).length ≤ 4 * s.toList.length :=
  length_encodeChars_le s.toList

theorem length_decodeLossy_le (bs : Bytes) : (decodeLossy bs).toList.length ≤ bs.length := by
  rw [decodeLossy, String.toList_ofList, List.length_map]
  exact length_pieces_le bs

theorem length_decode?_le {bs : Bytes} {s : String} (h : decode? bs = some s) :
    s.toList.length ≤ bs.length := by
  rw [decode?, decode] at h
  cases hjoin : join 0 (pieces bs) with
  | error flaw =>
    rw [hjoin] at h
    cases h
  | ok cs =>
    rw [hjoin] at h
    cases h
    rw [String.toList_ofList, length_of_join hjoin]
    exact length_pieces_le bs

end BuildDelta.Utf8
