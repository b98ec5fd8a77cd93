import BuildDelta.Json.Scan
/-!
# A written text is cut into its tokens

Tokens are told apart in their text if none is foreign and no number stands right before another, whether
there are blanks between them or not (`scan_spaced`). So both layouts are cut into what they were made of
(`scan_compact`, `scan_indented`). The tokens of a value are like that (`IsValue.legible`): in it there is a
mark between any two numbers.
-/

namespace BuildDelta.Json

/-- Tokens of this library, no number right before another. -/
def Legible : List Token → Prop
  | [] => True
  | t :: ts => (∀ f, t ≠ .foreign f) ∧ (∀ n m, t = .natural n → ts.head? ≠ some (.natural m)) ∧
      Legible ts

theorem Legible.append {ts us : List Token} (hts : Legible ts) (hus : Legible us)
    (hhead : ∀ n, us.head? ≠ some (.natural n)) : Legible (ts ++ us) := by
  induction ts with
  | nil => exact hus
  | cons t ts ih =>
    obtain ⟨hown, hnext, hts⟩ := hts
    refine ⟨hown, fun n m hn => ?_, ih hts⟩
    cases ts with
    | nil => exact hhead m
    | cons u ts => exact hnext n m hn

section Write

theorem isDigit_of_mem_toDigits {n : Nat} {c : Char} (h : c ∈ Nat.toDigits 10 n) : c.isDigit = true :=
  Nat.isDigit_of_mem_toDigits (by decide) (by decide) h

/-- Only the number zero starts with a zero. -/
theorem eq_zero_of_head?_toDigits {n : Nat} (h : (Nat.toDigits 10 n).head? = some '0') : n = 0 := by
  induction n using Nat.strongRecOn with
  | ind n ih =>
    rw [Nat.toDigits_eq_if (by decide)] at h
    split at h
    · rename_i hsmall
      have hdigit : ∀ n < 10, Nat.digitChar n = '0' → n = 0 := by decide
      exact hdigit n hsmall (Option.some.inj h)
    · rename_i hlarge
      obtain ⟨c, cs, hcs⟩ := List.exists_cons_of_ne_nil (Nat.toDigits_ne_nil (b := 10) (n := n / 10))
      rw [hcs] at h
      have hzero := ih (n / 10) (by omega) (by rw [hcs]; exact h)
      omega

theorem scanText_escape (cs rest : List Char) : ∃ pieces,
    scanText (cs.flatMap escape ++ '"' :: rest) = some (pieces, rest) ∧ joinPieces pieces = some cs := by
  induction cs with
  | nil => exact ⟨[], by rw [List.flatMap_nil, List.nil_append, scanText], by rw [joinPieces]⟩
  | cons c cs ih =>
    obtain ⟨pieces, hscan, hjoin⟩ := ih
    obtain ⟨piece, hpiece, hstands⟩ := exists_piece c
    refine ⟨piece :: pieces, ?_, ?_⟩
    · rw [List.flatMap_cons, List.append_assoc, hpiece, hscan]
      rfl
    · rw [hstands, hjoin]
      rfl

/-- What can stand right behind a number. -/
def EndsNumber (rest : List Char) : Prop :=
  ∀ c, rest.head? = some c → c.isDigit = false ∧ c ≠ '.' ∧ c ≠ 'e' ∧ c ≠ 'E'

variable {t : Token} {rest : List Char}

theorem scanOne_write (hown : ∀ f, t ≠ .foreign f) (hrest : ∀ n, t = .natural n → EndsNumber rest) :
    scanOne (t.write ++ rest) = some (t, rest) := by
  cases t with
  | openObject | closeObject | openArray | closeArray | comma | colon | null => rfl
  | boolean b => cases b <;> rfl
  | foreign f => exact absurd rfl (hown f)
  | text s =>
    obtain ⟨pieces, hscan, hjoin⟩ := scanText_escape s.toList rest
    have hwrite : Token.write (.text s) ++ rest = '"' :: (s.toList.flatMap escape ++ '"' :: rest) := by
      simp [Token.write]
    rw [hwrite, scanOne, hscan, Option.map_some]
    simp only [textToken, hjoin, String.ofList_toList]
  | natural n =>
    have hdigits : ∀ c ∈ Nat.toDigits 10 n, c.isDigit = true := fun c => isDigit_of_mem_toDigits
    have hzero : (Nat.toDigits 10 n).head? = some '0' → (Nat.toDigits 10 n).length = 1 := by
      intro hhead
      rw [eq_zero_of_head?_toDigits hhead]
      rfl
    have hscan := scanNumber_append Nat.toDigits_ne_nil hdigits hzero (hrest n rfl)
    rw [Nat.ofDigitChars_ten_toDigits] at hscan
    obtain ⟨c, cs, hcs⟩ := List.exists_cons_of_ne_nil (Nat.toDigits_ne_nil (b := 10) (n := n))
    rw [Token.write, ← hscan, hcs]
    exact scanOne_of_isDigit (hdigits c (by simp [hcs])) _

/-- A token starts with no blank, and it ends a number in front of it if it is none itself. -/
theorem exists_write_eq_cons (hown : ∀ f, t ≠ .foreign f) : ∃ c cs, t.write = c :: cs ∧
    isBlank c = false ∧ ((∀ n, t ≠ .natural n) → EndsNumber [c]) := by
  have hends : ∀ c : Char, (c.isDigit || c = '.' || c = 'e' || c = 'E') = false → EndsNumber [c] := by
    intro c hc d hd
    obtain rfl := Option.some.inj hd
    simpa [and_assoc] using hc
  cases t with
  | openObject | closeObject | openArray | closeArray | comma | colon | null =>
    exact ⟨_, _, rfl, by decide, fun _ => hends _ (by decide)⟩
  | boolean b => cases b <;> exact ⟨_, _, rfl, by decide, fun _ => hends _ (by decide)⟩
  | text s => exact ⟨_, _, rfl, by decide, fun _ => hends _ (by decide)⟩
  | foreign f => exact absurd rfl (hown f)
  | natural n =>
    obtain ⟨c, cs, hcs⟩ := List.exists_cons_of_ne_nil (Nat.toDigits_ne_nil (b := 10) (n := n))
    refine ⟨c, cs, hcs, ?_, fun hn => absurd rfl (hn n)⟩
    have hdigit : c.isDigit = true := isDigit_of_mem_toDigits (n := n) (by simp [hcs])
    cases hblank : isBlank c with
    | false => rfl
    | true =>
      simp only [isBlank, Bool.or_eq_true, decide_eq_true_eq] at hblank
      rcases hblank with ((rfl | rfl) | rfl) | rfl <;> exact absurd hdigit (by decide)

end Write

/-- Tokens in their order, any of them with blanks in front of it, and blanks at the end. -/
inductive Spaced : List Token → List Char → Prop
  | nil {gap : List Char} (hgap : ∀ c ∈ gap, isBlank c = true) : Spaced [] gap
  | cons {gap cs : List Char} {t : Token} {ts : List Token} (hgap : ∀ c ∈ gap, isBlank c = true)
    (h : Spaced ts cs) : Spaced (t :: ts) (gap ++ (t.write ++ cs))

section Spaced

variable {ts : List Token} {cs : List Char}

theorem Spaced.behind {t : Token} (h : Spaced ts cs) : Spaced (t :: ts) (t.write ++ cs) :=
  .cons (List.forall_mem_nil _) h

theorem Spaced.indent {gap : List Char} (hgap : ∀ c ∈ gap, isBlank c = true) (h : Spaced ts cs) :
    Spaced ts (gap ++ cs) := by
  cases h with
  | nil hblank =>
    apply Spaced.nil
    intro c hc
    exact (List.mem_append.1 hc).elim (hgap c) (hblank c)
  | cons hblank h =>
    rw [← List.append_assoc]
    refine .cons (fun c hc => ?_) h
    exact (List.mem_append.1 hc).elim (hgap c) (hblank c)

theorem endsNumber_of_isBlank {c : Char} (h : isBlank c = true) : EndsNumber (c :: cs) := by
  intro d hd
  obtain rfl := Option.some.inj hd
  simp only [isBlank, Bool.or_eq_true, decide_eq_true_eq] at h
  rcases h with ((rfl | rfl) | rfl) | rfl <;> decide

theorem Spaced.endsNumber (hcs : Spaced ts cs) (h : Legible ts)
    (hhead : ∀ n, ts.head? ≠ some (.natural n)) : EndsNumber cs := by
  cases hcs with
  | nil hgap =>
    cases cs with
    | nil => exact nofun
    | cons c cs => exact endsNumber_of_isBlank (hgap c List.mem_cons_self)
  | @cons gap _ t _ hgap _ =>
    cases gap with
    | cons c gap => exact endsNumber_of_isBlank (hgap c List.mem_cons_self)
    | nil =>
      obtain ⟨c, cs, hcs, -, hends⟩ := exists_write_eq_cons h.1
      rw [List.nil_append, hcs, List.cons_append]
      intro d hd
      refine hends (fun n hn => hhead n ?_) d hd
      rw [hn, List.head?_cons]

theorem scanUpTo_spaced (h : Legible ts) (hcs : Spaced ts cs) {fuel : Nat} (hfuel : ts.length ≤ fuel) :
    scanUpTo fuel cs = ts := by
  induction hcs generalizing fuel with
  | @nil gap hgap =>
    cases fuel with
    | zero => rfl
    | succ fuel => rw [scanUpTo, ← List.append_nil gap, List.dropWhile_append_of_pos hgap, List.dropWhile_nil]
  | @cons gap cs t ts hgap hcs ih =>
    cases fuel with
    | zero => cases hfuel
    | succ fuel =>
      obtain ⟨hown, hnext, hts⟩ := h
      obtain ⟨c, written, hwrite, hblank, -⟩ := exists_write_eq_cons hown
      have hone := scanOne_write hown fun n hn => hcs.endsNumber hts (fun m => hnext n m hn)
      rw [hwrite, List.cons_append] at hone
      rw [scanUpTo, List.dropWhile_append_of_pos hgap, hwrite, List.cons_append,
        List.dropWhile_cons_of_neg (by simp [hblank])]
      simp only [hone, ih hts (Nat.le_of_succ_le_succ hfuel)]

theorem Spaced.length_le (hcs : Spaced ts cs) (h : Legible ts) : ts.length ≤ cs.length := by
  induction hcs with
  | nil => exact Nat.zero_le _
  | cons hgap hcs ih =>
    obtain ⟨hown, -, hts⟩ := h
    obtain ⟨c, written, hwrite, -⟩ := exists_write_eq_cons hown
    have hlength := ih hts
    rw [hwrite]
    simp only [List.length_append, List.length_cons]
    omega

theorem scan_spaced (h : Legible ts) (hcs : Spaced ts cs) : scan (String.ofList cs) = ts := by
  rw [scan, String.toList_ofList]
  exact scanUpTo_spaced h hcs (hcs.length_le h)

theorem scan_compact (h : Legible ts) : scan (compact ts) = ts := by
  have hcompact : ∀ us : List Token, Spaced us (us.flatMap Token.write) := by
    intro us
    induction us with
    | nil => exact .nil nofun
    | cons t us ih => exact ih.behind
  exact scan_spaced h (hcompact ts)

theorem spaced_layOut (depth : Nat) (ts : List Token) : Spaced ts (layOut depth ts) := by
  have hbreak : ∀ depth, ∀ c ∈ lineBreak depth, isBlank c = true := by
    intro depth c hc
    rcases List.mem_cons.1 hc with rfl | hc
    · rfl
    · rw [List.eq_of_mem_replicate hc]
      rfl
  induction depth, ts using layOut.induct with
  | case1 depth ts ih | case2 depth ts ih => exact ih.behind.behind
  | case3 depth ts hfull ih | case4 depth ts hfull ih =>
    rw [layOut]
    · exact (ih.indent (hbreak _)).behind
    · exact hfull
  | case7 depth ts ih => exact (ih.indent (hbreak _)).behind
  | case5 depth ts ih | case6 depth ts ih => exact ih.behind.indent (hbreak _)
  | case8 depth ts ih =>
    have hblank : ∀ c ∈ [' '], isBlank c = true := List.forall_mem_singleton.2 rfl
    exact (ih.indent hblank).behind
  | case9 depth t ts _ _ _ _ _ _ _ _ ih =>
    rw [layOut]
    · exact ih.behind
    all_goals assumption
  | case10 => exact .nil nofun

theorem scan_indented (h : Legible ts) : scan (indented ts) = ts :=
  scan_spaced h (spaced_layOut 0 ts)

end Spaced

/-- The tokens of a JSON value. -/
inductive IsValue : List Token → Prop
  | text (s : String) : IsValue [.text s]
  | natural (n : Nat) : IsValue [.natural n]
  | boolean (b : Bool) : IsValue [.boolean b]
  | null : IsValue [.null]
  | array {values : List (List Token)} (h : ∀ value ∈ values, IsValue value) : IsValue (array values)
  | object {fields : List (String × List Token)} (h : ∀ f ∈ fields, IsValue f.2) :
    IsValue (object fields)

/-- What follows the first value of an array or the first field of an object. -/
theorem legible_rest {α : Type} {f : α → List Token} {as : List α} (h : ∀ a ∈ as, Legible (f a))
    {last : Token} (hlast : last = .closeArray ∨ last = .closeObject) :
    Legible (as.flatMap (fun a => .comma :: f a) ++ [last]) ∧
      ∀ n, (as.flatMap (fun a => .comma :: f a) ++ [last]).head? ≠ some (.natural n) := by
  induction as with
  | nil => rcases hlast with rfl | rfl <;> simp [Legible]
  | cons a as ih =>
    obtain ⟨hrest, hhead⟩ := ih fun b hb => h b (List.mem_cons_of_mem a hb)
    rw [List.flatMap_cons, List.append_assoc]
    refine ⟨⟨by simp, by simp, ?_⟩, by simp⟩
    exact (h a List.mem_cons_self).append hrest hhead

theorem IsValue.legible {ts : List Token} (h : IsValue ts) : Legible ts := by
  induction h with
  | text | natural | boolean | null => simp [Legible]
  | @array values _ ih =>
    cases values with
    | nil => simp [Json.array, Legible]
    | cons value values =>
      obtain ⟨hfirst, hnext⟩ := List.forall_mem_cons.1 ih
      obtain ⟨hrest, hhead⟩ := legible_rest (f := id) hnext (.inl rfl)
      have hvalues := hfirst.append hrest hhead
      rw [← List.append_assoc] at hvalues
      exact ⟨nofun, nofun, hvalues⟩
  | @object fields _ ih =>
    cases fields with
    | nil => simp [Json.object, Legible]
    | cons field fields =>
      have hfields : ∀ f ∈ field :: fields, Legible (.text f.1 :: .colon :: f.2) := by
        intro f hf
        simpa [Legible] using ih f hf
      obtain ⟨hfirst, hnext⟩ := List.forall_mem_cons.1 hfields
      obtain ⟨hrest, hhead⟩ := legible_rest hnext (.inr rfl)
      have hvalues := hfirst.append hrest hhead
      rw [← List.append_assoc] at hvalues
      exact ⟨nofun, nofun, hvalues⟩

end BuildDelta.Json
