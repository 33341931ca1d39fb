import HermesGateway.Library.Lines

/-!
# Reading integers

`intOf` is Python's `int(text)` of a text without blanks around it: an optional sign and decimal
digits of any script, with single underscores between them, as many digits as `maxIntDigits` allows.

## Main results

* `intOf_toDigits` — a number is read back from its digits
* `toDigits_append_inj` — a number and what follows it can be told apart
-/

/-- The zeros of the scripts that have decimal digits; the other nine digits follow each of them. -/
def decimalZeros : List ℕ :=
  [0x0030, 0x0660, 0x06F0, 0x07C0, 0x0966, 0x09E6, 0x0A66, 0x0AE6, 0x0B66, 0x0BE6, 0x0C66, 0x0CE6,
    0x0D66, 0x0DE6, 0x0E50, 0x0ED0, 0x0F20, 0x1040, 0x1090, 0x17E0, 0x1810, 0x1946, 0x19D0, 0x1A80,
    0x1A90, 0x1B50, 0x1BB0, 0x1C40, 0x1C50, 0xA620, 0xA8D0, 0xA900, 0xA9D0, 0xA9F0, 0xAA50, 0xABF0,
    0xFF10, 0x104A0, 0x10D30, 0x11066, 0x110F0, 0x11136, 0x111D0, 0x112F0, 0x11450, 0x114D0,
    0x11650, 0x116C0, 0x11730, 0x118E0, 0x11950, 0x11C50, 0x11D50, 0x11DA0, 0x16A60, 0x16AC0,
    0x16B50, 0x1D7CE, 0x1D7D8, 0x1D7E2, 0x1D7EC, 0x1D7F6, 0x1E140, 0x1E2F0, 0x1E950, 0x1FBF0]

/-- The value of a decimal digit. -/
def decimalValue (c : Char) : Option ℕ :=
  (decimalZeros.find? fun z => z ≤ c.toNat ∧ c.toNat < z + 10).map fun z => c.toNat - z

/-- Digits with single underscores between them. -/
def decimals : List Char → Option (List ℕ)
  | [] => none
  | c :: rest =>
    match decimalValue c with
    | none => none
    | some d =>
      match rest with
      | [] => some [d]
      | '_' :: rest => (decimals rest).map (d :: ·)
      | c :: rest => (decimals (c :: rest)).map (d :: ·)

/-- `int(text)`. -/
def intOf (s : List Char) : Option ℤ :=
  let body := if s.head? = some '-' ∨ s.head? = some '+' then s.tail else s
  match decimals body with
  | none => none
  | some ds =>
    if ds.length ≤ Json.maxIntDigits then
      let n : ℕ := ds.foldl (fun n d => 10 * n + d) 0
      some (if s.head? = some '-' then -(n : ℤ) else n)
    else none

theorem decimalValue_digit {c : Char} (h : c.isDigit = true) :
    decimalValue c = some (c.toNat - 48) := by
  have hc : 48 ≤ c.toNat ∧ c.toNat < 48 + 10 := by
    simp only [Char.isDigit, Bool.and_eq_true, decide_eq_true_eq, UInt32.le_iff_toNat_le] at h
    exact ⟨h.1, Nat.lt_succ_of_le h.2⟩
  rw [decimalValue, decimalZeros, List.find?_cons_of_pos (by simpa using hc)]
  rfl

/-- A text of digits is read digit by digit. -/
theorem decimals_digits : ∀ {cs : List Char}, cs ≠ [] → (∀ c ∈ cs, c.isDigit = true) →
    decimals cs = some (cs.map fun c => c.toNat - 48)
  | [], h, _ => absurd rfl h
  | [c], _, h => by simp [decimals, decimalValue_digit (h c (by simp))]
  | c :: c' :: cs, _, h => by
    have ih := @decimals_digits (c' :: cs) (by simp) fun d hd => h d (List.mem_cons_of_mem c hd)
    rw [decimals, decimalValue_digit (h c (by simp))]
    have hne : c' ≠ '_' := by
      rintro rfl
      exact absurd (h '_' (by simp)) (by decide)
    simp only
    rw [ih]
    rfl

/-- A number is read back from its digits. -/
theorem intOf_toDigits {n : ℕ} (h : (Nat.toDigits 10 n).length ≤ Json.maxIntDigits) :
    intOf (Nat.toDigits 10 n) = some (n : ℤ) := by
  have hdigit := Json.isDigit_toDigits n
  have hsign : ∀ c : Char, c.isDigit = false → (Nat.toDigits 10 n).head? ≠ some c := by
    intro c hc hhead
    rw [hdigit c (List.mem_of_head? hhead)] at hc
    cases hc
  rw [intOf, if_neg (not_or.mpr ⟨hsign '-' rfl, hsign '+' rfl⟩),
    decimals_digits Nat.toDigits_ne_nil hdigit]
  simp only [List.length_map, if_pos h, if_neg (hsign '-' rfl)]
  rw [List.foldl_map]
  exact congrArg (fun n : ℕ => some (n : ℤ)) (Nat.ofDigitChars_toDigits (by decide) (by decide))

/-- A number ends where the first character stands that is no digit. -/
theorem toDigits_append_inj {m n : ℕ} {c : Char} (hc : c.isDigit = false) {xs ys : List Char}
    (h : Nat.toDigits 10 m ++ c :: xs = Nat.toDigits 10 n ++ c :: ys) : m = n ∧ xs = ys := by
  have hdigits : ∀ (n : ℕ) (xs : List Char),
      (Nat.toDigits 10 n ++ c :: xs).takeWhile Char.isDigit = Nat.toDigits 10 n := by
    intro n xs
    rw [List.takeWhile_append_of_pos (Json.isDigit_toDigits n),
      List.takeWhile_cons_of_neg (by simp [hc]),
      List.append_nil]
  have heq : Nat.toDigits 10 m = Nat.toDigits 10 n := by rw [← hdigits m xs, h, hdigits n ys]
  have hnumber := congrArg (Nat.ofDigitChars 10 · 0) heq
  simp only [Nat.ofDigitChars_ten_toDigits] at hnumber
  rw [heq] at h
  exact ⟨hnumber, (List.cons.inj (List.append_cancel_left h)).2⟩
