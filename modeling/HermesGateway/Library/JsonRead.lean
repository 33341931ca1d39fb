import HermesGateway.Library.Json
import Mathlib.Data.List.TakeWhile

/-!
# Reading JSON text

`Json.loads` follows Python's `json.loads` on `str` input: the four JSON blanks, strings that may
not hold a raw control character, `\uXXXX` escapes with surrogate pairs, integers of at most
`maxIntDigits` digits, the three float constants Python adds, and for a key written twice the last
value. A lone surrogate escape is refused, since Lean's characters are Unicode scalars.

The reader is fuelled by the length of its input: every recursive call follows at least one
consumed character.

## Main definitions

* `Json.loads` — the reader

## Main results

* `Json.loads_spaced` — a sound value is read back from its text, `Json.loads_dumps` from the
  compact one
-/

namespace Json

/-! ### Tokens -/

/-- The blanks JSON allows between tokens. -/
def isBlank (c : Char) : Bool := c == ' ' || c == '\t' || c == '\n' || c == '\r'

/-- Drop leading blanks. -/
def skipBlanks (s : List Char) : List Char := s.dropWhile isBlank

/-- The value of a hexadecimal digit. -/
def hexValue (c : Char) : Option ℕ :=
  if 48 ≤ c.toNat ∧ c.toNat ≤ 57 then some (c.toNat - 48)
  else if 97 ≤ c.toNat ∧ c.toNat ≤ 102 then some (c.toNat - 87)
  else if 65 ≤ c.toNat ∧ c.toNat ≤ 70 then some (c.toNat - 55)
  else none

/-- Four hexadecimal digits. -/
def hex4 : List Char → Option (ℕ × List Char)
  | a :: b :: c :: d :: rest =>
    match hexValue a, hexValue b, hexValue c, hexValue d with
    | some a, some b, some c, some d => some (((a * 16 + b) * 16 + c) * 16 + d, rest)
    | _, _, _, _ => none
  | _ => none

/-- The character after `\u`: one unit, or a surrogate pair written as two escapes. -/
def readUnicode (s : List Char) : Option (Char × List Char) :=
  match hex4 s with
  | none => none
  | some (n, rest) =>
    if 0xD800 ≤ n ∧ n < 0xDC00 then
      match rest with
      | '\\' :: 'u' :: rest =>
        match hex4 rest with
        | none => none
        | some (m, rest) =>
          if 0xDC00 ≤ m ∧ m < 0xE000 then
            some (Char.ofNat (0x10000 + (n - 0xD800) * 0x400 + (m - 0xDC00)), rest)
          else none
      | _ => none
    else if 0xDC00 ≤ n ∧ n < 0xE000 then none
    else some (Char.ofNat n, rest)

/-- The character after a backslash, for the one-letter escapes. -/
def shortEscape (c : Char) : Option Char :=
  if c = '\x22' ∨ c = '\\' ∨ c = '/' then some c
  else if c = 'b' then some '\x08'
  else if c = 'f' then some '\x0c'
  else if c = 'n' then some '\n'
  else if c = 'r' then some '\r'
  else if c = 't' then some '\t'
  else none

/-- The character an escape names, after its backslash. -/
def readEscape : List Char → Option (Char × List Char)
  | [] => none
  | c :: rest => if c = 'u' then readUnicode rest else (shortEscape c).map fun e => (e, rest)

/-- The rest of a string literal after its opening quote. -/
def readString : ℕ → List Char → Option (List Char × List Char)
  | 0, _ => none
  | _ + 1, [] => none
  | n + 1, c :: rest =>
    if c = '\x22' then some ([], rest)
    else if c = '\\' then
      match readEscape rest with
      | none => none
      | some (e, rest) => (readString n rest).map fun p => (e :: p.1, p.2)
    else if c.toNat < 32 then none
    else (readString n rest).map fun p => (c :: p.1, p.2)

/-- A fraction, if one starts here. -/
def readFraction : List Char → List Char × List Char
  | '.' :: d :: rest =>
    if d.isDigit then ('.' :: d :: rest.takeWhile Char.isDigit, rest.dropWhile Char.isDigit)
    else ([], '.' :: d :: rest)
  | s => ([], s)

/-- An exponent, if one starts here. -/
def readExponent : List Char → List Char × List Char
  | e :: s :: rest =>
    if e = 'e' ∨ e = 'E' then
      if s.isDigit then
        (e :: s :: rest.takeWhile Char.isDigit, rest.dropWhile Char.isDigit)
      else if (s = '+' ∨ s = '-') ∧ (rest.head?.any Char.isDigit) then
        (e :: s :: rest.takeWhile Char.isDigit, rest.dropWhile Char.isDigit)
      else ([], e :: s :: rest)
    else ([], e :: s :: rest)
  | s => ([], s)

/-- A number whose sign and integer digits have been read. -/
def numberTail (sign digits rest : List Char) : Option (Json × List Char) :=
  let frac := readFraction rest
  let expo := readExponent frac.2
  if frac.1 = [] ∧ expo.1 = [] then
    if digits.length ≤ maxIntDigits then
      let n : ℤ := Nat.ofDigitChars 10 digits 0
      some (.int (if sign = [] then n else -n), expo.2)
    else none
  else some (.float (String.ofList (sign ++ digits ++ frac.1 ++ expo.1)), expo.2)

/-- The integer digits of a number after its sign: a zero alone, or no leading zero. -/
def readDigits (sign : List Char) : List Char → Option (Json × List Char)
  | [] => none
  | c :: rest =>
    if c = '0' then numberTail sign ['0'] rest
    else if c.isDigit then
      numberTail sign (c :: rest.takeWhile Char.isDigit) (rest.dropWhile Char.isDigit)
    else none

/-- The literals that are words. -/
def words : List (List Char × Json) :=
  [("null".toList, .null), ("true".toList, .bool true), ("false".toList, .bool false),
    ("NaN".toList, .float "NaN"), ("Infinity".toList, .float "Infinity"),
    ("-Infinity".toList, .float "-Infinity")]

/-- The first word of the list that starts here. -/
def readWord : List (List Char × Json) → List Char → Option (Json × List Char)
  | [], _ => none
  | (w, v) :: ws, s => if w.isPrefixOf s then some (v, s.drop w.length) else readWord ws s

/-- A word or a number. -/
def readAtom (s : List Char) : Option (Json × List Char) :=
  match readWord words s with
  | some r => some r
  | none =>
    match s with
    | [] => none
    | c :: rest => if c = '-' then readDigits ['-'] rest else readDigits [] s

/-! ### Objects

`dict(pairs)`: a repeated key keeps its first place and takes its last value. -/

/-- `d[key] = value` on an insertion-ordered dictionary. -/
def setKey (key : String) (value : Json) : List (String × Json) → List (String × Json)
  | [] => [(key, value)]
  | (k, v) :: kvs => if k = key then (k, value) :: kvs else (k, v) :: setKey key value kvs

/-- `dict(pairs)`. -/
def dictOf (pairs : List (String × Json)) : List (String × Json) :=
  pairs.foldl (fun d p => setKey p.1 p.2 d) []

/-! ### Values -/

mutual

/-- A value, with no blanks before it. -/
def readValue : ℕ → List Char → Option (Json × List Char)
  | 0, _ => none
  | _ + 1, [] => none
  | n + 1, c :: rest =>
    if c = '\x22' then (readString n rest).map fun p => (.str (String.ofList p.1), p.2)
    else if c = '[' then
      match skipBlanks rest with
      | [] => none
      | d :: rest' =>
        if d = ']' then some (.arr [], rest')
        else (readElems n (d :: rest')).map fun p => (.arr p.1, p.2)
    else if c = '\x7b' then
      match skipBlanks rest with
      | [] => none
      | d :: rest' =>
        if d = '\x7d' then some (.obj [], rest')
        else (readMembers n (d :: rest')).map fun p => (.obj (dictOf p.1), p.2)
    else readAtom (c :: rest)

/-- The elements of an array up to its closing bracket, at least one. -/
def readElems : ℕ → List Char → Option (List Json × List Char)
  | 0, _ => none
  | n + 1, s =>
    match readValue n s with
    | none => none
    | some (x, rest) =>
      match skipBlanks rest with
      | [] => none
      | d :: rest' =>
        if d = ']' then some ([x], rest')
        else if d = ',' then (readElems n (skipBlanks rest')).map fun p => (x :: p.1, p.2)
        else none

/-- The members of an object up to its closing brace, at least one. -/
def readMembers : ℕ → List Char → Option (List (String × Json) × List Char)
  | 0, _ => none
  | _ + 1, [] => none
  | n + 1, q :: s =>
    if q = '\x22' then
      match readString n s with
      | none => none
      | some (k, rest) =>
        match skipBlanks rest with
        | [] => none
        | d :: rest =>
          if d = ':' then
            match readValue n (skipBlanks rest) with
            | none => none
            | some (v, rest) =>
              match skipBlanks rest with
              | [] => none
              | d :: rest' =>
                if d = '\x7d' then some ([(String.ofList k, v)], rest')
                else if d = ',' then
                  (readMembers n (skipBlanks rest')).map fun p =>
                    ((String.ofList k, v) :: p.1, p.2)
                else none
          else none
    else none

end

/-- `json.loads` of a string: one value, blanks around it, and nothing else. -/
def loads (s : List Char) : Option Json :=
  if s.head? = some '\uFEFF' then none
  else
    match readValue (s.length + 1) (skipBlanks s) with
    | none => none
    | some (v, rest) => if skipBlanks rest = [] then some v else none

/-! ### Reading back a string -/

theorem hexValue_digitChar : ∀ n < 16, hexValue (Nat.digitChar n) = some n := by decide

theorem char_ofNat_toNat (c : Char) : Char.ofNat c.toNat = c := Char.ofNat_toNat c

/-- One written character is read back as itself. -/
theorem readString_escapeChar (n : ℕ) (c : Char) (t : List Char) :
    readString (n + 1) (escapeChar c ++ t) = (readString n t).map fun p => (c :: p.1, p.2) := by
  unfold escapeChar
  split_ifs with h1 h2 h3 h4 h5 h6 h7 h8
  · subst h1; simp [readString, readEscape, shortEscape]
  · subst h2; simp [readString, readEscape, shortEscape]
  · subst h3; simp [readString, readEscape, shortEscape]
  · subst h4; simp [readString, readEscape, shortEscape]
  · subst h5; simp [readString, readEscape, shortEscape]
  · subst h6; simp [readString, readEscape, shortEscape]
  · subst h7; simp [readString, readEscape, shortEscape]
  · -- the numeric escape: two hexadecimal digits after `00`
    have hd1 := hexValue_digitChar (c.toNat / 16) (by omega)
    have hd2 := hexValue_digitChar (c.toNat % 16) (by omega)
    have h0 : hexValue '0' = some 0 := by decide
    have hsum : c.toNat / 16 * 16 + c.toNat % 16 = c.toNat := by omega
    have hu : readEscape ('u' :: '0' :: '0' :: Nat.digitChar (c.toNat / 16) ::
        Nat.digitChar (c.toNat % 16) :: t) = some (c, t) := by
      simp only [readEscape, readUnicode, hex4, h0, hd1, hd2, if_true, Nat.zero_mul, Nat.zero_add,
        hsum]
      rw [if_neg (by omega), if_neg (by omega), char_ofNat_toNat]
    simp [readString, hu]
  · simp [readString, h1, h2, h8]

/-- A written string is read back, whatever follows its closing quote. -/
theorem readString_escape (s : List Char) : ∀ (n : ℕ) (rest : List Char), s.length < n →
    readString n (escape s ++ '\x22' :: rest) = some (s, rest) := by
  induction s with
  | nil =>
    intro n rest h
    obtain ⟨m, rfl⟩ : ∃ m, n = m + 1 := ⟨n - 1, by simp at h; omega⟩
    simp [escape, readString]
  | cons c s ih =>
    intro n rest h
    obtain ⟨m, rfl⟩ : ∃ m, n = m + 1 := ⟨n - 1, by simp at h; omega⟩
    have hs : s.length < m := by simpa using h
    have hcons : escape (c :: s) = escapeChar c ++ escape s := rfl
    rw [hcons, List.append_assoc, readString_escapeChar, ih m rest hs]
    rfl

theorem length_le_length_escape (s : List Char) : s.length ≤ (escape s).length := by
  induction s with
  | nil => simp
  | cons c s ih =>
    have hc : 1 ≤ (escapeChar c).length := by
      unfold escapeChar
      split_ifs <;> simp
    simp only [escape, List.flatMap_cons, List.length_append, List.length_cons] at *
    omega

/-! ### Reading back a number -/

/-- What may follow a number without changing it. -/
def Stops (rest : List Char) : Prop :=
  ∀ c ∈ rest.head?, c.isDigit = false ∧ c ≠ '.' ∧ c ≠ 'e' ∧ c ≠ 'E'

theorem stops_cons {c : Char} {rest : List Char}
    (h : c.isDigit = false ∧ c ≠ '.' ∧ c ≠ 'e' ∧ c ≠ 'E') : Stops (c :: rest) := by
  intro d hd
  rw [List.head?_cons, Option.mem_def, Option.some.injEq] at hd
  exact hd ▸ h

theorem readFraction_of_head {rest : List Char} (h : ∀ c ∈ rest.head?, c ≠ '.') :
    readFraction rest = ([], rest) := by
  match rest, h with
  | [], _ => rfl
  | [c], h =>
    have hc := h c rfl
    unfold readFraction
    split <;> simp_all
  | c :: d :: rest, h =>
    have hc := h c rfl
    unfold readFraction
    split <;> simp_all

theorem Stops.readFraction {rest : List Char} (h : Stops rest) :
    readFraction rest = ([], rest) := readFraction_of_head fun c hc => (h c hc).2.1

theorem Stops.readExponent {rest : List Char} (h : Stops rest) :
    readExponent rest = ([], rest) := by
  match rest, h with
  | [], _ => rfl
  | [c], _ => rfl
  | c :: d :: rest, h =>
    have hc := (h c rfl).2.2
    simp [Json.readExponent, hc.1, hc.2]

theorem takeWhile_digits {rest : List Char} (h : ∀ c ∈ rest.head?, c.isDigit = false)
    {ds : List Char} (hds : ∀ c ∈ ds, c.isDigit = true) :
    (ds ++ rest).takeWhile Char.isDigit = ds := by
  rw [List.takeWhile_append_of_pos hds]
  cases rest with
  | nil => simp
  | cons c rest => simp [h c rfl]

theorem dropWhile_digits {rest : List Char} (h : ∀ c ∈ rest.head?, c.isDigit = false)
    {ds : List Char} (hds : ∀ c ∈ ds, c.isDigit = true) :
    (ds ++ rest).dropWhile Char.isDigit = rest := by
  rw [List.dropWhile_append_of_pos hds]
  cases rest with
  | nil => simp
  | cons c rest => simp [h c rfl]

theorem numberTail_of_stops {sign digits rest : List Char} (h : Stops rest)
    (hd : digits.length ≤ maxIntDigits) :
    numberTail sign digits rest =
      some (.int (if sign = [] then (Nat.ofDigitChars 10 digits 0 : ℤ)
        else -(Nat.ofDigitChars 10 digits 0 : ℤ)), rest) := by
  simp [numberTail, h.readFraction, h.readExponent, hd]

theorem isDigit_toDigits (n : ℕ) : ∀ c ∈ Nat.toDigits 10 n, c.isDigit = true := fun _ hc =>
  Nat.isDigit_of_mem_toDigits (by decide) (by decide) hc

/-- The leading digit of a positive number is not zero. -/
theorem head_toDigits_ne_zero (n : ℕ) (hn : 0 < n) : (Nat.toDigits 10 n).head? ≠ some '0' := by
  induction n using Nat.strong_induction_on with
  | _ n ih =>
    rcases Nat.lt_or_ge n 10 with h | h
    · rw [Nat.toDigits_of_lt_base h]
      simp only [List.head?_cons, ne_eq, Option.some.injEq, Nat.digitChar_eq_zero]
      omega
    · rw [Nat.toDigits_of_base_le (by decide) h, List.head?_append_of_ne_nil _ (by simp)]
      exact ih (n / 10) (by omega) (by omega)

/-- The digits of a number are read whole. -/
theorem readDigits_toDigits (sign : List Char) (n : ℕ) {rest : List Char}
    (hr : ∀ c ∈ rest.head?, c.isDigit = false) :
    readDigits sign (Nat.toDigits 10 n ++ rest) = numberTail sign (Nat.toDigits 10 n) rest := by
  rcases Nat.eq_zero_or_pos n with rfl | hn
  · rw [Nat.toDigits_zero, List.singleton_append, readDigits, if_pos rfl]
  · have hdig := isDigit_toDigits n
    have hhead := head_toDigits_ne_zero n hn
    cases hds : Nat.toDigits 10 n with
    | nil => exact absurd hds Nat.toDigits_ne_nil
    | cons c ds =>
      rw [hds] at hdig hhead
      have hc0 : c ≠ '0' := by simpa using hhead
      have hrest : ∀ d ∈ ds, d.isDigit = true := fun d hd => hdig d (List.mem_cons_of_mem _ hd)
      rw [List.cons_append, readDigits, if_neg hc0, if_pos (hdig c (List.mem_cons_self ..)),
        takeWhile_digits hr hrest, dropWhile_digits hr hrest]

theorem readWord_digit {c : Char} (hc : c.isDigit = true) (t : List Char) :
    readWord words (c :: t) = none := by
  have hne : ∀ d : Char, d.isDigit = false → (d == c) = false := by
    intro d hd
    rw [beq_eq_false_iff_ne]
    rintro rfl
    rw [hc] at hd
    exact Bool.noConfusion hd
  simp [words, readWord, List.isPrefixOf, hne]

/-- A number starts with its sign and its digits. -/
theorem readAtom_digits {sign : List Char} (hsign : sign = [] ∨ sign = ['-']) (n : ℕ)
    {rest : List Char} (hr : ∀ c ∈ rest.head?, c.isDigit = false) :
    readAtom (sign ++ (Nat.toDigits 10 n ++ rest)) = numberTail sign (Nat.toDigits 10 n) rest := by
  have hread := readDigits_toDigits sign n hr
  cases hds : Nat.toDigits 10 n with
  | nil => exact absurd hds Nat.toDigits_ne_nil
  | cons c ds =>
    have hc : c.isDigit = true := isDigit_toDigits n c (by rw [hds]; exact List.mem_cons_self ..)
    rw [hds, List.cons_append] at hread
    rcases hsign with rfl | rfl
    · have hminus : c ≠ '-' := by
        rintro rfl
        exact absurd hc (by decide)
      rw [List.nil_append, List.cons_append, readAtom, readWord_digit hc]
      simpa [hminus] using hread
    · have hI : ('I' == c) = false := by
        rw [beq_eq_false_iff_ne]
        rintro rfl
        exact absurd hc (by decide)
      have hword : readWord words ('-' :: c :: (ds ++ rest)) = none := by
        simp [words, readWord, List.isPrefixOf, hI]
      rw [List.cons_append, List.nil_append, List.cons_append, readAtom, hword]
      simpa using hread

theorem readAtom_intText (n : ℤ) {rest : List Char} (hr : Stops rest)
    (hlen : (Nat.toDigits 10 n.natAbs).length ≤ maxIntDigits) :
    readAtom (intText n ++ rest) = some (.int n, rest) := by
  have hval : ∀ m, Nat.ofDigitChars 10 (Nat.toDigits 10 m) 0 = m := fun m =>
    Nat.ofDigitChars_toDigits (by decide) (by decide)
  have hhead : ∀ c ∈ rest.head?, c.isDigit = false := fun c hc => (hr c hc).1
  cases n with
  | ofNat n =>
    have hlen' : (Nat.toDigits 10 n).length ≤ maxIntDigits := hlen
    have hread := readAtom_digits (.inl rfl) n hhead
    rw [numberTail_of_stops hr hlen', hval] at hread
    simpa [intText] using hread
  | negSucc n =>
    have hlen' : (Nat.toDigits 10 (n + 1)).length ≤ maxIntDigits := hlen
    have hread := readAtom_digits (.inr rfl) (n + 1) hhead
    rw [numberTail_of_stops hr hlen', hval] at hread
    simpa [intText, Int.negSucc_eq] using hread

/-- A fraction is read whole. -/
theorem readFraction_frac {frac rest : List Char}
    (hfrac : frac = [] ∨ ∃ ds, Digits ds ∧ frac = '.' :: ds)
    (hr : ∀ c ∈ rest.head?, c.isDigit = false ∧ c ≠ '.') :
    readFraction (frac ++ rest) = (frac, rest) := by
  have hdigit : ∀ c ∈ rest.head?, c.isDigit = false := fun c hc => (hr c hc).1
  rcases hfrac with rfl | ⟨ds, ⟨hne, hds⟩, rfl⟩
  · exact readFraction_of_head fun c hc => (hr c hc).2
  · obtain ⟨d, ds, rfl⟩ := List.exists_cons_of_ne_nil hne
    obtain ⟨hd, hds⟩ := List.forall_mem_cons.mp hds
    rw [List.cons_append, List.cons_append, readFraction, if_pos hd, takeWhile_digits hdigit hds,
      dropWhile_digits hdigit hds]

/-- So is an exponent. -/
theorem readExponent_expo {expo rest : List Char}
    (hexpo : expo = [] ∨ ∃ s ds, (s = '+' ∨ s = '-') ∧ Digits ds ∧ expo = 'e' :: s :: ds)
    (hr : Stops rest) : readExponent (expo ++ rest) = (expo, rest) := by
  have hdigit : ∀ c ∈ rest.head?, c.isDigit = false := fun c hc => (hr c hc).1
  rcases hexpo with rfl | ⟨s, ds, hs, ⟨hne, hds⟩, rfl⟩
  · exact hr.readExponent
  · have hnot : ¬ s.isDigit = true := by rcases hs with rfl | rfl <;> decide
    have hhead : (ds ++ rest).head?.any Char.isDigit = true := by
      obtain ⟨d, ds, rfl⟩ := List.exists_cons_of_ne_nil hne
      simpa using hds d List.mem_cons_self
    rw [List.cons_append, List.cons_append, readExponent, if_pos (.inl rfl), if_neg hnot,
      if_pos ⟨hs, hhead⟩, takeWhile_digits hdigit hds, dropWhile_digits hdigit hds]

/-- A number with a fraction or an exponent is kept as it is written. -/
theorem readAtom_lexeme {cs rest : List Char} (h : Lexeme cs) (hr : Stops rest) :
    readAtom (cs ++ rest) = some (.float (String.ofList cs), rest) := by
  cases h with
  | word hw =>
    simp only [List.mem_cons, List.not_mem_nil, or_false] at hw
    rcases hw with rfl | rfl | rfl <;>
      simp [readAtom, words, readWord, List.isPrefixOf]
  | @number sign frac expo n hsign hfrac hexpo hne =>
    have htail : ∀ c ∈ (expo ++ rest).head?, c.isDigit = false ∧ c ≠ '.' := by
      rcases hexpo with rfl | ⟨s, ds, -, -, rfl⟩
      · exact fun c hc => ⟨(hr c hc).1, (hr c hc).2.1⟩
      · intro c hc
        obtain rfl := Option.some.inj hc
        decide
    have hhead : ∀ c ∈ (frac ++ (expo ++ rest)).head?, c.isDigit = false := by
      rcases hfrac with rfl | ⟨ds, -, rfl⟩
      · exact fun c hc => (htail c hc).1
      · intro c hc
        obtain rfl := Option.some.inj hc
        decide
    have hread := readAtom_digits hsign n hhead
    rw [numberTail, readFraction_frac hfrac htail] at hread
    dsimp only at hread
    rw [readExponent_expo hexpo hr] at hread
    dsimp only at hread
    rw [if_neg hne] at hread
    simpa only [List.append_assoc] using hread

/-! ### Reading back a value -/

section

variable {gap : List Char}

/-- Where a number starts. -/
def NumberStart (c : Char) : Prop :=
  c.isDigit = true ∨ c = '-' ∨ c = 'N' ∨ c = 'I'

theorem NumberStart.plain {c : Char} (h : NumberStart c) :
    isBlank c = false ∧ c ≠ ']' ∧ Printable c ∧ c ≠ '\x22' ∧ c ≠ '[' ∧ c ≠ '\x7b' := by
  rcases h with h | rfl | rfl | rfl
  · refine ⟨?_, ?_, printable_of_isDigit h, ?_, ?_, ?_⟩
    · simp only [isBlank, Bool.or_eq_false_iff, beq_eq_false_iff_ne]
      refine ⟨⟨⟨?_, ?_⟩, ?_⟩, ?_⟩ <;> rintro rfl <;> exact absurd h (by decide)
    all_goals
      rintro rfl
      exact absurd h (by decide)
  all_goals decide

theorem intText_head (n : ℤ) : ∃ c t, intText n = c :: t ∧ NumberStart c := by
  cases n with
  | negSucc n => exact ⟨_, _, rfl, .inr (.inl rfl)⟩
  | ofNat n =>
    cases hds : Nat.toDigits 10 n with
    | nil => exact absurd hds Nat.toDigits_ne_nil
    | cons c ds =>
      exact ⟨c, ds, hds, .inl (isDigit_toDigits n c (by rw [hds]; exact List.mem_cons_self ..))⟩

theorem lexeme_head {cs : List Char} (h : Lexeme cs) : ∃ c t, cs = c :: t ∧ NumberStart c := by
  cases h with
  | word hw =>
    simp only [List.mem_cons, List.not_mem_nil, or_false] at hw
    rcases hw with rfl | rfl | rfl
    · exact ⟨_, _, rfl, .inr (.inr (.inl rfl))⟩
    · exact ⟨_, _, rfl, .inr (.inr (.inr rfl))⟩
    · exact ⟨_, _, rfl, .inr (.inl rfl)⟩
  | @number sign frac expo n hsign _ _ _ =>
    rcases hsign with rfl | rfl
    · obtain ⟨c, t, ht, hc⟩ := intText_head (.ofNat n)
      exact ⟨c, t ++ frac ++ expo, congrArg (· ++ frac ++ expo) ht, hc⟩
    · exact ⟨'-', Nat.toDigits 10 n ++ frac ++ expo, rfl, .inr (.inl rfl)⟩

/-- The text of a value starts with a printable character that is neither a blank nor a closing
bracket. -/
theorem spaced_head (gap : List Char) : ∀ {v : Json}, v.Sound →
    ∃ c t, v.spaced gap = c :: t ∧ isBlank c = false ∧ c ≠ ']' ∧ Printable c
  | .null, _ | .bool true, _ | .bool false, _ | .str _, _ | .arr [], _ | .arr (_ :: _), _
  | .obj [], _ | .obj ((_, _) :: _), _ => ⟨_, _, rfl, by decide, by decide, by decide⟩
  | .int n, _ => by
    obtain ⟨c, t, ht, hc⟩ := intText_head n
    exact ⟨c, t, ht, hc.plain.1, hc.plain.2.1, hc.plain.2.2.1⟩
  | .float _, hv => by
    obtain ⟨c, t, ht, hc⟩ := lexeme_head hv
    exact ⟨c, t, ht, hc.plain.1, hc.plain.2.1, hc.plain.2.2.1⟩

theorem dumps_head {v : Json} (hv : v.Tidy) :
    ∃ c t, v.dumps = c :: t ∧ isBlank c = false ∧ c ≠ ']' ∧ Printable c := by
  rw [← spaced_nil]
  exact spaced_head [] hv.sound

theorem skipBlanks_cons {c : Char} (h : isBlank c = false) (t : List Char) :
    skipBlanks (c :: t) = c :: t := by
  simp [skipBlanks, h]

theorem skipBlanks_spaced {v : Json} (hv : v.Sound) (t : List Char) :
    skipBlanks (v.spaced gap ++ t) = v.spaced gap ++ t := by
  obtain ⟨c, s, hs, hb, -, -⟩ := spaced_head gap hv
  rw [hs, List.cons_append, skipBlanks_cons hb]

theorem skipBlanks_gap (hgap : ∀ c ∈ gap, c = ' ') (t : List Char) :
    skipBlanks (gap ++ t) = skipBlanks t := by
  refine List.dropWhile_append_of_pos fun c hc => ?_
  rw [hgap c hc]
  decide

end

theorem setKey_of_notMem {k : String} {v : Json} {kvs : List (String × Json)}
    (h : k ∉ kvs.map Prod.fst) : setKey k v kvs = kvs ++ [(k, v)] := by
  induction kvs with
  | nil => rfl
  | cons kv kvs ih =>
    obtain ⟨k', v'⟩ := kv
    simp only [List.map_cons, List.mem_cons, not_or] at h
    rw [setKey, if_neg (Ne.symm h.1), ih h.2, List.cons_append]

/-- A dictionary without a repeated key is the list of its pairs. -/
theorem dictOf_of_nodup {kvs : List (String × Json)} (h : (kvs.map Prod.fst).Nodup) :
    dictOf kvs = kvs := by
  have key : ∀ (ps acc : List (String × Json)), ((acc ++ ps).map Prod.fst).Nodup →
      ps.foldl (fun d p => setKey p.1 p.2 d) acc = acc ++ ps := by
    intro ps
    induction ps with
    | nil => intro acc _; simp
    | cons p ps ih =>
      intro acc hnd
      have hp : p.1 ∉ acc.map Prod.fst := by
        intro hmem
        rw [List.map_append, List.map_cons, List.nodup_append] at hnd
        exact hnd.2.2 p.1 hmem p.1 (List.mem_cons_self ..) rfl
      rw [List.foldl_cons, setKey_of_notMem hp, ih]
      · simp
      · simpa using hnd
  simpa [dictOf] using key kvs [] (by simpa using h)

theorem mem_setKey {k : String} {v : Json} {kvs : List (String × Json)} {p : String × Json}
    (h : p ∈ setKey k v kvs) : p = (k, v) ∨ p ∈ kvs := by
  induction kvs with
  | nil => exact .inl (List.mem_singleton.mp h)
  | cons q kvs ih =>
    rw [setKey] at h
    split_ifs at h with hk
    · rcases List.mem_cons.mp h with rfl | h
      · exact .inl (by rw [← hk])
      · exact .inr (List.mem_cons_of_mem _ h)
    · rcases List.mem_cons.mp h with rfl | h
      · exact .inr List.mem_cons_self
      · exact (ih h).imp_right (List.mem_cons_of_mem _)

theorem lookup_setKey (key : String) (value : Json) (kvs : List (String × Json)) (k : String) :
    (setKey key value kvs).lookup k = if k = key then some value else kvs.lookup k := by
  induction kvs with
  | nil =>
    rw [setKey, List.lookup_cons, List.lookup_nil]
    split_ifs with hk
    · rw [hk, beq_self_eq_true]
    · rw [beq_false_of_ne hk]
  | cons q kvs ih =>
    obtain ⟨k', v⟩ := q
    rw [setKey]
    split_ifs with h' hk hk
    · rw [List.lookup_cons, hk, h', beq_self_eq_true]
    · rw [List.lookup_cons, List.lookup_cons, beq_false_of_ne (h' ▸ hk)]
    · rw [List.lookup_cons, beq_false_of_ne (hk ▸ Ne.symm h'), ih, if_pos hk]
    · rw [List.lookup_cons, List.lookup_cons, ih, if_neg hk]

theorem nodup_setKey {key : String} {value : Json} {kvs : List (String × Json)}
    (h : (kvs.map Prod.fst).Nodup) : ((setKey key value kvs).map Prod.fst).Nodup := by
  induction kvs with
  | nil => exact List.nodup_singleton key
  | cons q kvs ih =>
    obtain ⟨k, v⟩ := q
    obtain ⟨hk, hrest⟩ := List.nodup_cons.mp h
    rw [setKey]
    split_ifs with hkey
    · exact h
    · refine List.nodup_cons.mpr ⟨fun hmem => ?_, ih hrest⟩
      obtain ⟨p, hp, rfl⟩ := List.mem_map.mp hmem
      rcases mem_setKey hp with rfl | hp
      · exact hkey rfl
      · exact hk (List.mem_map.mpr ⟨p, hp, rfl⟩)

/-- A dictionary holds nothing but the pairs it was made from. -/
theorem mem_of_mem_dictOf {pairs : List (String × Json)} {p : String × Json}
    (h : p ∈ dictOf pairs) : p ∈ pairs := by
  have key : ∀ (ps acc : List (String × Json)),
      p ∈ ps.foldl (fun d q => setKey q.1 q.2 d) acc → p ∈ acc ∨ p ∈ ps := by
    intro ps
    induction ps with
    | nil => exact fun acc hacc => .inl hacc
    | cons q ps ih =>
      intro acc hacc
      rcases ih _ hacc with hset | hin
      · rcases mem_setKey hset with rfl | hin
        · exact .inr List.mem_cons_self
        · exact .inl hin
      · exact .inr (List.mem_cons_of_mem _ hin)
  exact (key pairs [] h).resolve_left List.not_mem_nil

section

variable {gap : List Char}

theorem stops_spacedElems (xs : List Json) (rest : List Char) :
    Stops (spacedElems gap xs ++ rest) := by
  cases xs <;> exact stops_cons (by decide)

theorem stops_spacedMembers (kvs : List (String × Json)) (rest : List Char) :
    Stops (spacedMembers gap kvs ++ rest) := by
  rcases kvs with _ | ⟨⟨k, v⟩, kvs⟩ <;> exact stops_cons (by decide)

theorem length_quote (s : String) : s.toList.length + 2 ≤ (quote s).length := by
  have := length_le_length_escape s.toList
  simp only [quote, List.length_cons, List.length_append, List.length_nil]
  omega

/-- What starts as a number does is read as an atom. -/
theorem readValue_number {c : Char} (hc : NumberStart c) (n : ℕ) (s : List Char) :
    readValue (n + 1) (c :: s) = readAtom (c :: s) := by
  obtain ⟨-, -, -, hquote, harr, hobj⟩ := hc.plain
  rw [readValue, if_neg hquote, if_neg harr, if_neg hobj]

mutual

/-- A sound value is read back from its text, whatever follows. -/
theorem readValue_spaced (hgap : ∀ c ∈ gap, c = ' ') : ∀ (v : Json) (n : ℕ) (rest : List Char),
    v.Sound → Stops rest → (v.spaced gap).length < n →
    readValue n (v.spaced gap ++ rest) = some (v, rest)
  | v, 0, _, _, _, h => by omega
  | .null, n + 1, rest, _, _, _ => by
    simp [spaced, readValue, readAtom, words, readWord, List.isPrefixOf]
  | .bool true, n + 1, rest, _, _, _ => by
    simp [spaced, readValue, readAtom, words, readWord, List.isPrefixOf]
  | .bool false, n + 1, rest, _, _, _ => by
    simp [spaced, readValue, readAtom, words, readWord, List.isPrefixOf]
  | .int i, n + 1, rest, hv, hr, _ => by
    have hatom := readAtom_intText i hr hv
    obtain ⟨c, t, ht, hc⟩ := intText_head i
    rw [spaced]
    rw [ht, List.cons_append] at hatom ⊢
    rw [readValue_number hc, hatom]
  | .float x, n + 1, rest, hv, hr, _ => by
    have hatom := readAtom_lexeme hv hr
    obtain ⟨c, t, ht, hc⟩ := lexeme_head hv
    rw [String.ofList_toList] at hatom
    rw [spaced]
    rw [ht, List.cons_append] at hatom ⊢
    rw [readValue_number hc, hatom]
  | .str s, n + 1, rest, _, _, h => by
    have hlen := length_quote s
    have hs : s.toList.length < n := by
      have : ((Json.str s).spaced gap).length = (quote s).length := rfl
      omega
    simp only [spaced, quote, List.cons_append, List.append_assoc, List.nil_append, readValue,
      if_true, readString_escape s.toList n rest hs, Option.map_some, String.ofList_toList]
  | .arr [], n + 1, rest, _, _, _ => by
    simp [spaced, readValue, skipBlanks, isBlank]
  | .arr (x :: xs), n + 1, rest, hv, _, h => by
    simp only [spaced, List.length_cons, List.length_append] at h
    obtain ⟨c, t, ht, hb, hclose, -⟩ := spaced_head gap hv.1
    have helems := readElems_spaced hgap x xs n rest hv.1 hv.2 (by omega)
    have hsplit : x.spaced gap ++ (spacedElems gap xs ++ rest) =
        c :: (t ++ (spacedElems gap xs ++ rest)) := by
      rw [ht, List.cons_append]
    rw [hsplit] at helems
    simp only [spaced, List.cons_append, List.append_assoc, hsplit, readValue, skipBlanks_cons hb,
      if_neg hclose, helems, Option.map_some, Char.reduceEq, if_true, if_false]
  | .obj [], n + 1, rest, _, _, _ => by
    simp [spaced, readValue, skipBlanks, isBlank]
  | .obj ((k, v) :: kvs), n + 1, rest, hv, _, h => by
    simp only [spaced, List.length_cons, List.length_append] at h
    have hmem := readMembers_spaced hgap k v kvs n rest hv.2.1 hv.2.2 (by omega)
    simp only [quote, List.cons_append, List.append_assoc, List.nil_append] at hmem
    simp only [spaced, quote, List.cons_append, List.append_assoc, List.nil_append, readValue,
      Char.reduceEq, if_true, if_false, skipBlanks_cons (show isBlank '\x22' = false by decide),
      hmem, Option.map_some, dictOf_of_nodup hv.1]

theorem readElems_spaced (hgap : ∀ c ∈ gap, c = ' ') : ∀ (x : Json) (xs : List Json) (n : ℕ)
    (rest : List Char), x.Sound → SoundElems xs →
    (x.spaced gap).length + (spacedElems gap xs).length < n →
    readElems n (x.spaced gap ++ (spacedElems gap xs ++ rest)) = some (x :: xs, rest)
  | _, _, 0, _, _, _, h => by omega
  | x, [], n + 1, rest, hx, _, h => by
    simp only [spacedElems, List.length_singleton] at h
    have hval :=
      readValue_spaced hgap x n (spacedElems gap [] ++ rest) hx (stops_spacedElems [] rest)
      (by omega)
    rw [readElems, hval]
    simp [spacedElems, skipBlanks, isBlank]
  | x, y :: ys, n + 1, rest, hx, hxs, h => by
    simp only [spacedElems, List.length_cons, List.length_append] at h
    have hval := readValue_spaced hgap x n (spacedElems gap (y :: ys) ++ rest) hx
      (stops_spacedElems (y :: ys) rest) (by omega)
    have hrest := readElems_spaced hgap y ys n rest hxs.1 hxs.2 (by omega)
    rw [readElems, hval]
    simp only [spacedElems, List.cons_append, List.append_assoc,
      skipBlanks_cons (show isBlank ',' = false by decide), skipBlanks_gap hgap,
      skipBlanks_spaced hxs.1, hrest, Option.map_some, Char.reduceEq, if_true, if_false]

theorem readMembers_spaced (hgap : ∀ c ∈ gap, c = ' ') : ∀ (k : String) (v : Json)
    (kvs : List (String × Json)) (n : ℕ) (rest : List Char), v.Sound → SoundMembers kvs →
    (quote k).length + (v.spaced gap).length + (spacedMembers gap kvs).length < n →
    readMembers n (quote k ++ ':' :: (gap ++ (v.spaced gap ++ (spacedMembers gap kvs ++ rest)))) =
      some ((k, v) :: kvs, rest)
  | _, _, _, 0, _, _, _, h => by omega
  | k, v, [], n + 1, rest, hv, _, h => by
    have hlen := length_quote k
    have hval :=
      readValue_spaced hgap v n (spacedMembers gap [] ++ rest) hv (stops_spacedMembers [] rest)
      (by omega)
    simp only [spacedMembers, List.cons_append, List.nil_append] at hval
    simp only [quote, List.cons_append, List.append_assoc, List.nil_append, readMembers, if_true,
      readString_escape k.toList n _ (by omega : k.toList.length < n),
      skipBlanks_cons (show isBlank ':' = false by decide), skipBlanks_gap hgap,
      skipBlanks_spaced hv, hval, spacedMembers,
      skipBlanks_cons (show isBlank '\x7d' = false by decide), String.ofList_toList]
  | k, v, (k', v') :: kvs, n + 1, rest, hv, hkvs, h => by
    have hlen := length_quote k
    simp only [spacedMembers, List.length_cons, List.length_append] at h
    have hval := readValue_spaced hgap v n (spacedMembers gap ((k', v') :: kvs) ++ rest) hv
      (stops_spacedMembers _ rest) (by omega)
    have hrest := readMembers_spaced hgap k' v' kvs n rest hkvs.1 hkvs.2 (by omega)
    simp only [spacedMembers, quote, List.cons_append, List.append_assoc, List.nil_append]
      at hval hrest
    simp only [quote, List.cons_append, List.append_assoc, List.nil_append, readMembers, if_true,
      readString_escape k.toList n _ (by omega : k.toList.length < n),
      skipBlanks_cons (show isBlank ':' = false by decide), skipBlanks_gap hgap,
      skipBlanks_spaced hv, hval, spacedMembers,
      skipBlanks_cons (show isBlank ',' = false by decide),
      Char.reduceEq, if_false, skipBlanks_cons (show isBlank '\x22' = false by decide), hrest,
      Option.map_some, String.ofList_toList]

end

/-- **Round trip.** Reading the text of a sound value gives the value back. -/
theorem loads_spaced (hgap : ∀ c ∈ gap, c = ' ') {v : Json} (hv : v.Sound) :
    loads (v.spaced gap) = some v := by
  have hstop : Stops [] := by intro c hc; simp at hc
  have hval := readValue_spaced hgap v ((v.spaced gap).length + 1) [] hv hstop (by omega)
  have hskip := @skipBlanks_spaced gap v hv []
  rw [List.append_nil] at hval hskip
  obtain ⟨c, t, ht, -, -, hprint⟩ := spaced_head gap hv
  have hbom : (v.spaced gap).head? ≠ some '\uFEFF' := by
    rw [ht, List.head?_cons, ne_eq, Option.some.injEq]
    rintro rfl
    exact absurd hprint (by decide)
  rw [loads, if_neg hbom, hskip, hval]
  simp [skipBlanks]

end

theorem loads_dumps {v : Json} (hv : v.Tidy) : loads v.dumps = some v := by
  rw [← spaced_nil]
  exact loads_spaced (fun _ h => absurd h List.not_mem_nil) hv.sound

end Json
