import Mathlib.Data.List.Sort
import Mathlib.Data.String.Basic
import Mathlib.Tactic.Common

/-!
# JSON values and their compact text

A JSON value, and the text Python's `json.dumps(value, sort_keys=True, separators=(",", ":"),
ensure_ascii=False)` writes for it. An object is an association list in insertion order, as a
Python `dict` is; `sortKeys` is what `sort_keys=True` does before writing, and it is also the
normal form under which two dictionaries are equal.

A number with a fraction or an exponent is kept as the text it was written with: nothing here
computes with it.

## Main definitions

* `Json.sortKeys` — key order normalised, at every level
* `Json.dumps` — the compact text of a value; `Json.canonical` sorts first
* `Json.chars` — every character of every string and key of a value

## Main results

* `Json.get?_sortKeys` — sorting the keys keeps every member
* `Json.mem_dumps` — what a character of the text can be: printable ASCII, or a character above
  the control range taken unescaped from a string of the value
-/

-- What is said of the characters of a list is decided along the list, not over all characters.
attribute [instance (2000)] List.decidableBAll List.decidableBEx ByteArray.instDecidableEq

/-- A JSON value. -/
inductive Json where
  | null
  | bool (b : Bool)
  | int (n : ℤ)
  | float (lexeme : String)
  | str (s : String)
  | arr (xs : List Json)
  | obj (kvs : List (String × Json))
deriving Inhabited

namespace Json

/-! ### Decidable equality

The deriving handler does not see through the nested lists, so the three mutual comparisons are
written out. -/

mutual

/-- Decide equality of two values. -/
def decEq : (a b : Json) → Decidable (a = b)
  | .null, .null => isTrue rfl
  | .bool a, .bool b => decidable_of_iff (a = b) (by simp)
  | .int a, .int b => decidable_of_iff (a = b) (by simp)
  | .float a, .float b => decidable_of_iff (a = b) (by simp)
  | .str a, .str b => decidable_of_iff (a = b) (by simp)
  | .arr xs, .arr ys =>
    match decEqElems xs ys with
    | isTrue h => isTrue (by rw [h])
    | isFalse h => isFalse (by simpa using h)
  | .obj xs, .obj ys =>
    match decEqMembers xs ys with
    | isTrue h => isTrue (by rw [h])
    | isFalse h => isFalse (by simpa using h)
  | .null, .bool _ | .null, .int _ | .null, .float _ | .null, .str _ | .null, .arr _
  | .null, .obj _ | .bool _, .null | .bool _, .int _ | .bool _, .float _ | .bool _, .str _
  | .bool _, .arr _ | .bool _, .obj _ | .int _, .null | .int _, .bool _ | .int _, .float _
  | .int _, .str _ | .int _, .arr _ | .int _, .obj _ | .float _, .null | .float _, .bool _
  | .float _, .int _ | .float _, .str _ | .float _, .arr _ | .float _, .obj _ | .str _, .null
  | .str _, .bool _ | .str _, .int _ | .str _, .float _ | .str _, .arr _ | .str _, .obj _
  | .arr _, .null | .arr _, .bool _ | .arr _, .int _ | .arr _, .float _ | .arr _, .str _
  | .arr _, .obj _ | .obj _, .null | .obj _, .bool _ | .obj _, .int _ | .obj _, .float _
  | .obj _, .str _ | .obj _, .arr _ => isFalse (by simp)

/-- Decide equality of two element lists. -/
def decEqElems : (a b : List Json) → Decidable (a = b)
  | [], [] => isTrue rfl
  | [], _ :: _ | _ :: _, [] => isFalse (by simp)
  | x :: xs, y :: ys =>
    match decEq x y, decEqElems xs ys with
    | isTrue h, isTrue h' => isTrue (by rw [h, h'])
    | isFalse h, _ => isFalse (by simp [h])
    | _, isFalse h => isFalse (by simp [h])

/-- Decide equality of two member lists. -/
def decEqMembers : (a b : List (String × Json)) → Decidable (a = b)
  | [], [] => isTrue rfl
  | [], _ :: _ | _ :: _, [] => isFalse (by simp)
  | (k, x) :: xs, (l, y) :: ys =>
    match decEq x y, decEqMembers xs ys with
    | isTrue h, isTrue h' => decidable_of_iff (k = l) (by simp [h, h'])
    | isFalse h, _ => isFalse (by simp [h])
    | _, isFalse h => isFalse (by simp [h])

end

instance : DecidableEq Json := decEq

/-! ### Reading members -/

/-- `value.get(key)` on an object; every other value has no members. -/
def get? (key : String) : Json → Option Json
  | .obj kvs => kvs.lookup key
  | _ => none

/-- The string a value is, if it is one. -/
def str? : Json → Option String
  | .str s => some s
  | _ => none

/-- Whether the value is an object. -/
def isObj : Json → Bool
  | .obj _ => true
  | _ => false

/-! ### Nesting -/

mutual

/-- How deep the lists and objects of a value are nested. -/
def depth : Json → ℕ
  | .null | .bool _ | .int _ | .float _ | .str _ => 0
  | .arr xs => depthElems xs + 1
  | .obj kvs => depthMembers kvs + 1

/-- `depth` of the deepest element. -/
def depthElems : List Json → ℕ
  | [] => 0
  | x :: xs => max x.depth (depthElems xs)

/-- `depth` of the deepest member. -/
def depthMembers : List (String × Json) → ℕ
  | [] => 0
  | (_, v) :: kvs => max v.depth (depthMembers kvs)

end

/-! ### Key order -/

mutual

/-- The value with the members of every object in key order. -/
def sortKeys : Json → Json
  | .null => .null
  | .bool b => .bool b
  | .int n => .int n
  | .float x => .float x
  | .str s => .str s
  | .arr xs => .arr (sortElems xs)
  | .obj kvs => .obj ((sortMembers kvs).insertionSort fun a b => a.1 ≤ b.1)

/-- `sortKeys` on every element. -/
def sortElems : List Json → List Json
  | [] => []
  | x :: xs => x.sortKeys :: sortElems xs

/-- `sortKeys` on every member's value, the members left in place. -/
def sortMembers : List (String × Json) → List (String × Json)
  | [] => []
  | (k, v) :: kvs => (k, v.sortKeys) :: sortMembers kvs

end

/-! ### Writing -/

/-- The decimal text of an integer. -/
def intText : ℤ → List Char
  | .ofNat n => Nat.toDigits 10 n
  | .negSucc n => '-' :: Nat.toDigits 10 (n + 1)

/-- The text of one character inside a string literal: the two-character escapes, the other
control characters as `\u00XX`, and everything else, ASCII or not, as itself. -/
def escapeChar (c : Char) : List Char :=
  if c = '\x22' then ['\\', '\x22']
  else if c = '\\' then ['\\', '\\']
  else if c = '\n' then ['\\', 'n']
  else if c = '\r' then ['\\', 'r']
  else if c = '\t' then ['\\', 't']
  else if c = '\x08' then ['\\', 'b']
  else if c = '\x0c' then ['\\', 'f']
  else if c.toNat < 32 then
    ['\\', 'u', '0', '0', Nat.digitChar (c.toNat / 16), Nat.digitChar (c.toNat % 16)]
  else [c]

/-- The characters of a string literal between its quotes. -/
def escape (s : List Char) : List Char := s.flatMap escapeChar

/-- A string literal. -/
def quote (s : String) : List Char := '\x22' :: (escape s.toList ++ ['\x22'])

mutual

/-- The compact text of a value: no blanks, members in the order they stand. -/
def dumps : Json → List Char
  | .null => ['n', 'u', 'l', 'l']
  | .bool true => ['t', 'r', 'u', 'e']
  | .bool false => ['f', 'a', 'l', 's', 'e']
  | .int n => intText n
  | .float x => x.toList
  | .str s => quote s
  | .arr [] => ['[', ']']
  | .arr (x :: xs) => '[' :: (dumps x ++ dumpsElems xs)
  | .obj [] => ['\x7b', '\x7d']
  | .obj ((k, v) :: kvs) => '\x7b' :: (quote k ++ ':' :: (dumps v ++ dumpsMembers kvs))

/-- The elements after the first, each with its comma, and the closing bracket. -/
def dumpsElems : List Json → List Char
  | [] => [']']
  | x :: xs => ',' :: (dumps x ++ dumpsElems xs)

/-- The members after the first, each with its comma, and the closing brace. -/
def dumpsMembers : List (String × Json) → List Char
  | [] => ['\x7d']
  | (k, v) :: kvs => ',' :: (quote k ++ ':' :: (dumps v ++ dumpsMembers kvs))

end

/-- `json.dumps` with `sort_keys=True`. -/
def canonical (v : Json) : List Char := v.sortKeys.dumps

mutual

/-- The text of a value with something after every comma and colon: `json.dumps` puts a blank there
unless it is told otherwise. -/
def spaced (gap : List Char) : Json → List Char
  | .null => ['n', 'u', 'l', 'l']
  | .bool true => ['t', 'r', 'u', 'e']
  | .bool false => ['f', 'a', 'l', 's', 'e']
  | .int n => intText n
  | .float x => x.toList
  | .str s => quote s
  | .arr [] => ['[', ']']
  | .arr (x :: xs) => '[' :: (spaced gap x ++ spacedElems gap xs)
  | .obj [] => ['\x7b', '\x7d']
  | .obj ((k, v) :: kvs) =>
    '\x7b' :: (quote k ++ ':' :: (gap ++ (spaced gap v ++ spacedMembers gap kvs)))

/-- The elements after the first, each with its comma, and the closing bracket. -/
def spacedElems (gap : List Char) : List Json → List Char
  | [] => [']']
  | x :: xs => ',' :: (gap ++ (spaced gap x ++ spacedElems gap xs))

/-- The members after the first, each with its comma, and the closing brace. -/
def spacedMembers (gap : List Char) : List (String × Json) → List Char
  | [] => ['\x7d']
  | (k, v) :: kvs =>
    ',' :: (gap ++ (quote k ++ ':' :: (gap ++ (spaced gap v ++ spacedMembers gap kvs))))

end

mutual

/-- With nothing there the text is the compact one. -/
theorem spaced_nil : ∀ v : Json, v.spaced [] = v.dumps
  | .null | .bool true | .bool false | .int _ | .float _ | .str _ | .arr [] | .obj [] => rfl
  | .arr (x :: xs) => by rw [spaced, dumps, spaced_nil x, spacedElems_nil xs]
  | .obj ((k, v) :: kvs) => by
    rw [spaced, dumps, spaced_nil v, spacedMembers_nil kvs, List.nil_append]

theorem spacedElems_nil : ∀ xs : List Json, spacedElems [] xs = dumpsElems xs
  | [] => rfl
  | x :: xs => by rw [spacedElems, dumpsElems, spaced_nil x, spacedElems_nil xs, List.nil_append]

theorem spacedMembers_nil : ∀ kvs : List (String × Json), spacedMembers [] kvs = dumpsMembers kvs
  | [] => rfl
  | (k, v) :: kvs => by
    rw [spacedMembers, dumpsMembers, spaced_nil v, spacedMembers_nil kvs, List.nil_append,
      List.nil_append]

end

/-! ### The characters of a value -/

mutual

/-- Every character of every string and key of a value. -/
def chars : Json → List Char
  | .str s => s.toList
  | .arr xs => charsElems xs
  | .obj kvs => charsMembers kvs
  | .null | .bool _ | .int _ | .float _ => []

/-- The characters of a list of elements. -/
def charsElems : List Json → List Char
  | [] => []
  | x :: xs => chars x ++ charsElems xs

/-- The characters of a list of members, keys included. -/
def charsMembers : List (String × Json) → List Char
  | [] => []
  | (k, v) :: kvs => k.toList ++ chars v ++ charsMembers kvs

end

/-! ### What the text is made of -/

/-- A printable ASCII character. -/
def Printable (c : Char) : Prop := 32 ≤ c.toNat ∧ c.toNat ≤ 126

instance (c : Char) : Decidable (Printable c) := inferInstanceAs (Decidable (_ ∧ _))

/-- The most digits an integer literal may have: Python refuses to convert longer ones. -/
def maxIntDigits : ℕ := 4300

mutual

/-- A value that survives being written and read back: no number kept as text, integers within
the conversion limit, and no key twice in one object. -/
def Tidy : Json → Prop
  | .int n => (Nat.toDigits 10 n.natAbs).length ≤ maxIntDigits
  | .float _ => False
  | .arr xs => TidyElems xs
  | .obj kvs => (kvs.map Prod.fst).Nodup ∧ TidyMembers kvs
  | .null | .bool _ | .str _ => True

/-- Every element is tidy. -/
def TidyElems : List Json → Prop
  | [] => True
  | x :: xs => Tidy x ∧ TidyElems xs

/-- Every member's value is tidy. -/
def TidyMembers : List (String × Json) → Prop
  | [] => True
  | (_, v) :: kvs => Tidy v ∧ TidyMembers kvs

end

/-- One digit or more. -/
def Digits (ds : List Char) : Prop := ds ≠ [] ∧ ∀ c ∈ ds, c.isDigit = true

/-- The text of a number with a fraction or an exponent, as Python writes one. -/
inductive Lexeme : List Char → Prop
  | word {w : String} (h : w ∈ ["NaN", "Infinity", "-Infinity"]) : Lexeme w.toList
  | number {sign frac expo : List Char} (n : ℕ) (hsign : sign = [] ∨ sign = ['-'])
      (hfrac : frac = [] ∨ ∃ ds, Digits ds ∧ frac = '.' :: ds)
      (hexpo : expo = [] ∨ ∃ s ds, (s = '+' ∨ s = '-') ∧ Digits ds ∧ expo = 'e' :: s :: ds)
      (hne : ¬ (frac = [] ∧ expo = [])) : Lexeme (sign ++ Nat.toDigits 10 n ++ frac ++ expo)

mutual

/-- A value as Python has one: integers within the conversion limit, numbers with a fraction or an
exponent as they are written, and no key twice in one object. -/
def Sound : Json → Prop
  | .int n => (Nat.toDigits 10 n.natAbs).length ≤ maxIntDigits
  | .float x => Lexeme x.toList
  | .arr xs => SoundElems xs
  | .obj kvs => (kvs.map Prod.fst).Nodup ∧ SoundMembers kvs
  | .null | .bool _ | .str _ => True

/-- Every element is sound. -/
def SoundElems : List Json → Prop
  | [] => True
  | x :: xs => Sound x ∧ SoundElems xs

/-- Every member's value is sound. -/
def SoundMembers : List (String × Json) → Prop
  | [] => True
  | (_, v) :: kvs => Sound v ∧ SoundMembers kvs

end

mutual

/-- A tidy value is a sound one without such numbers. -/
theorem Tidy.sound : ∀ {v : Json}, v.Tidy → v.Sound
  | .null, _ | .bool _, _ | .str _, _ => trivial
  | .int _, h => h
  | .float _, h => h.elim
  | .arr _, h => sound_of_tidyElems h
  | .obj _, h => ⟨h.1, sound_of_tidyMembers h.2⟩

theorem sound_of_tidyElems : ∀ {xs : List Json}, TidyElems xs → SoundElems xs
  | [], _ => trivial
  | _ :: _, h => ⟨h.1.sound, sound_of_tidyElems h.2⟩

theorem sound_of_tidyMembers : ∀ {kvs : List (String × Json)}, TidyMembers kvs → SoundMembers kvs
  | [], _ => trivial
  | _ :: _, h => ⟨h.1.sound, sound_of_tidyMembers h.2⟩

end

/-- `c` may stand in a text whose strings are made of `cs`: it is printable ASCII, or one of
`cs` that is above the control range and therefore written unescaped. -/
def Written (cs : List Char) (c : Char) : Prop := Printable c ∨ c ∈ cs ∧ 32 ≤ c.toNat

theorem Written.mono {cs ds : List Char} {c : Char} (h : Written cs c) (hsub : cs ⊆ ds) :
    Written ds c :=
  h.imp_right fun hc => ⟨hsub hc.1, hc.2⟩

theorem printable_digitChar (n : ℕ) : Printable (Nat.digitChar n) := by
  have small : ∀ m < 16, Printable (Nat.digitChar m) := by decide
  rcases Nat.lt_or_ge n 16 with h | h
  · exact small n h
  · rw [Nat.digitChar_eq_star.mpr h]
    decide

theorem printable_of_isDigit {c : Char} (h : c.isDigit = true) : Printable c := by
  simp only [Char.isDigit, Bool.and_eq_true, decide_eq_true_eq] at h
  have h1 : '0'.toNat ≤ c.toNat := h.1
  have h2 : c.toNat ≤ '9'.toNat := h.2
  simp only [Char.reduceToNat] at h1 h2
  exact ⟨by omega, by omega⟩

theorem printable_intText {n : ℤ} {c : Char} (h : c ∈ intText n) : Printable c := by
  cases n with
  | ofNat n =>
    exact printable_of_isDigit (Nat.isDigit_of_mem_toDigits (by decide) (by decide) h)
  | negSucc n =>
    rcases List.mem_cons.mp h with rfl | h
    · decide
    · exact printable_of_isDigit (Nat.isDigit_of_mem_toDigits (by decide) (by decide) h)

theorem escapeChar_cases (a : Char) :
    (∀ c ∈ escapeChar a, Printable c) ∨ escapeChar a = [a] ∧ 32 ≤ a.toNat := by
  unfold escapeChar
  split_ifs
  iterate 7 exact Or.inl (by decide)
  · -- the numeric escape
    refine Or.inl fun c hc => ?_
    simp only [List.mem_cons, List.not_mem_nil, or_false] at hc
    rcases hc with rfl | rfl | rfl | rfl | rfl | rfl
    iterate 4 decide
    · exact printable_digitChar _
    · exact printable_digitChar _
  · exact Or.inr ⟨rfl, by omega⟩

theorem written_escapeChar {a c : Char} (h : c ∈ escapeChar a) : Written [a] c := by
  rcases escapeChar_cases a with hp | ⟨he, ha⟩
  · exact Or.inl (hp c h)
  · rw [he, List.mem_singleton] at h
    exact Or.inr ⟨by simp [h], by rw [h]; exact ha⟩

theorem written_quote {s : String} {c : Char} (h : c ∈ quote s) : Written s.toList c := by
  simp only [quote, escape, List.mem_cons, List.mem_append, List.mem_flatMap,
    List.not_mem_nil, or_false] at h
  rcases h with rfl | ⟨a, ha, hc⟩ | rfl
  · exact Or.inl (by decide)
  · exact (written_escapeChar hc).mono (by simpa using ha)
  · exact Or.inl (by decide)

theorem printable_lexeme {cs : List Char} (h : Lexeme cs) : ∀ c ∈ cs, Printable c := by
  have hdigits : ∀ {ds}, Digits ds → ∀ c ∈ ds, Printable c := fun hds c hc =>
    printable_of_isDigit (hds.2 c hc)
  cases h with
  | word hw =>
    have hall : ∀ w ∈ ["NaN", "Infinity", "-Infinity"], ∀ c ∈ w.toList, Printable c := by decide
    exact hall _ hw
  | number n hsign hfrac hexpo _ =>
    intro c hc
    simp only [List.mem_append] at hc
    rcases hc with ((hc | hc) | hc) | hc
    · rcases hsign with rfl | rfl
      · cases hc
      · rw [List.mem_singleton.mp hc]
        decide
    · exact printable_of_isDigit (Nat.isDigit_of_mem_toDigits (by decide) (by decide) hc)
    · rcases hfrac with rfl | ⟨ds, hds, rfl⟩
      · cases hc
      · rcases List.mem_cons.mp hc with rfl | hc
        · decide
        · exact hdigits hds c hc
    · rcases hexpo with rfl | ⟨s, ds, hs, hds, rfl⟩
      · cases hc
      · rcases List.mem_cons.mp hc with rfl | hc
        · decide
        · rcases List.mem_cons.mp hc with rfl | hc
          · rcases hs with rfl | rfl <;> decide
          · exact hdigits hds c hc

section

variable {gap : List Char} (hgap : ∀ c ∈ gap, c = ' ')
include hgap

theorem printable_gap {c : Char} (h : c ∈ gap) : Printable c := by
  rw [hgap c h]
  decide

mutual

/-- Every character of the text is printable ASCII, or an unescaped character of a string. -/
theorem mem_spaced : ∀ {v : Json} {c : Char}, v.Sound → c ∈ v.spaced gap → Written v.chars c
  | .null, c, _, h | .bool true, c, _, h | .bool false, c, _, h => by
    simp only [spaced, List.mem_cons, List.not_mem_nil, or_false] at h
    rcases h with rfl | h <;> first | exact Or.inl (by decide) | skip
    all_goals
      rcases h with rfl | rfl | h <;> first | exact Or.inl (by decide) | skip
    all_goals
      rcases h with rfl | rfl <;> exact Or.inl (by decide)
  | .int n, c, _, h => Or.inl (printable_intText h)
  | .float x, c, hv, h => Or.inl (printable_lexeme hv c h)
  | .str s, c, _, h => written_quote h
  | .arr [], c, _, h => by
    simp only [spaced, List.mem_cons, List.not_mem_nil, or_false] at h
    rcases h with rfl | rfl <;> exact Or.inl (by decide)
  | .arr (x :: xs), c, hv, h => by
    simp only [spaced, List.mem_cons, List.mem_append] at h
    rcases h with rfl | h | h
    · exact Or.inl (by decide)
    · exact (mem_spaced hv.1 h).mono (List.subset_append_left _ _)
    · exact (mem_spacedElems hv.2 h).mono (List.subset_append_right _ _)
  | .obj [], c, _, h => by
    simp only [spaced, List.mem_cons, List.not_mem_nil, or_false] at h
    rcases h with rfl | rfl <;> exact Or.inl (by decide)
  | .obj ((k, v) :: kvs), c, hv, h => by
    simp only [spaced, List.mem_cons, List.mem_append] at h
    rcases h with rfl | h | rfl | h | h | h
    · exact Or.inl (by decide)
    · exact (written_quote h).mono fun a ha => by simp [chars, charsMembers, ha]
    · exact Or.inl (by decide)
    · exact Or.inl (printable_gap hgap h)
    · exact (mem_spaced hv.2.1 h).mono fun a ha => by simp [chars, charsMembers, ha]
    · exact (mem_spacedMembers hv.2.2 h).mono fun a ha => by simp [chars, charsMembers, ha]

theorem mem_spacedElems : ∀ {xs : List Json} {c : Char}, SoundElems xs →
    c ∈ spacedElems gap xs → Written (charsElems xs) c
  | [], c, _, h => by
    rw [spacedElems, List.mem_singleton] at h
    exact Or.inl (by rw [h]; decide)
  | x :: xs, c, hv, h => by
    simp only [spacedElems, List.mem_cons, List.mem_append] at h
    rcases h with rfl | h | h | h
    · exact Or.inl (by decide)
    · exact Or.inl (printable_gap hgap h)
    · exact (mem_spaced hv.1 h).mono (List.subset_append_left _ _)
    · exact (mem_spacedElems hv.2 h).mono (List.subset_append_right _ _)

theorem mem_spacedMembers : ∀ {kvs : List (String × Json)} {c : Char}, SoundMembers kvs →
    c ∈ spacedMembers gap kvs → Written (charsMembers kvs) c
  | [], c, _, h => by
    rw [spacedMembers, List.mem_singleton] at h
    exact Or.inl (by rw [h]; decide)
  | (k, v) :: kvs, c, hv, h => by
    simp only [spacedMembers, List.mem_cons, List.mem_append] at h
    rcases h with rfl | h | h | rfl | h | h | h
    · exact Or.inl (by decide)
    · exact Or.inl (printable_gap hgap h)
    · exact (written_quote h).mono fun a ha => by simp [charsMembers, ha]
    · exact Or.inl (by decide)
    · exact Or.inl (printable_gap hgap h)
    · exact (mem_spaced hv.1 h).mono fun a ha => by simp [charsMembers, ha]
    · exact (mem_spacedMembers hv.2 h).mono fun a ha => by simp [charsMembers, ha]

end

end

theorem mem_dumps {v : Json} {c : Char} (hv : v.Tidy) (h : c ∈ v.dumps) : Written v.chars c := by
  rw [← spaced_nil] at h
  exact @mem_spaced [] (fun _ h => absurd h List.not_mem_nil) v c hv.sound h

theorem escapeChar_of_le {c : Char} (h : 128 ≤ c.toNat) : escapeChar c = [c] := by
  unfold escapeChar
  split_ifs
  iterate 7
    subst_vars
    exact absurd h (by decide)
  · omega
  · rfl

theorem mem_quote_of_le {s : String} {c : Char} (h : c ∈ s.toList) (hc : 128 ≤ c.toNat) :
    c ∈ quote s := by
  refine List.mem_cons_of_mem _ (List.mem_append_left _ (List.mem_flatMap.mpr ⟨c, h, ?_⟩))
  rw [escapeChar_of_le hc]
  exact List.mem_singleton_self c

mutual

/-- A character of a string above ASCII stands in the text. -/
theorem mem_spaced_of_le (gap : List Char) : ∀ {v : Json} {c : Char}, c ∈ v.chars → 128 ≤ c.toNat →
    c ∈ v.spaced gap
  | .str _, _, h, hc => mem_quote_of_le h hc
  | .arr (x :: xs), c, h, hc => by
    rw [spaced]
    rcases List.mem_append.mp h with h | h
    · exact List.mem_cons_of_mem _ (List.mem_append_left _ (mem_spaced_of_le gap h hc))
    · exact List.mem_cons_of_mem _ (List.mem_append_right _ (mem_spacedElems_of_le gap h hc))
  | .obj ((k, v) :: kvs), c, h, hc => by
    rw [chars, charsMembers, List.mem_append, List.mem_append] at h
    simp only [spaced, List.mem_cons, List.mem_append]
    rcases h with (h | h) | h
    · exact .inr (.inl (mem_quote_of_le h hc))
    · exact .inr (.inr (.inr (.inr (.inl (mem_spaced_of_le gap h hc)))))
    · exact .inr (.inr (.inr (.inr (.inr (mem_spacedMembers_of_le gap h hc)))))

theorem mem_spacedElems_of_le (gap : List Char) : ∀ {xs : List Json} {c : Char},
    c ∈ charsElems xs → 128 ≤ c.toNat → c ∈ spacedElems gap xs
  | x :: xs, c, h, hc => by
    simp only [spacedElems, List.mem_cons, List.mem_append]
    rcases List.mem_append.mp h with h | h
    · exact .inr (.inr (.inl (mem_spaced_of_le gap h hc)))
    · exact .inr (.inr (.inr (mem_spacedElems_of_le gap h hc)))

theorem mem_spacedMembers_of_le (gap : List Char) : ∀ {kvs : List (String × Json)} {c : Char},
    c ∈ charsMembers kvs → 128 ≤ c.toNat → c ∈ spacedMembers gap kvs
  | (k, v) :: kvs, c, h, hc => by
    rw [charsMembers, List.mem_append, List.mem_append] at h
    simp only [spacedMembers, List.mem_cons, List.mem_append]
    rcases h with (h | h) | h
    · exact .inr (.inr (.inl (mem_quote_of_le h hc)))
    · exact .inr (.inr (.inr (.inr (.inr (.inl (mem_spaced_of_le gap h hc))))))
    · exact .inr (.inr (.inr (.inr (.inr (.inr (mem_spacedMembers_of_le gap h hc))))))

end

/-! ### Sorting keys keeps the content -/

theorem mem_charsMembers {c : Char} {kvs : List (String × Json)} :
    c ∈ charsMembers kvs ↔ ∃ kv ∈ kvs, c ∈ kv.1.toList ∨ c ∈ kv.2.chars := by
  induction kvs with
  | nil => simp [charsMembers]
  | cons kv kvs ih =>
    obtain ⟨k, v⟩ := kv
    simp only [charsMembers, List.mem_append, ih, List.mem_cons, exists_eq_or_imp]

theorem tidyMembers_iff {kvs : List (String × Json)} :
    TidyMembers kvs ↔ ∀ kv ∈ kvs, kv.2.Tidy := by
  induction kvs with
  | nil => simp [TidyMembers]
  | cons kv kvs ih =>
    obtain ⟨k, v⟩ := kv
    simp only [TidyMembers, ih, List.mem_cons, forall_eq_or_imp]

theorem map_fst_sortMembers (kvs : List (String × Json)) :
    (sortMembers kvs).map Prod.fst = kvs.map Prod.fst := by
  induction kvs with
  | nil => rfl
  | cons kv kvs ih => simp [sortMembers, ih]

mutual

theorem mem_chars_sortKeys : ∀ (v : Json) (c : Char), c ∈ v.sortKeys.chars ↔ c ∈ v.chars
  | .null, _ | .bool _, _ | .int _, _ | .float _, _ | .str _, _ => by simp [sortKeys]
  | .arr xs, c => by simpa only [sortKeys, chars] using mem_chars_sortElems xs c
  | .obj kvs, c => by
    have hperm := List.perm_insertionSort (fun a b : String × Json => a.1 ≤ b.1) (sortMembers kvs)
    rw [sortKeys, chars, chars, ← mem_chars_sortMembers kvs c, mem_charsMembers, mem_charsMembers]
    exact exists_congr fun kv => and_congr_left fun _ => hperm.mem_iff

theorem mem_chars_sortElems : ∀ (xs : List Json) (c : Char),
    c ∈ charsElems (sortElems xs) ↔ c ∈ charsElems xs
  | [], _ => by simp [sortElems]
  | x :: xs, c => by
    simp only [sortElems, charsElems, List.mem_append, mem_chars_sortKeys x c,
      mem_chars_sortElems xs c]

theorem mem_chars_sortMembers : ∀ (kvs : List (String × Json)) (c : Char),
    c ∈ charsMembers (sortMembers kvs) ↔ c ∈ charsMembers kvs
  | [], _ => by simp [sortMembers]
  | (k, v) :: kvs, c => by
    simp only [sortMembers, charsMembers, List.mem_append, mem_chars_sortKeys v c,
      mem_chars_sortMembers kvs c]

end

mutual

theorem tidy_sortKeys : ∀ {v : Json}, v.Tidy → v.sortKeys.Tidy
  | .null, _ | .bool _, _ | .str _, _ => trivial
  | .int _, h => h
  | .float _, h => h.elim
  | .arr _, h => tidy_sortElems h
  | .obj kvs, h => by
    have hperm := List.perm_insertionSort (fun a b : String × Json => a.1 ≤ b.1) (sortMembers kvs)
    refine ⟨?_, ?_⟩
    · rw [(hperm.map Prod.fst).nodup_iff, map_fst_sortMembers]
      exact h.1
    · have hm := tidyMembers_iff.mp (tidy_sortMembers h.2)
      exact tidyMembers_iff.mpr fun kv hkv => hm kv (hperm.mem_iff.mp hkv)

theorem tidy_sortElems : ∀ {xs : List Json}, TidyElems xs → TidyElems (sortElems xs)
  | [], _ => trivial
  | _ :: _, h => ⟨tidy_sortKeys h.1, tidy_sortElems h.2⟩

theorem tidy_sortMembers : ∀ {kvs : List (String × Json)},
    TidyMembers kvs → TidyMembers (sortMembers kvs)
  | [], _ => trivial
  | (_, _) :: _, h => ⟨tidy_sortKeys h.1, tidy_sortMembers h.2⟩

end

/-! ### Members after sorting -/

theorem lookup_eq_some_iff_mem {key : String} {v : Json} :
    ∀ {kvs : List (String × Json)}, (kvs.map Prod.fst).Nodup →
      (kvs.lookup key = some v ↔ (key, v) ∈ kvs)
  | [], _ => by simp
  | (k, w) :: kvs, h => by
    obtain ⟨hk, h⟩ := List.nodup_cons.mp h
    rw [List.lookup_cons]
    by_cases heq : key = k
    · subst heq
      have hnot : (key, v) ∉ kvs := fun hmem => hk (List.mem_map.mpr ⟨_, hmem, rfl⟩)
      simp [hnot, eq_comm]
    · rw [beq_false_of_ne heq]
      simp [heq, lookup_eq_some_iff_mem h]

theorem lookup_perm {key : String} {kvs kvs' : List (String × Json)} (hperm : kvs.Perm kvs')
    (h : (kvs.map Prod.fst).Nodup) : kvs.lookup key = kvs'.lookup key := by
  have h' : (kvs'.map Prod.fst).Nodup := (hperm.map Prod.fst).nodup_iff.mp h
  refine Option.ext fun v => ?_
  rw [lookup_eq_some_iff_mem h, lookup_eq_some_iff_mem h', hperm.mem_iff]

theorem lookup_sortMembers (key : String) (kvs : List (String × Json)) :
    (sortMembers kvs).lookup key = (kvs.lookup key).map sortKeys := by
  induction kvs with
  | nil => rfl
  | cons p kvs ih =>
    obtain ⟨k, v⟩ := p
    rw [sortMembers, List.lookup_cons, List.lookup_cons, ih]
    cases key == k <;> rfl

/-- No key of the value, if it is an object, comes twice. -/
def Keyed (v : Json) : Prop := ∀ kvs, v = .obj kvs → (kvs.map Prod.fst).Nodup

theorem Tidy.keyed {v : Json} (h : v.Tidy) : v.Keyed := by
  rintro kvs rfl
  exact h.1

/-- Sorting the keys keeps every member. -/
theorem Keyed.get?_sortKeys {v : Json} (h : v.Keyed) (key : String) :
    v.sortKeys.get? key = (v.get? key).map sortKeys := by
  cases v with
  | obj kvs =>
    have hnodup : ((sortMembers kvs).map Prod.fst).Nodup := by
      rw [map_fst_sortMembers]
      exact h kvs rfl
    rw [sortKeys, get?, get?, ← lookup_sortMembers]
    exact (lookup_perm (List.perm_insertionSort _ _).symm hnodup).symm
  | null | bool | int | float | str | arr => rfl

theorem Keyed.sortKeys {v : Json} (h : v.Keyed) : v.sortKeys.Keyed := by
  intro kvs hkvs
  cases v with
  | obj ms =>
    obtain rfl := Json.obj.inj hkvs
    have hperm := List.perm_insertionSort (fun a b : String × Json => a.1 ≤ b.1) (sortMembers ms)
    rw [(hperm.map Prod.fst).nodup_iff, map_fst_sortMembers]
    exact h ms rfl
  | null | bool | int | float | str | arr => cases hkvs

theorem get?_sortKeys {v : Json} (h : v.Tidy) (key : String) :
    v.sortKeys.get? key = (v.get? key).map Json.sortKeys :=
  h.keyed.get?_sortKeys key

/-! ### Sorting twice -/

theorem sortMembers_of_fixed {kvs : List (String × Json)} (h : ∀ kv ∈ kvs, kv.2.sortKeys = kv.2) :
    sortMembers kvs = kvs := by
  induction kvs with
  | nil => rfl
  | cons kv kvs ih =>
    obtain ⟨k, v⟩ := kv
    rw [sortMembers, h (k, v) List.mem_cons_self,
      ih fun kv hkv => h kv (List.mem_cons_of_mem _ hkv)]

mutual

/-- Sorted keys are left as they are. -/
theorem sortKeys_sortKeys : ∀ v : Json, v.sortKeys.sortKeys = v.sortKeys
  | .null | .bool _ | .int _ | .float _ | .str _ => rfl
  | .arr xs => congrArg Json.arr (sortElems_sortElems xs)
  | .obj kvs => by
    have hperm := List.perm_insertionSort (fun a b : String × Json => a.1 ≤ b.1) (sortMembers kvs)
    have hfixed := sortMembers_of_fixed fun kv hkv =>
      sortKeys_of_mem_sortMembers kvs kv (hperm.mem_iff.mp hkv)
    rw [sortKeys, sortKeys, hfixed, (List.pairwise_insertionSort _ _).insertionSort_eq]

theorem sortElems_sortElems : ∀ xs : List Json, sortElems (sortElems xs) = sortElems xs
  | [] => rfl
  | x :: xs => by rw [sortElems, sortElems, sortKeys_sortKeys x, sortElems_sortElems xs]

theorem sortKeys_of_mem_sortMembers : ∀ (kvs : List (String × Json)),
    ∀ kv ∈ sortMembers kvs, kv.2.sortKeys = kv.2
  | [], _, h => absurd h List.not_mem_nil
  | (k, v) :: kvs, kv, h => by
    rcases List.mem_cons.mp h with rfl | h
    · exact sortKeys_sortKeys v
    · exact sortKeys_of_mem_sortMembers kvs kv h

end

/-! ### Values inside a value -/

/-- One value is an element, or the value of a member, of another. -/
def Child (w v : Json) : Prop :=
  (∃ xs, v = .arr xs ∧ w ∈ xs) ∨ ∃ key kvs, v = .obj kvs ∧ (key, w) ∈ kvs

theorem mem_sortElems {w : Json} {xs : List Json} (h : w ∈ xs) : w.sortKeys ∈ sortElems xs := by
  induction xs with
  | nil => cases h
  | cons x xs ih =>
    rcases List.mem_cons.mp h with rfl | h
    · exact List.mem_cons_self
    · exact List.mem_cons_of_mem _ (ih h)

theorem mem_sortMembers {key : String} {w : Json} {kvs : List (String × Json)}
    (h : (key, w) ∈ kvs) : (key, w.sortKeys) ∈ sortMembers kvs := by
  induction kvs with
  | nil => cases h
  | cons kv kvs ih =>
    rcases List.mem_cons.mp h with rfl | h
    · exact List.mem_cons_self
    · exact List.mem_cons_of_mem _ (ih h)

theorem Child.sortKeys {w v : Json} (h : Child w v) : Child w.sortKeys v.sortKeys := by
  rcases h with ⟨xs, rfl, hmem⟩ | ⟨key, kvs, rfl, hmem⟩
  · exact .inl ⟨_, rfl, mem_sortElems hmem⟩
  · exact .inr ⟨key, _, rfl, (List.perm_insertionSort _ _).mem_iff.mpr (mem_sortMembers hmem)⟩

theorem exists_dumpsElems {w : Json} {xs : List Json} (h : w ∈ xs) :
    ∃ l r, l ≠ [] ∧ r ≠ [] ∧ dumpsElems xs = l ++ w.dumps ++ r := by
  induction xs with
  | nil => cases h
  | cons x xs ih =>
    rcases List.mem_cons.mp h with rfl | h
    · refine ⟨[','], dumpsElems xs, List.cons_ne_nil _ _, ?_, by simp [dumpsElems]⟩
      cases xs <;> simp [dumpsElems]
    · obtain ⟨l, r, -, hr, heq⟩ := ih h
      exact ⟨',' :: (x.dumps ++ l), r, List.cons_ne_nil _ _, hr, by simp [dumpsElems, heq]⟩

theorem exists_dumpsMembers {key : String} {w : Json} {kvs : List (String × Json)}
    (h : (key, w) ∈ kvs) : ∃ l r, l ≠ [] ∧ r ≠ [] ∧ dumpsMembers kvs = l ++ w.dumps ++ r := by
  induction kvs with
  | nil => cases h
  | cons kv kvs ih =>
    obtain ⟨k, v⟩ := kv
    rcases List.mem_cons.mp h with heq | h
    · obtain ⟨rfl, rfl⟩ := Prod.mk.inj heq
      refine ⟨',' :: (quote key ++ [':']), dumpsMembers kvs, List.cons_ne_nil _ _, ?_,
        by simp [dumpsMembers]⟩
      cases kvs <;> simp [dumpsMembers]
    · obtain ⟨l, r, -, hr, heq⟩ := ih h
      exact ⟨',' :: (quote k ++ ':' :: (v.dumps ++ l)), r, List.cons_ne_nil _ _, hr,
        by simp [dumpsMembers, heq]⟩

/-- The text of a value has the texts of those inside it, with something on both sides. -/
theorem Child.exists_dumps {w v : Json} (h : Child w v) :
    ∃ l r, l ≠ [] ∧ r ≠ [] ∧ v.dumps = l ++ w.dumps ++ r := by
  rcases h with ⟨xs, rfl, hmem⟩ | ⟨key, kvs, rfl, hmem⟩
  · obtain ⟨l, r, hl, hr, heq⟩ := exists_dumpsElems hmem
    obtain ⟨x, xs, rfl⟩ := List.exists_cons_of_ne_nil (List.ne_nil_of_mem hmem)
    obtain ⟨c, l, rfl⟩ := List.exists_cons_of_ne_nil hl
    refine ⟨'[' :: l, r, List.cons_ne_nil _ _, hr, ?_⟩
    rw [dumpsElems, List.cons_append, List.cons_append] at heq
    rw [dumps, (List.cons.inj heq).2, List.cons_append, List.cons_append]
  · obtain ⟨l, r, hl, hr, heq⟩ := exists_dumpsMembers hmem
    obtain ⟨⟨k, x⟩, kvs, rfl⟩ := List.exists_cons_of_ne_nil (List.ne_nil_of_mem hmem)
    obtain ⟨c, l, rfl⟩ := List.exists_cons_of_ne_nil hl
    refine ⟨'\x7b' :: l, r, List.cons_ne_nil _ _, hr, ?_⟩
    rw [dumpsMembers, List.cons_append, List.cons_append] at heq
    rw [dumps, (List.cons.inj heq).2, List.cons_append, List.cons_append]

theorem Child.exists_canonical {w v : Json} (h : Child w v) :
    ∃ l r, l ≠ [] ∧ r ≠ [] ∧ v.canonical = l ++ w.canonical ++ r :=
  h.sortKeys.exists_dumps

theorem child_of_get? {key : String} {w v : Json} (h : v.get? key = some w) : Child w v := by
  cases v with
  | obj kvs =>
    rw [get?, List.lookup_eq_some_iff] at h
    obtain ⟨l, r, rfl, -⟩ := h
    exact .inr ⟨key, _, rfl, by simp⟩
  | null | bool | int | float | str | arr => cases h

end Json
