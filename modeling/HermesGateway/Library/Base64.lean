import Mathlib.Data.List.Basic
import Mathlib.Tactic.Common

/-!
# Strict Base64

`encode` is `base64.b64encode`. Decoding as `base64.b64decode(text, validate=True)` of Python 3.11
does it: groups of four characters of the standard alphabet, the last one possibly padded, and
nothing else. Bits left over in a padded group are ignored, and padding after a complete group is
tolerated at the end.
-/

namespace Base64

-- What is said of the characters of a list is decided along the list, not over all characters.
attribute [instance (2000)] List.decidableBAll

/-- The value of a character of the alphabet. -/
def value (c : Char) : Option ℕ :=
  if 'A' ≤ c ∧ c ≤ 'Z' then some (c.toNat - 'A'.toNat)
  else if 'a' ≤ c ∧ c ≤ 'z' then some (c.toNat - 'a'.toNat + 26)
  else if '0' ≤ c ∧ c ≤ '9' then some (c.toNat - '0'.toNat + 52)
  else if c = '+' then some 62
  else if c = '/' then some 63
  else none

/-- The bytes of the groups that follow; `first` at the start of the text, where padding is not
allowed. -/
def groups : Bool → List Char → Option (List UInt8)
  | _, [] => some []
  | first, a :: b :: c :: d :: rest =>
    match value a, value b, value c, value d with
    | some a, some b, some c, some d =>
      (groups false rest).map fun bytes =>
        UInt8.ofNat (a * 4 + b / 16) :: UInt8.ofNat (b % 16 * 16 + c / 4) ::
          UInt8.ofNat (c % 4 * 64 + d) :: bytes
    | some a, some b, some c, none =>
      if d = '=' ∧ rest = [] then
        some [UInt8.ofNat (a * 4 + b / 16), UInt8.ofNat (b % 16 * 16 + c / 4)]
      else none
    | some a, some b, none, _ =>
      if c = '=' ∧ d = '=' ∧ rest = [] then some [UInt8.ofNat (a * 4 + b / 16)] else none
    | _, _, _, _ =>
      if first = false ∧ ∀ x ∈ a :: b :: c :: d :: rest, x = '=' then some [] else none
  | first, rest => if first = false ∧ ∀ x ∈ rest, x = '=' then some [] else none

/-- `base64.b64decode(text, validate=True)`. -/
def decode (text : String) : Option ByteArray :=
  (groups true text.toList).map fun bytes => ⟨bytes.toArray⟩

example : decode "aGVsbG8=" = some "hello".toUTF8 := by decide

/-- The alphabet. -/
def alphabet : List Char :=
  "ABCDEFGHIJKLMNOPQRSTUVWXYZabcdefghijklmnopqrstuvwxyz0123456789+/".toList

/-- The character of a six-bit value. -/
def digit (n : ℕ) : Char := alphabet.getD n '='

/-- The groups of a text of bytes. -/
def encodeBytes : List UInt8 → List Char
  | [] => []
  | [a] => [digit (a.toNat / 4), digit (a.toNat % 4 * 16), '=', '=']
  | [a, b] =>
    [digit (a.toNat / 4), digit (a.toNat % 4 * 16 + b.toNat / 16), digit (b.toNat % 16 * 4), '=']
  | a :: b :: c :: rest =>
    digit (a.toNat / 4) :: digit (a.toNat % 4 * 16 + b.toNat / 16) ::
      digit (b.toNat % 16 * 4 + c.toNat / 64) :: digit (c.toNat % 64) :: encodeBytes rest

/-- `base64.b64encode(data).decode("ascii")`. -/
def encode (data : ByteArray) : String := String.ofList (encodeBytes data.data.toList)

example : encode "hello".toUTF8 = "aGVsbG8=" := by decide

/-! ### The round trip -/

theorem value_digit : ∀ n < 64, value (digit n) = some n := by decide +kernel

theorem value_pad : value '=' = none := by decide

/-- Whatever the groups in front, the groups of an encoding are its bytes. -/
theorem groups_encodeBytes : ∀ (bytes : List UInt8) (first : Bool),
    groups first (encodeBytes bytes) = some bytes
  | [], _ => by simp [encodeBytes, groups]
  | [a], first => by
    have ha := a.toNat_lt
    rw [encodeBytes, groups, value_digit _ (by omega), value_digit _ (by omega), value_pad]
    simp only [and_self, if_true, Option.some.injEq, List.cons.injEq, and_true]
    rw [show a.toNat / 4 * 4 + a.toNat % 4 * 16 / 16 = a.toNat by omega, UInt8.ofNat_toNat]
  | [a, b], first => by
    have ha := a.toNat_lt
    have hb := b.toNat_lt
    rw [encodeBytes, groups, value_digit _ (by omega), value_digit _ (by omega),
      value_digit _ (by omega), value_pad]
    simp only [and_self, if_true, Option.some.injEq, List.cons.injEq, and_true]
    rw [show a.toNat / 4 * 4 + (a.toNat % 4 * 16 + b.toNat / 16) / 16 = a.toNat by omega,
      show (a.toNat % 4 * 16 + b.toNat / 16) % 16 * 16 + b.toNat % 16 * 4 / 4 = b.toNat by omega,
      UInt8.ofNat_toNat, UInt8.ofNat_toNat]
    exact ⟨rfl, rfl⟩
  | a :: b :: c :: rest, first => by
    have ha := a.toNat_lt
    have hb := b.toNat_lt
    have hc := c.toNat_lt
    rw [encodeBytes, groups, value_digit _ (by omega), value_digit _ (by omega),
      value_digit _ (by omega), value_digit _ (by omega), groups_encodeBytes rest false]
    simp only [Option.map_some, Option.some.injEq, List.cons.injEq, and_true]
    rw [show a.toNat / 4 * 4 + (a.toNat % 4 * 16 + b.toNat / 16) / 16 = a.toNat by omega,
      show (a.toNat % 4 * 16 + b.toNat / 16) % 16 * 16 +
        (b.toNat % 16 * 4 + c.toNat / 64) / 4 = b.toNat by omega,
      show (b.toNat % 16 * 4 + c.toNat / 64) % 4 * 64 + c.toNat % 64 = c.toNat by omega,
      UInt8.ofNat_toNat, UInt8.ofNat_toNat, UInt8.ofNat_toNat]
    exact ⟨rfl, rfl, rfl⟩

/-- Decoding an encoding gives the bytes back. -/
@[simp] theorem decode_encode (data : ByteArray) : decode (encode data) = some data := by
  rw [decode, encode, String.toList_ofList, groups_encodeBytes]
  rfl

theorem length_encodeBytes : ∀ bytes : List UInt8,
    (encodeBytes bytes).length = (bytes.length + 2) / 3 * 4
  | [] => rfl
  | [_] => by simp [encodeBytes]
  | [_, _] => by simp [encodeBytes]
  | _ :: _ :: _ :: rest => by
    simp only [encodeBytes, List.length_cons, length_encodeBytes rest]
    omega

theorem length_encode (data : ByteArray) : (encode data).length = (data.size + 2) / 3 * 4 := by
  rw [encode, String.length_ofList, length_encodeBytes, ByteArray.size, Array.length_toList]

end Base64
