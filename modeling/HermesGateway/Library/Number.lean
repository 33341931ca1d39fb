import HermesGateway.Library.Json
import Mathlib.Algebra.Group.Int.Defs
import Mathlib.Data.Rat.Defs

/-!
# Numbers, and equality of values

What `json.loads` makes of a number with a fraction or an exponent is the nearest double, and
Python compares numbers by their exact values, whatever their types: `1`, `1.0` and `True` are
equal, and so are `0.1` and `0.10`. `NaN` is equal to nothing; but there is one `NaN` for all that
are read, and the members of two collections are compared by identity first.

The doubles are those of Lean's own model of binary64, whose operations round to the nearest, ties
to even.

## Main definitions

* `Json.Number.ofLexeme` — what the text of a number stands for
* `Json.equals` — `a == b`

## Main results

* `Json.equals_sortKeys`, `Json.sortKeys_equals` — the order of the keys does not matter
-/

namespace Json

/-- What a number stands for. -/
inductive Number
  | nan
  | infinite (negative : Bool)
  | finite (value : ℚ)
deriving DecidableEq

namespace Number

/-- The value of a double. -/
def ofDouble (x : Float.Model) : Number :=
  match x.unpack with
  | .notANumber => .nan
  | .infinity sign => .infinite (sign == .negative)
  | .zero _ => .finite 0
  | .finite sign m e _ =>
    let n : ℤ := if sign == .negative then -m else m
    .finite (mkRat (n * 2 ^ e.toNat) (2 ^ (-e).toNat))

/-- `-x`. -/
def negate : Number → Number
  | .nan => .nan
  | .infinite negative => .infinite !negative
  | .finite value => .finite (-value)

/-- The double nearest to a decimal without a sign: its digits as an integer, times a power of ten
by the exponent and the places after the point. -/
def ofDecimal (text : List Char) : Number :=
  let head := text.takeWhile fun c => c ≠ 'e' ∧ c ≠ 'E'
  let tail := (text.drop head.length).drop 1
  let places := ((head.dropWhile fun c => c ≠ '.').drop 1).length
  let exponent : ℤ := Nat.ofDigitChars 10 (tail.filter Char.isDigit) 0
  let shift := if tail.head? = some '-' then -exponent else exponent
  ofDouble (Float.Model.ofScientific (Nat.ofDigitChars 10 (head.filter Char.isDigit) 0)
    (shift - places))

/-- `float(text)`, of the text of a number in a document. -/
def ofLexeme (lexeme : String) : Number :=
  if lexeme = "NaN" then .nan
  else if lexeme = "Infinity" then .infinite false
  else if lexeme = "-Infinity" then .infinite true
  else
    match lexeme.toList with
    | '-' :: text => (ofDecimal text).negate
    | text => ofDecimal text

end Number

example : Number.ofLexeme "1.50" = Number.ofLexeme "15e-1" ∧
    Number.ofLexeme "9007199254740993.0" = .finite 9007199254740992 ∧
    Number.ofLexeme "-1e400" = .infinite true ∧ Number.ofLexeme "1e-400" = .finite 0 := by
  decide +kernel

/-- What a number or a truth value stands for. -/
def number? : Json → Option Number
  | .bool b => some (.finite (if b then 1 else 0))
  | .int n => some (.finite n)
  | .float lexeme => some (.ofLexeme lexeme)
  | .null | .str _ | .arr _ | .obj _ => none

mutual

/-- `a is b or a == b`, of two values with their keys in order. -/
def alike : Json → Json → Bool
  | .null, b => b = .null
  | .str s, b => b = .str s
  | .bool x, b => b.number? = (Json.bool x).number?
  | .int n, b => b.number? = (Json.int n).number?
  | .float lexeme, b => b.number? = (Json.float lexeme).number?
  | .arr xs, .arr ys => alikeElems xs ys
  | .arr _, _ => false
  | .obj xs, .obj ys => alikeMembers xs ys
  | .obj _, _ => false

/-- `alike` on every element. -/
def alikeElems : List Json → List Json → Bool
  | [], ys => ys.isEmpty
  | x :: xs, y :: ys => x.alike y && alikeElems xs ys
  | _ :: _, [] => false

/-- `alike` on every member. -/
def alikeMembers : List (String × Json) → List (String × Json) → Bool
  | [], ys => ys.isEmpty
  | (k, x) :: xs, (l, y) :: ys => k = l && x.alike y && alikeMembers xs ys
  | _ :: _, [] => false

end

/-- `a == b`. -/
def equals (a b : Json) : Bool := a.number? ≠ some .nan && a.sortKeys.alike b.sortKeys

@[simp] theorem number?_sortKeys (v : Json) : v.sortKeys.number? = v.number? := by
  cases v <;> rfl

@[simp] theorem equals_sortKeys (v w : Json) : v.equals w.sortKeys = v.equals w := by
  rw [equals, sortKeys_sortKeys, equals]

@[simp] theorem sortKeys_equals (v w : Json) : v.sortKeys.equals w = v.equals w := by
  rw [equals, number?_sortKeys, sortKeys_sortKeys, equals]

@[simp] theorem equals_str (s t : String) : (Json.str s).equals (.str t) = (s = t : Bool) := by
  simp [equals, number?, sortKeys, alike, Eq.comm (a := t)]

@[simp] theorem equals_null (v : Json) : Json.null.equals v = (v = .null : Bool) := by
  cases v <;> simp [equals, number?, sortKeys, alike]

@[simp] theorem equals_str_null (s : String) : (Json.str s).equals .null = false := by
  simp [equals, number?, sortKeys, alike]

end Json
