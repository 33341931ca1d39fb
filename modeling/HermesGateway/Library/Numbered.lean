import Mathlib.Data.List.Basic
import Mathlib.Data.List.Sort
import Mathlib.Tactic.Common

/-!
# Numbered lists

A list whose entries carry consecutive numbers, as the rows of an append-only log do. Its
suffixes are again numbered, and selecting the entries above a number is dropping a prefix.

## Main definitions

* `Numbered f a l` — the entries of `l` carry the numbers `a`, `a + 1`, … under `f`

## Main results

* `Numbered.append` — logs are extended at the end
* `Numbered.eq_of_getElem?` — the number of an entry is its position
* `Numbered.filter_eq_drop` — the entries above a number are a suffix
* `Numbered.insertionSort` — sorting by number changes nothing
-/

variable {α : Type*} {f : α → ℕ} {a b n : ℕ} {l l' : List α}

/-- The entries of `l` carry consecutive numbers from `a` on. -/
def Numbered (f : α → ℕ) (a : ℕ) (l : List α) : Prop := l.map f = List.range' a l.length

namespace Numbered

theorem nil : Numbered f a [] := rfl

theorem cons_iff {x : α} : Numbered f a (x :: l) ↔ f x = a ∧ Numbered f (a + 1) l := by
  simp [Numbered, List.range'_succ]

theorem append (h : Numbered f a l) (h' : Numbered f (a + l.length) l') :
    Numbered f a (l ++ l') := by
  rw [Numbered] at h h'
  rw [Numbered, List.map_append, h, h', List.length_append, List.range'_append_1]

theorem drop (h : Numbered f a l) (n : ℕ) : Numbered f (a + n) (l.drop n) := by
  rw [Numbered] at h
  rw [Numbered, List.map_drop, h, List.drop_range', List.length_drop, Nat.mul_one]

theorem take (h : Numbered f a l) (n : ℕ) : Numbered f a (l.take n) := by
  rw [Numbered] at h
  rw [Numbered, List.map_take, h, List.length_take]
  rcases le_total n l.length with hn | hn
  · rw [List.take_range'_of_length_ge hn, Nat.min_eq_left hn]
  · rw [List.take_range'_of_length_le hn, Nat.min_eq_right hn]

theorem mem_iff (h : Numbered f a l) : (∃ x ∈ l, f x = n) ↔ a ≤ n ∧ n < a + l.length := by
  rw [← List.mem_map, h, List.mem_range'_1]

theorem eq_of_getElem? (h : Numbered f a l) {i : ℕ} {x : α} (hx : l[i]? = some x) :
    f x = a + i := by
  have hi : (l.map f)[i]? = some (f x) := by
    rw [List.getElem?_map, hx]
    rfl
  obtain ⟨hlt, -⟩ := List.getElem?_eq_some_iff.mp hx
  rw [h, List.getElem?_range' hlt, Nat.one_mul, Option.some.injEq] at hi
  exact hi.symm

/-- The entries above a number are a suffix. -/
theorem filter_eq_drop (h : Numbered f a l) (n : ℕ) :
    l.filter (fun x => a + n ≤ f x) = l.drop n := by
  induction l generalizing a n with
  | nil => simp
  | cons x l ih =>
    obtain ⟨hx, hl⟩ := cons_iff.mp h
    cases n with
    | zero =>
      refine List.filter_eq_self.mpr ?_
      intro y hy
      have := (h.mem_iff (n := f y)).mp ⟨y, hy, rfl⟩
      simpa using this.1
    | succ n =>
      rw [List.filter_cons, if_neg (by simp [hx]), List.drop_succ_cons, ← ih hl n]
      simp only [Nat.add_assoc, Nat.add_comm 1 n]

/-- Selecting above a number from a suffix that reaches further back. -/
theorem filter_drop (h : Numbered f a l) {m n : ℕ} (hmn : m ≤ n) :
    (l.drop m).filter (fun x => a + n ≤ f x) = l.drop n := by
  have hsplit : m + (n - m) = n := Nat.add_sub_cancel' hmn
  have hdrop := (h.drop m).filter_eq_drop (n - m)
  rw [List.drop_drop, hsplit] at hdrop
  rw [← hdrop, Nat.add_assoc, hsplit]

/-- Sorting by number changes nothing. -/
theorem insertionSort (h : Numbered f a l) : l.insertionSort (fun x y => f x ≤ f y) = l := by
  refine List.Pairwise.insertionSort_eq ?_
  rw [← List.pairwise_map (f := f) (R := (· ≤ ·)), h]
  exact List.pairwise_le_range'

end Numbered
