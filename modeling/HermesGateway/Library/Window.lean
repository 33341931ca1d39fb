import Mathlib.Order.Lattice
import Mathlib.Data.List.Induction
import Mathlib.Tactic.Common

/-!
# Sliding windows over a list of times

A list of times in order, from whose front the times that are too old are dropped. What is left is
the part of the list in the window, however often it was dropped from before.

## Main results

* `dropWhile_le_eq_filter` — dropping the old times of an ordered list keeps the others
* `filter_lt_filter_lt` — dropping twice is dropping once, with the later limit
* `countP_le_of_preceded` — a window holds at most `n` times when each time had fewer than `n` in
  the window before it
-/

namespace Window

variable {α : Type*}

/-- Dropping the old times of an ordered list keeps exactly the others. -/
theorem dropWhile_le_eq_filter [LinearOrder α] {ts : List α} (h : ts.Pairwise (· ≤ ·)) (a : α) :
    ts.dropWhile (· ≤ a) = ts.filter (a < ·) := by
  induction ts with
  | nil => rfl
  | cons t ts ih =>
    obtain ⟨hhead, htail⟩ := List.pairwise_cons.mp h
    by_cases hold : t ≤ a
    · rw [List.dropWhile_cons_of_pos (by simpa using hold), ih htail,
        List.filter_cons_of_neg (by simpa using hold)]
    · rw [List.dropWhile_cons_of_neg (by simpa using hold),
        List.filter_cons_of_pos (by simpa using hold)]
      refine congrArg _ (List.filter_eq_self.mpr fun u hu => ?_).symm
      simpa using (not_le.mp hold).trans_le (hhead u hu)

/-- Dropping twice is dropping once, with the later limit. -/
theorem filter_lt_filter_lt [LinearOrder α] (ts : List α) {a b : α} (h : a ≤ b) :
    (ts.filter (a < ·)).filter (b < ·) = ts.filter (b < ·) := by
  rw [List.filter_filter]
  refine List.filter_congr fun t _ => ?_
  have : b < t → a < t := h.trans_lt
  simpa using this

/-- A window holds at most `n` times, when each time had fewer than `n` near before it, and the
times of a window are near each other. -/
theorem countP_le_of_preceded {near : α → α → Prop} [DecidableRel near] {p : α → Prop}
    [DecidablePred p] (hp : ∀ u t, p u → p t → near u t) {n : ℕ} {ts : List α}
    (h : ∀ before t after, ts = before ++ t :: after → before.countP (near · t) < n) :
    ts.countP p ≤ n := by
  induction ts using List.reverseRecOn with
  | nil => exact Nat.zero_le n
  | append_singleton ts t ih =>
    have hbefore := ih fun before u after heq => h before u (after ++ [t]) (by rw [heq]; simp)
    rw [List.countP_append, List.countP_singleton]
    split_ifs with ht
    · -- the times before `t` that are in the window are near it
      have hle : ts.countP p ≤ ts.countP (near · t) :=
        List.countP_mono_left fun u _ hu => by
          simpa using hp u t (by simpa using hu) (by simpa using ht)
      have := h ts t [] rfl
      omega
    · omega

end Window
