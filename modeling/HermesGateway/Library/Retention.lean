import HermesGateway.Library.Table

/-!
# Keeping the latest finished entries

A log of entries in the order in which they were opened, some of them finished. From time to time
the oldest finished entries are dropped, such that `n` of them are left; an entry that is not
finished is never dropped. It does not matter how often that is done: what is left is what doing it
once, at the end, leaves of the whole log.

## Main results

* `filter_oldest` — dropping by key is `keep`
* `keep_map_keep` — an update of entries that are not finished, between two rounds
* `lookup_keep` — an entry is left unless it is finished and so are `n` that were opened after it
-/

namespace Retention

variable {ρ κ : Type*} [DecidableEq κ] {c : ρ → κ} {done : ρ → Bool} {n : ℕ} {rows : List ρ}

/-- The log without the oldest finished entries, such that `n` of them are left. -/
def keep (n : ℕ) (done : ρ → Bool) : List ρ → List ρ
  | [] => []
  | r :: rows =>
    if done r = true ∧ n ≤ rows.countP done then keep n done rows else r :: keep n done rows

/-- The entries that were opened after the one with a key. -/
def later (c : ρ → κ) (rows : List ρ) (k : κ) : List ρ := (rows.dropWhile fun r => c r ≠ k).tail

theorem later_map {g : ρ → ρ} (hg : ∀ r, c (g r) = c r) (rows : List ρ) (k : κ) :
    later c (rows.map g) k = (later c rows k).map g := by
  have hkey : ((fun r => decide (c r ≠ k)) ∘ g) = fun r => decide (c r ≠ k) :=
    funext fun r => by rw [Function.comp_apply, hg]
  rw [later, List.dropWhile_map, hkey, later, List.map_tail]

theorem later_append {k : κ} (h : k ∈ rows.map c) (rows' : List ρ) :
    later c (rows ++ rows') k = later c rows k ++ rows' := by
  induction rows with
  | nil => exact absurd h List.not_mem_nil
  | cons r rows ih =>
    rw [List.cons_append, later, later]
    by_cases hk : c r = k
    · rw [List.dropWhile_cons_of_neg (by simpa using hk),
        List.dropWhile_cons_of_neg (by simpa using hk)]
      rfl
    · rw [List.dropWhile_cons_of_pos (by simpa using hk),
        List.dropWhile_cons_of_pos (by simpa using hk)]
      rw [List.map_cons, List.mem_cons] at h
      exact ih (h.resolve_left (Ne.symm hk))

theorem keep_sublist (n : ℕ) (done : ρ → Bool) (rows : List ρ) :
    (keep n done rows).Sublist rows := by
  induction rows with
  | nil => exact List.Sublist.refl []
  | cons r rows ih =>
    rw [keep]
    split_ifs
    · exact ih.cons r
    · exact ih.cons_cons r

/-- As long as there are few, none is dropped. -/
theorem keep_eq_self (h : rows.countP done ≤ n) : keep n done rows = rows := by
  induction rows with
  | nil => rfl
  | cons r rows ih =>
    rw [List.countP_cons] at h
    rw [keep, if_neg, ih (by omega)]
    rintro ⟨hdone, hmany⟩
    rw [if_pos hdone] at h
    omega

theorem countP_keep (n : ℕ) (done : ρ → Bool) (rows : List ρ) :
    (keep n done rows).countP done = min n (rows.countP done) := by
  induction rows with
  | nil => simp [keep]
  | cons r rows ih =>
    rw [keep, List.countP_cons]
    split_ifs with hdrop hdone hdone
    · rw [ih]
      omega
    · exact absurd hdrop.1 hdone
    · rw [List.countP_cons, if_pos hdone, ih]
      have : ¬ n ≤ rows.countP done := fun hmany => hdrop ⟨hdone, hmany⟩
      omega
    · rw [List.countP_cons, if_neg hdone, ih]
      rfl

/-- A new entry that is not finished. -/
theorem keep_append {r : ρ} (hr : done r = false) (rows : List ρ) :
    keep n done (rows ++ [r]) = keep n done rows ++ [r] := by
  induction rows with
  | nil => simp [keep, hr]
  | cons s rows ih =>
    have hcount : (rows ++ [r]).countP done = rows.countP done := by
      simp [List.countP_append, hr]
    rw [List.cons_append, keep, keep, hcount, ih]
    split_ifs <;> rfl

theorem countP_map_of_finished {g : ρ → ρ} (hg : ∀ r, done r = true → g r = r) (rows : List ρ) :
    rows.countP done ≤ (rows.map g).countP done := by
  induction rows with
  | nil => exact Nat.le_refl 0
  | cons r rows ih =>
    rw [List.map_cons, List.countP_cons, List.countP_cons]
    split_ifs with h h'
    · omega
    · rw [hg r h] at h'
      exact absurd h h'
    · omega
    · omega

/-- What is counted after an update is the same up to `n`, whether or not entries were dropped
before. -/
theorem le_countP_map_keep {g : ρ → ρ} (hg : ∀ r, done r = true → g r = r) (rows : List ρ) :
    n ≤ ((keep n done rows).map g).countP done ↔ n ≤ (rows.map g).countP done := by
  by_cases hfew : rows.countP done ≤ n
  · rw [keep_eq_self hfew]
  · have hkept := countP_keep n done rows
    have hle := countP_map_of_finished hg (keep n done rows)
    have hle' := countP_map_of_finished hg rows
    constructor <;> intro <;> omega

/-- **An update between two rounds**: it may as well be made before the first. -/
theorem keep_map_keep {g : ρ → ρ} (hg : ∀ r, done r = true → g r = r) (rows : List ρ) :
    keep n done ((keep n done rows).map g) = keep n done (rows.map g) := by
  induction rows with
  | nil => rfl
  | cons r rows ih =>
    rw [keep, List.map_cons, keep]
    by_cases hdrop : done r = true ∧ n ≤ rows.countP done
    · have hstill : done (g r) = true ∧ n ≤ (rows.map g).countP done := by
        rw [hg r hdrop.1]
        exact ⟨hdrop.1, Nat.le_trans hdrop.2 (countP_map_of_finished hg rows)⟩
      rw [if_pos hdrop, if_pos hstill, ih]
    · rw [if_neg hdrop, List.map_cons, keep, ih]
      simp only [le_countP_map_keep hg rows]

/-- An update that finishes nothing commutes with dropping. -/
theorem keep_map {g : ρ → ρ} (hg : ∀ r, done (g r) = done r) (rows : List ρ) :
    keep n done (rows.map g) = (keep n done rows).map g := by
  have hcount : ∀ rows : List ρ, (rows.map g).countP done = rows.countP done := by
    intro rows
    rw [List.countP_map]
    exact List.countP_congr fun r _ => by rw [Function.comp_apply, hg]
  induction rows with
  | nil => rfl
  | cons r rows ih =>
    rw [List.map_cons, keep, keep, hg, hcount, ih]
    split_ifs <;> rfl

/-- **Dropping by key**, when the keys are different. -/
theorem filter_oldest (h : Table.Keyed c rows) :
    rows.filter (fun r => c r ∉ ((rows.filter done).map c).take (rows.countP done - n)) =
      keep n done rows := by
  induction rows with
  | nil => rfl
  | cons r rows ih =>
    obtain ⟨hnew, hkeyed⟩ := List.nodup_cons.mp h
    have hother : ∀ s ∈ rows, c s ≠ c r := by
      intro s hs heq
      exact hnew (heq ▸ List.mem_map_of_mem hs)
    have hsub : ∀ m, c r ∉ ((rows.filter done).map c).take m := by
      intro m hm
      obtain ⟨s, hs, heq⟩ := List.mem_map.mp (List.mem_of_mem_take hm)
      exact hother s (List.mem_of_mem_filter hs) heq
    by_cases hdone : done r = true
    · rw [List.filter_cons_of_pos (p := done) hdone, List.map_cons, List.countP_cons_of_pos hdone,
        keep]
      by_cases hmany : n ≤ rows.countP done
      · rw [if_pos ⟨hdone, hmany⟩, ← ih hkeyed,
          show rows.countP done + 1 - n = (rows.countP done - n) + 1 by omega,
          List.take_succ_cons, List.filter_cons_of_neg (by simp)]
        refine List.filter_congr fun s hs => ?_
        simp [hother s hs]
      · rw [if_neg (fun hdrop => hmany hdrop.2), show rows.countP done + 1 - n = 0 by omega,
          keep_eq_self (by omega)]
        simp
    · rw [List.filter_cons_of_neg (p := done) hdone, List.countP_cons_of_neg hdone, keep,
        if_neg (fun hdrop => hdone hdrop.1),
        List.filter_cons_of_pos (by simpa using hsub _), ih hkeyed]

/-- **What is left**: an entry is dropped once it is finished and so are `n` that were opened after
it. -/
theorem lookup_keep (h : Table.Keyed c rows) (k : κ) :
    Table.lookup c (keep n done rows) k = (Table.lookup c rows k).filter fun r =>
      !done r || decide ((later c rows k).countP done < n) := by
  induction rows with
  | nil => rfl
  | cons r rows ih =>
    obtain ⟨hnew, hkeyed⟩ := List.nodup_cons.mp h
    have hcons : ∀ rows, Table.lookup c (r :: rows) k =
        if c r = k then some r else Table.lookup c rows k := by
      intro rows
      unfold Table.lookup
      by_cases hk : c r = k <;> simp [hk]
    rw [keep, hcons rows]
    by_cases hk : c r = k
    · have hlater : later c (r :: rows) k = rows := by
        rw [later, List.dropWhile_cons_of_neg (by simpa using hk), List.tail_cons]
      have hnone : Table.lookup c (keep n done rows) k = none := by
        refine Table.lookup_eq_none.mpr fun s hs heq => ?_
        exact hnew (hk ▸ heq ▸ List.mem_map_of_mem ((keep_sublist n done rows).subset hs))
      rw [if_pos hk, hlater]
      split_ifs with hdrop
      · rw [hnone, Option.filter_some_neg]
        simp [hdrop.1, hdrop.2]
      · rw [hcons, if_pos hk, Option.filter_some_pos]
        by_cases hdone : done r = true
        · simpa [hdone] using fun hmany => hdrop ⟨hdone, hmany⟩
        · simp [hdone]
    · have hlater : later c (r :: rows) k = later c rows k := by
        rw [later, List.dropWhile_cons_of_pos (by simpa using hk), later]
      rw [if_neg hk, hlater]
      split_ifs
      · exact ih hkeyed
      · rw [hcons, if_neg hk]
        exact ih hkeyed

end Retention
