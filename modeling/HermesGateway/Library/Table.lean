import Mathlib.Data.List.Basic
import Mathlib.Data.List.Nodup
import Mathlib.Tactic.Common

/-!
# Keyed tables

A table is the list of its rows. `SELECT … WHERE key = k` is `lookup`, `UPDATE … WHERE key = k`
is `modify`, an unconditional or otherwise conditioned `UPDATE` is a `map`, `INSERT` appends.
`c` reads the key of a row. Looking a row up needs no uniqueness: it is only where a statement
scans the whole table that the primary key matters, and that is `Keyed`.

## Main results

* `Table.lookup_map` — looking up after an update that keeps the keys
* `Table.lookup_modify` — the same for an update of one key
* `Table.Keyed.mem_iff_lookup` — in a keyed table, membership is lookup
* `Table.filter_modify` — an update seen through a selection of the rows
-/

namespace Table

variable {ρ κ : Type*} [DecidableEq κ] {c : ρ → κ}

/-- The row with key `k`. -/
def lookup (c : ρ → κ) (rows : List ρ) (k : κ) : Option ρ := rows.find? fun r => c r = k

/-- Update the rows with key `k`. -/
def modify (c : ρ → κ) (rows : List ρ) (k : κ) (f : ρ → ρ) : List ρ :=
  rows.map fun r => if c r = k then f r else r

/-- The keys are a primary key: no two rows share one. -/
def Keyed (c : ρ → κ) (rows : List ρ) : Prop := (rows.map c).Nodup

theorem mem_of_lookup {rows : List ρ} {k : κ} {r : ρ} (h : lookup c rows k = some r) :
    r ∈ rows :=
  List.mem_of_find?_eq_some h

theorem key_of_lookup {rows : List ρ} {k : κ} {r : ρ} (h : lookup c rows k = some r) :
    c r = k := by
  simpa using List.find?_some h

theorem lookup_eq_none {rows : List ρ} {k : κ} :
    lookup c rows k = none ↔ ∀ r ∈ rows, c r ≠ k := by
  simp [lookup]

theorem exists_lookup_of_mem {rows : List ρ} {r : ρ} (h : r ∈ rows) :
    ∃ r', lookup c rows (c r) = some r' := by
  cases hl : lookup c rows (c r) with
  | none => exact absurd rfl (lookup_eq_none.mp hl r h)
  | some r' => exact ⟨r', rfl⟩

/-- An update that keeps every key commutes with lookup. -/
theorem lookup_map {g : ρ → ρ} (hg : ∀ r, c (g r) = c r) (rows : List ρ) (k : κ) :
    lookup c (rows.map g) k = (lookup c rows k).map g := by
  simp only [lookup, List.find?_map, Function.comp_def, hg]

/-- Looking up after an update of one key. -/
theorem lookup_modify {f : ρ → ρ} (hf : ∀ r, c (f r) = c r) (rows : List ρ) (k k' : κ) :
    lookup c (modify c rows k f) k' =
      if k' = k then (lookup c rows k').map f else lookup c rows k' := by
  have hg : ∀ r, c (if c r = k then f r else r) = c r := by
    intro r
    split_ifs
    · exact hf r
    · rfl
  rw [modify, lookup_map hg]
  split_ifs with hk
  · subst hk
    cases hl : lookup c rows k' with
    | none => rfl
    | some r => simp [key_of_lookup hl]
  · cases hl : lookup c rows k' with
    | none => rfl
    | some r => simp [key_of_lookup hl, hk]

theorem lookup_modify_self {f : ρ → ρ} (hf : ∀ r, c (f r) = c r) (rows : List ρ) (k : κ) :
    lookup c (modify c rows k f) k = (lookup c rows k).map f := by
  rw [lookup_modify hf, if_pos rfl]

theorem lookup_append (rows rows' : List ρ) (k : κ) :
    lookup c (rows ++ rows') k = (lookup c rows k).or (lookup c rows' k) := by
  simp [lookup]

theorem lookup_insert (rows : List ρ) (r : ρ) (k : κ) :
    lookup c (rows ++ [r]) k = (lookup c rows k).or (if c r = k then some r else none) := by
  rw [lookup_append]
  simp only [lookup, List.find?_singleton, decide_eq_true_eq]

theorem lookup_insert_self {rows : List ρ} {r : ρ} (h : lookup c rows (c r) = none) :
    lookup c (rows ++ [r]) (c r) = some r := by
  rw [lookup_insert, h, if_pos rfl, Option.none_or]

theorem lookup_insert_of_ne {rows : List ρ} {r : ρ} {k : κ} (h : c r ≠ k) :
    lookup c (rows ++ [r]) k = lookup c rows k := by
  rw [lookup_insert, if_neg h, Option.or_none]

omit [DecidableEq κ] in
theorem keyed_map {g : ρ → ρ} (hg : ∀ r, c (g r) = c r) {rows : List ρ}
    (h : Keyed c rows) : Keyed c (rows.map g) := by
  rw [Keyed, List.map_map, show c ∘ g = c from funext hg]
  exact h

theorem keyed_modify {f : ρ → ρ} (hf : ∀ r, c (f r) = c r) {rows : List ρ} {k : κ}
    (h : Keyed c rows) : Keyed c (modify c rows k f) := by
  refine keyed_map (fun r => ?_) h
  split_ifs
  · exact hf r
  · rfl

theorem keyed_insert {rows : List ρ} {r : ρ} (h : Keyed c rows)
    (hr : lookup c rows (c r) = none) : Keyed c (rows ++ [r]) := by
  rw [Keyed, List.map_append, List.nodup_append]
  refine ⟨h, by simp, ?_⟩
  intro a ha b hb
  obtain ⟨s, hs, rfl⟩ := List.mem_map.mp ha
  rw [List.map_singleton, List.mem_singleton] at hb
  exact hb ▸ lookup_eq_none.mp hr s hs

omit [DecidableEq κ] in
/-- In a keyed table two rows with one key are the same row. -/
theorem Keyed.eq_of_key_eq {rows : List ρ} (h : Keyed c rows) {r s : ρ} (hr : r ∈ rows)
    (hs : s ∈ rows) (heq : c r = c s) : r = s :=
  List.inj_on_of_nodup_map h hr hs heq

/-- In a keyed table one row has a key that occurs. -/
theorem Keyed.filter_key {rows : List ρ} (h : Keyed c rows) {r : ρ} (hr : r ∈ rows) :
    (rows.filter fun s => c s = c r) = [r] := by
  induction rows with
  | nil => exact absurd hr List.not_mem_nil
  | cons s rows ih =>
    obtain ⟨hnew, hrest⟩ := List.nodup_cons.mp h
    rcases List.mem_cons.mp hr with rfl | hmem
    · rw [List.filter_cons_of_pos (by simp), List.filter_eq_nil_iff.mpr]
      intro s hs hkey
      exact hnew (List.mem_map.mpr ⟨s, hs, of_decide_eq_true hkey⟩)
    · have hne : c s ≠ c r := fun heq => hnew (List.mem_map.mpr ⟨r, hmem, heq.symm⟩)
      rw [List.filter_cons_of_neg (by simpa using hne)]
      exact ih hrest hmem

theorem Keyed.mem_iff_lookup {rows : List ρ} (h : Keyed c rows) {r : ρ} :
    r ∈ rows ↔ lookup c rows (c r) = some r := by
  refine ⟨fun hr => ?_, mem_of_lookup⟩
  obtain ⟨r', hr'⟩ := exists_lookup_of_mem (c := c) hr
  rw [hr', h.eq_of_key_eq (mem_of_lookup hr') hr (key_of_lookup hr')]

theorem mem_modify {f : ρ → ρ} {rows : List ρ} {k : κ} {r : ρ} :
    r ∈ modify c rows k f ↔
      (∃ s ∈ rows, c s = k ∧ f s = r) ∨ (r ∈ rows ∧ c r ≠ k) := by
  constructor
  · intro h
    obtain ⟨s, hs, rfl⟩ := List.mem_map.mp h
    split_ifs with hk
    · exact Or.inl ⟨s, hs, hk, rfl⟩
    · exact Or.inr ⟨hs, hk⟩
  · rintro (⟨s, hs, hk, rfl⟩ | ⟨hr, hk⟩)
    · exact List.mem_map.mpr ⟨s, hs, if_pos hk⟩
    · exact List.mem_map.mpr ⟨r, hr, if_neg hk⟩

/-- An update that `p` does not see commutes with the selection of the rows that satisfy `p`. -/
theorem filter_modify {f : ρ → ρ} {p : ρ → Bool} (hp : ∀ r, p (f r) = p r) (rows : List ρ) (k : κ) :
    (modify c rows k f).filter p = modify c (rows.filter p) k f := by
  have hg : ∀ r, p (if c r = k then f r else r) = p r := by
    intro r
    split_ifs
    · exact hp r
    · rfl
  rw [modify, modify, List.filter_map]
  exact congrArg (List.map _) (List.filter_congr fun r _ => hg r)

/-- An update of rows that do not satisfy `p` is not seen there. -/
theorem filter_modify_of_not {f : ρ → ρ} {p : ρ → Bool} {rows : List ρ} {k : κ}
    (hp : ∀ r, c r = k → p r = false ∧ p (f r) = false) :
    (modify c rows k f).filter p = rows.filter p := by
  induction rows with
  | nil => rfl
  | cons r rows ih =>
    rw [modify, List.map_cons]
    by_cases hk : c r = k
    · rw [if_pos hk, List.filter_cons_of_neg (by simp [(hp r hk).2]),
        List.filter_cons_of_neg (by simp [(hp r hk).1])]
      exact ih
    · rw [if_neg hk, List.filter_cons, List.filter_cons]
      exact congrArg (fun l => if p r = true then r :: l else l) ih

end Table
