import Mathlib.Data.List.DropRight
import Mathlib.Data.List.Infix
import Mathlib.Tactic.Common

/-!
# Searching a stream through its tail

A stream comes in chunks, and only the last `n` members of it are kept. A pattern of at most `n + 1`
members is found when it is looked for in what is kept together with each new chunk, before anything
is dropped: what was dropped is too far back to be part of an occurrence that the chunk completes.

## Main definitions

* `Search`, `Search.push` — what is kept and whether the pattern was seen

## Main results

* `infix_append_iff` — an occurrence is an old one or one in the tail and the chunk
* `Search.foldl_push` — the search through the tail is the search of the stream
-/

namespace Tail

variable {α : Type*} {p l m : List α} {n : ℕ}

/-- Keeping the last `n` members twice is keeping them once. -/
theorem rtake_rtake_append (l m : List α) (n : ℕ) :
    (l.rtake n ++ m).rtake n = (l ++ m).rtake n := by
  rw [List.rtake, List.rtake, List.rtake, List.length_append, List.length_append, List.length_drop,
    List.drop_append, List.drop_append, List.drop_drop, List.length_drop]
  congr 2 <;> omega

theorem rtake_isSuffix (l : List α) (n : ℕ) : l.rtake n <:+ l := List.drop_suffix _ _

theorem length_rtake (l : List α) (n : ℕ) : (l.rtake n).length = min l.length n := by
  rw [List.rtake, List.length_drop]
  omega

theorem rtake_of_length_le (h : l.length ≤ n) : l.rtake n = l := by
  rw [List.rtake, Nat.sub_eq_zero_of_le h, List.drop_zero]

/-- An occurrence in a stream with a chunk is one in the stream, or one in its tail with the
chunk. -/
theorem infix_append_iff (hp : p.length ≤ n + 1) :
    p <:+: l ++ m ↔ p <:+: l ∨ p <:+: l.rtake n ++ m := by
  refine ⟨?_, ?_⟩
  · rintro ⟨before, after, hstream⟩
    have hlen := congrArg List.length hstream
    simp only [List.length_append] at hlen
    rcases Nat.lt_or_ge after.length m.length with hafter | hafter
    · -- the chunk completes it, so it starts in the tail
      right
      refine ⟨before.drop (l.length - n), after, ?_⟩
      rw [List.rtake, ← List.drop_append_of_le_length (Nat.sub_le _ _), ← hstream,
        List.append_assoc,
        List.append_assoc, List.drop_append_of_le_length (by omega)]
    · left
      have hwithin : before ++ p <+: l :=
        List.prefix_of_prefix_length_le ⟨after, hstream⟩ (List.prefix_append l m)
          (by rw [List.length_append]; omega)
      exact (List.suffix_append before p).isInfix.trans hwithin.isInfix
  · rintro (hold | hnew)
    · exact hold.trans (List.prefix_append l m).isInfix
    · obtain ⟨dropped, hl⟩ := rtake_isSuffix l n
      exact hnew.trans ⟨dropped, [], by rw [List.append_nil, ← List.append_assoc, hl]⟩

/-! ### The search -/

/-- What a search keeps: the tail of the stream, and whether the pattern was seen. -/
structure Search (α : Type*) where
  buffer : List α
  found : Bool

variable [DecidableEq α]

/-- A chunk is appended and searched together with what is kept, and then all but the last `n`
members are dropped. -/
def Search.push (p : List α) (n : ℕ) (s : Search α) (chunk : List α) : Search α :=
  ⟨(s.buffer ++ chunk).rtake n, s.found || decide (p <:+: s.buffer ++ chunk)⟩

/-- The search through the tail is the search of the stream. -/
theorem Search.foldl_push (hp : p.length ≤ n + 1) (past : List α) (chunks : List (List α)) :
    chunks.foldl (Search.push p n) ⟨past.rtake n, decide (p <:+: past)⟩ =
      ⟨(past ++ chunks.flatten).rtake n, decide (p <:+: past ++ chunks.flatten)⟩ := by
  induction chunks generalizing past with
  | nil => simp
  | cons chunk chunks ih =>
    have hpush : Search.push p n ⟨past.rtake n, decide (p <:+: past)⟩ chunk =
        ⟨(past ++ chunk).rtake n, decide (p <:+: past ++ chunk)⟩ := by
      have hsaw := infix_append_iff (l := past) (m := chunk) hp
      rw [Search.push, rtake_rtake_append, ← Bool.decide_or, decide_eq_decide.mpr hsaw]
    rw [List.foldl_cons, hpush, ih, List.flatten_cons, List.append_assoc]

end Tail
