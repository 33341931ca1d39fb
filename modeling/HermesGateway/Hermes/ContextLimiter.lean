import HermesGateway.Library.Table
import HermesGateway.Library.Window
import Mathlib.Algebra.Order.Floor.Ring
import Mathlib.Data.Rat.Floor
import Mathlib.Tactic.Linarith

/-!
# The submission limit of the Hermes patch

`GatewayContextLimiter` keeps, for each peer, agent, tenant and context, the times of the latest
submissions it admitted. Every call first drops what is older than a minute, of all keys, and
forgets the keys that have nothing left. Times are exact; the readings of the two clocks come with
the call.

What the buckets hold is read off the history of the calls: the bucket of a key is the part of the
times admitted for it that was in the window at the last call, whichever key that was of.

## Main definitions

* `GatewayContextLimiter.admitCall` — the method
* `history`, `admissions`, `admittedTimes` — what a sequence of calls was answered
* `GatewayContextLimiter.decision` — the answer to the next call

## Main results

* `decision_eq` — the answer depends on the admitted times in the window
* `decision_admissions` — and on nothing else
* `sliding_window` — the limit is exactly that of a sliding window
-/

namespace HermesGateway.Hermes

/-! ### The limiter -/

/-- What submissions are counted by. -/
structure BucketKey where
  peer : String
  agent : String
  tenant : String
  context : String
deriving DecidableEq, Repr

/-- An entry of `_buckets`. -/
structure Bucket where
  key : BucketKey
  times : List ℚ
deriving DecidableEq

/-- `_buckets`. -/
abbrev Buckets := List Bucket

/-- A call of `admit`, with the readings of the clock and of the wall clock. -/
structure Call where
  key : BucketKey
  now : ℚ
  wall : ℚ
deriving DecidableEq

/-- The diagnostics of a denial. -/
structure Denial where
  reason : String
  peerState : String
  executionStarted : Bool
  retryAfterSeconds : ℤ
  retryAt : String
  recommendedAction : String
deriving DecidableEq, Repr

/-- The limiter, with what renders a time. -/
structure GatewayContextLimiter where
  /-- `datetime.fromtimestamp(seconds, timezone.utc).isoformat()` -/
  isoformat : ℚ → String

/-- The inner loop: what is older than a minute is dropped. -/
def Bucket.swept (now : ℚ) (b : Bucket) : Bucket :=
  { b with times := b.times.dropWhile (· ≤ now - 60) }

/-- The loop over the keys. -/
def sweep (now : ℚ) (B : Buckets) : Buckets :=
  (B.map (Bucket.swept now)).filter fun b => b.times ≠ []

/-- The times of a key, none if it has no bucket. -/
def timesOf (B : Buckets) (k : BucketKey) : List ℚ :=
  ((Table.lookup Bucket.key B k).map Bucket.times).getD []

/-- The bucket of a key with a time appended, inserted if there is none. -/
def append (B : Buckets) (k : BucketKey) (now : ℚ) : Buckets :=
  match Table.lookup Bucket.key B k with
  | some _ => Table.modify Bucket.key B k fun b => { b with times := b.times ++ [now] }
  | none => B ++ [⟨k, [now]⟩]

namespace GatewayContextLimiter

variable (limiter : GatewayContextLimiter)

/-- The answer to a call whose bucket holds these times. -/
def answer (c : Call) : List ℚ → Option Denial
  | [] => none
  | oldest :: rest =>
    if 5 ≤ (oldest :: rest).length then
      let delay := max 1 ⌈oldest + 60 - c.now⌉
      some
        { reason := "context_rate_limited"
          peerState := "rejected"
          executionStarted := false
          retryAfterSeconds := delay
          retryAt := limiter.isoformat (c.wall + delay)
          recommendedAction := "wait_then_submit_new" }
    else none

/-- `admit`. -/
def admitCall (c : Call) (B : Buckets) : Option Denial × Buckets :=
  let B := sweep c.now B
  match limiter.answer c (timesOf B c.key) with
  | some denial => (some denial, B)
  | none => (none, append B c.key c.now)

/-- The buckets after a sequence of calls. -/
def buckets (calls : List Call) : Buckets := calls.foldl (fun B c => (limiter.admitCall c B).2) []

/-- The answer to a call after a sequence of calls. -/
def decision (calls : List Call) (c : Call) : Option Denial :=
  (limiter.admitCall c (limiter.buckets calls)).1

/-- The calls for a key that were admitted, with the calls made before. -/
def admissionsFrom (k : BucketKey) (before : List Call) : List Call → List Call
  | [] => []
  | c :: calls =>
    (if c.key = k ∧ limiter.decision before c = none then [c] else []) ++
      admissionsFrom k (before ++ [c]) calls

/-- The calls for a key that were admitted. -/
def admissions (calls : List Call) (k : BucketKey) : List Call := limiter.admissionsFrom k [] calls

/-- Their times. -/
def admittedTimes (calls : List Call) (k : BucketKey) : List ℚ :=
  (limiter.admissions calls k).map Call.now

end GatewayContextLimiter

/-- The clock never goes back. -/
def Nondecreasing (calls : List Call) : Prop := (calls.map Call.now).Pairwise (· ≤ ·)

/-! ### Buckets -/

section

variable {B : Buckets} {k k' : BucketKey} {now : ℚ}

theorem timesOf_sweep (hB : Table.Keyed Bucket.key B) (now : ℚ) (k : BucketKey) :
    timesOf (sweep now B) k = (timesOf B k).dropWhile (· ≤ now - 60) := by
  induction B with
  | nil => rfl
  | cons b B ih =>
    obtain ⟨hnew, hB⟩ := List.nodup_cons.mp hB
    have hcons : ∀ (b : Bucket) B,
        timesOf (b :: B) k = if b.key = k then b.times else timesOf B k := by
      intro b B
      unfold timesOf Table.lookup
      by_cases hk : b.key = k <;> simp [hk]
    have hnone : b.key = k → timesOf B k = [] := by
      rintro rfl
      have : Table.lookup Bucket.key B b.key = none :=
        Table.lookup_eq_none.mpr fun b' hb' hk => hnew (List.mem_map.mpr ⟨b', hb', hk⟩)
      rw [timesOf, this]
      rfl
    rw [hcons]
    unfold sweep at ih ⊢
    rw [List.map_cons, List.filter_cons]
    have hkey : (b.swept now).key = b.key := rfl
    split_ifs with hkept hk hk
    · rw [hcons, hkey, if_pos hk]
      rfl
    · rw [hcons, hkey, if_neg hk]
      exact ih hB
    · -- nothing is left of the bucket, and the key has no other
      have hempty : (b.swept now).times = [] := by simpa using hkept
      rw [ih hB, hnone hk]
      exact hempty.symm
    · exact ih hB

theorem keyed_sweep (hB : Table.Keyed Bucket.key B) (now : ℚ) :
    Table.Keyed Bucket.key (sweep now B) := by
  have hmap : Table.Keyed Bucket.key (B.map (Bucket.swept now)) :=
    Table.keyed_map (fun b => show (b.swept now).key = b.key from rfl) hB
  exact hmap.sublist (List.filter_sublist.map Bucket.key)

theorem timesOf_append : timesOf (append B k now) k' =
    if k' = k then timesOf B k ++ [now] else timesOf B k' := by
  unfold append timesOf
  cases hrow : Table.lookup Bucket.key B k with
  | some b =>
    dsimp only
    rw [Table.lookup_modify (by exact fun _ => rfl)]
    split_ifs with hk
    · rw [hk, hrow]
      rfl
    · rfl
  | none =>
    dsimp only
    rw [Table.lookup_insert]
    split_ifs with hk hk' hk'
    · rw [hk', hrow]
      rfl
    · exact absurd hk.symm hk'
    · exact absurd hk'.symm hk
    · rw [Option.or_none]

theorem keyed_append (hB : Table.Keyed Bucket.key B) : Table.Keyed Bucket.key (append B k now) := by
  unfold append
  cases hrow : Table.lookup Bucket.key B k with
  | some b => exact Table.keyed_modify (by exact fun _ => rfl) hB
  | none => exact Table.keyed_insert hB hrow

end

/-! ### The history -/

namespace GatewayContextLimiter

variable {limiter : GatewayContextLimiter} {calls : List Call} {c : Call} {k : BucketKey}

theorem admissionsFrom_append (k : BucketKey) (before calls more : List Call) :
    limiter.admissionsFrom k before (calls ++ more) =
      limiter.admissionsFrom k before calls ++ limiter.admissionsFrom k (before ++ calls) more := by
  induction calls generalizing before with
  | nil => rw [List.append_nil]; rfl
  | cons c calls ih =>
    rw [List.cons_append, admissionsFrom, ih, admissionsFrom, List.append_assoc, List.append_assoc]
    rfl

theorem admissions_append (calls more : List Call) (k : BucketKey) :
    limiter.admissions (calls ++ more) k =
      limiter.admissions calls k ++ limiter.admissionsFrom k calls more :=
  admissionsFrom_append k [] calls more

theorem admissions_snoc (calls : List Call) (c : Call) (k : BucketKey) :
    limiter.admissions (calls ++ [c]) k = limiter.admissions calls k ++
      if c.key = k ∧ limiter.decision calls c = none then [c] else [] := by
  rw [admissions_append, admissionsFrom, admissionsFrom, List.append_nil]

theorem admittedTimes_snoc (calls : List Call) (c : Call) (k : BucketKey) :
    limiter.admittedTimes (calls ++ [c]) k = limiter.admittedTimes calls k ++
      if c.key = k ∧ limiter.decision calls c = none then [c.now] else [] := by
  rw [admittedTimes, admissions_snoc, List.map_append]
  split_ifs <;> rfl

theorem admissions_sublist (calls : List Call) (k : BucketKey) :
    (limiter.admissions calls k).Sublist calls := by
  induction calls using List.reverseRecOn with
  | nil => exact List.Sublist.refl []
  | append_singleton calls c ih =>
    rw [admissions_snoc]
    split_ifs
    · exact ih.append (List.Sublist.refl [c])
    · rw [List.append_nil]
      exact ih.trans (List.sublist_append_left calls [c])

theorem buckets_snoc (calls : List Call) (c : Call) :
    limiter.buckets (calls ++ [c]) = (limiter.admitCall c (limiter.buckets calls)).2 := by
  rw [buckets, List.foldl_append]
  rfl

theorem answer_eq_none {c : Call} {ts : List ℚ} : limiter.answer c ts = none ↔ ts.length < 5 := by
  cases ts with
  | nil => simp [answer]
  | cons t ts =>
    rw [answer]
    split_ifs with hfull
    · exact iff_of_false (by simp) (not_lt.mpr hfull)
    · exact iff_of_true rfl (not_le.mp hfull)

/-! ### What the buckets hold -/

theorem pairwise_admittedTimes (h : Nondecreasing calls) (k : BucketKey) :
    (limiter.admittedTimes calls k).Pairwise (· ≤ ·) :=
  List.Pairwise.sublist ((admissions_sublist calls k).map Call.now) h

theorem nondecreasing_append {calls more : List Call} (h : Nondecreasing (calls ++ more)) :
    Nondecreasing calls ∧ Nondecreasing more ∧ ∀ c ∈ calls, ∀ m ∈ more, c.now ≤ m.now := by
  rw [Nondecreasing, List.map_append, List.pairwise_append] at h
  exact ⟨h.1, h.2.1, fun c hc m hm => h.2.2 _ (List.mem_map_of_mem hc) _ (List.mem_map_of_mem hm)⟩

/-- **What the buckets hold**: once swept, the admitted times in the window. -/
theorem buckets_spec (h : Nondecreasing calls) :
    Table.Keyed Bucket.key (limiter.buckets calls) ∧
      ∀ now, (∀ c ∈ calls, c.now ≤ now) → ∀ k,
        (timesOf (limiter.buckets calls) k).dropWhile (· ≤ now - 60) =
          (limiter.admittedTimes calls k).filter (now - 60 < ·) := by
  induction calls using List.reverseRecOn with
  | nil => exact ⟨List.nodup_nil, fun now _ k => rfl⟩
  | append_singleton calls c ih =>
    obtain ⟨hcalls, -, hle⟩ := nondecreasing_append h
    obtain ⟨hkeyed, hspec⟩ := ih hcalls
    have hbefore : ∀ c' ∈ calls, c'.now ≤ c.now := fun c' hc' =>
      hle c' hc' c (List.mem_singleton_self c)
    -- the times of each key after the sweep of this call
    have hswept : ∀ k, timesOf (sweep c.now (limiter.buckets calls)) k =
        (limiter.admittedTimes calls k).filter (c.now - 60 < ·) := fun k => by
      rw [timesOf_sweep hkeyed, hspec c.now hbefore]
    have htimes : ∀ k, timesOf (limiter.buckets (calls ++ [c])) k =
        (limiter.admittedTimes calls k).filter (c.now - 60 < ·) ++
          if c.key = k ∧ limiter.decision calls c = none then [c.now] else [] := by
      intro k
      rw [buckets_snoc, decision, admitCall]
      cases hanswer : limiter.answer c (timesOf (sweep c.now (limiter.buckets calls)) c.key) with
      | some denial => simp [hswept]
      | none =>
        dsimp only
        rw [timesOf_append]
        by_cases hk : k = c.key
        · simp [hk, hswept]
        · simp [hk, Ne.symm hk, hswept]
    refine ⟨?_, fun now hnow k => ?_⟩
    · rw [buckets_snoc, admitCall]
      cases limiter.answer c (timesOf (sweep c.now (limiter.buckets calls)) c.key) with
      | some denial => exact keyed_sweep hkeyed _
      | none => exact keyed_append (keyed_sweep hkeyed _)
    · have hlater : c.now - 60 ≤ now - 60 :=
        sub_le_sub_right (hnow c (List.mem_append_right _ (List.mem_singleton_self c))) 60
      have hfilter : (timesOf (limiter.buckets (calls ++ [c])) k).filter (now - 60 < ·) =
          (limiter.admittedTimes (calls ++ [c]) k).filter (now - 60 < ·) := by
        rw [htimes, admittedTimes_snoc, List.filter_append, List.filter_append,
          Window.filter_lt_filter_lt _ hlater]
      rw [← hfilter]
      refine Window.dropWhile_le_eq_filter
        (List.Pairwise.sublist ?_ (@pairwise_admittedTimes limiter _ h k)) _
      rw [htimes, admittedTimes_snoc]
      exact List.filter_sublist.append (List.Sublist.refl _)

/-- **The answer depends on the admitted times in the window.** -/
theorem decision_eq (h : Nondecreasing (calls ++ [c])) :
    limiter.decision calls c =
      limiter.answer c ((limiter.admittedTimes calls c.key).filter (c.now - 60 < ·)) := by
  obtain ⟨hcalls, -, hle⟩ := nondecreasing_append h
  obtain ⟨hkeyed, hspec⟩ := @buckets_spec limiter calls hcalls
  have hbefore : ∀ c' ∈ calls, c'.now ≤ c.now := fun c' hc' =>
    hle c' hc' c (List.mem_singleton_self c)
  rw [← hspec c.now hbefore, ← timesOf_sweep hkeyed, decision, admitCall]
  cases limiter.answer c (timesOf (sweep c.now (limiter.buckets calls)) c.key) <;> rfl

theorem decision_eq_none (h : Nondecreasing (calls ++ [c])) : limiter.decision calls c = none ↔
    ((limiter.admittedTimes calls c.key).filter (c.now - 60 < ·)).length < 5 := by
  rw [decision_eq h, answer_eq_none]

/-! ### The window -/

/-- Every admitted time had fewer than five in the minute before it. -/
theorem preceded (h : Nondecreasing calls) (k : BucketKey) : ∀ before t after,
    limiter.admittedTimes calls k = before ++ t :: after →
      before.countP (fun u => t - 60 < u) < 5 := by
  induction calls using List.reverseRecOn with
  | nil =>
    intro before t after heq
    exact absurd heq.symm (by simp [admittedTimes, admissions, admissionsFrom])
  | append_singleton calls c ih =>
    intro before t after heq
    rw [admittedTimes_snoc] at heq
    split_ifs at heq with hadmitted
    · obtain ⟨rfl, hnone⟩ := hadmitted
      rcases List.eq_nil_or_concat after with rfl | ⟨after, u, rfl⟩
      · obtain ⟨rfl, hlast⟩ := List.append_inj' heq rfl
        obtain rfl := List.head_eq_of_cons_eq hlast
        rw [List.countP_eq_length_filter]
        exact (decision_eq_none h).mp hnone
      · rw [List.concat_eq_append, ← List.cons_append, ← List.append_assoc] at heq
        obtain ⟨hinit, -⟩ := List.append_inj' heq rfl
        exact ih (nondecreasing_append h).1 before t after hinit
    · rw [List.append_nil] at heq
      exact ih (nondecreasing_append h).1 before t after heq

/-- A window of a minute holds five admissions of a key at most. -/
theorem countP_window_le (h : Nondecreasing calls) (k : BucketKey) {p : ℚ → Prop} [DecidablePred p]
    (hp : ∀ u t, p u → p t → t - 60 < u) : (limiter.admittedTimes calls k).countP p ≤ 5 :=
  @Window.countP_le_of_preceded ℚ (fun u t => t - 60 < u) _ p _ hp 5 _ (preceded h k)

theorem length_window_le (h : Nondecreasing calls) (k : BucketKey) {now : ℚ}
    (hnow : ∀ c ∈ calls, c.now ≤ now) :
    ((limiter.admittedTimes calls k).filter (now - 60 < ·)).length ≤ 5 := by
  have hle : ∀ t ∈ limiter.admittedTimes calls k, t ≤ now := by
    intro t ht
    obtain ⟨c, hc, rfl⟩ := List.mem_map.mp ht
    exact hnow c ((admissions_sublist calls k).subset hc)
  rw [← List.countP_eq_length_filter, List.countP_congr (q := fun t => now - 60 < t ∧ t ≤ now)]
  · exact countP_window_le h k fun u t hu ht => by linarith [hu.1, ht.2]
  · intro t ht
    simpa using fun _ => hle t ht

/-! ### Deleted calls -/

/-- The admitted calls of a key are admitted when they are made alone. -/
theorem admissions_admissions (h : Nondecreasing calls) (k : BucketKey) :
    limiter.admissions (limiter.admissions calls k) k = limiter.admissions calls k := by
  induction calls using List.reverseRecOn with
  | nil => rfl
  | append_singleton calls c ih =>
    have hcalls := (nondecreasing_append h).1
    rw [admissions_snoc]
    split_ifs with hadmitted
    · obtain ⟨rfl, hnone⟩ := hadmitted
      have hsub : Nondecreasing (limiter.admissions calls c.key ++ [c]) :=
        List.Pairwise.sublist (((admissions_sublist calls c.key).append
          (List.Sublist.refl [c])).map Call.now) h
      have hsame : limiter.decision (limiter.admissions calls c.key) c = none := by
        rw [decision_eq hsub, admittedTimes, ih hcalls]
        rw [decision_eq h] at hnone
        exact hnone
      rw [admissions_snoc, ih hcalls, if_pos ⟨rfl, hsame⟩]
    · rw [List.append_nil]
      exact ih hcalls

/-- **The answer depends on nothing else**: the calls for other keys and the denied ones may as well
not have been made. -/
theorem decision_admissions (h : Nondecreasing (calls ++ [c])) :
    limiter.decision calls c = limiter.decision (limiter.admissions calls c.key) c := by
  have hsub : Nondecreasing (limiter.admissions calls c.key ++ [c]) :=
    List.Pairwise.sublist (((admissions_sublist calls c.key).append
      (List.Sublist.refl [c])).map Call.now) h
  rw [decision_eq h, decision_eq hsub, admittedTimes, admittedTimes,
    admissions_admissions (nondecreasing_append h).1]

/-! ### Denials -/

/-- A denial reports how long the oldest of the five times stays in the window. -/
theorem answer_eq_some {ts : List ℚ} {denial : Denial} (h : limiter.answer c ts = some denial) :
    ∃ oldest rest, ts = oldest :: rest ∧ 5 ≤ ts.length ∧
      denial.retryAfterSeconds = max 1 ⌈oldest + 60 - c.now⌉ := by
  cases ts with
  | nil => cases h
  | cons oldest rest =>
    rw [answer] at h
    split_ifs at h with hfull
    exact ⟨oldest, rest, rfl, hfull, by rw [← Option.some.inj h]⟩

/-- The delay of a denial: the oldest of the five admitted times leaves the window within its last
second. -/
theorem denied (h : Nondecreasing (calls ++ [c])) {denial : Denial}
    (hdenied : limiter.decision calls c = some denial) :
    ∃ oldest rest, (limiter.admittedTimes calls c.key).filter (c.now - 60 < ·) = oldest :: rest ∧
      rest.length = 4 ∧ (∀ t ∈ rest, oldest ≤ t) ∧
      denial.retryAfterSeconds = ⌈oldest + 60 - c.now⌉ ∧
      1 ≤ denial.retryAfterSeconds ∧ denial.retryAfterSeconds ≤ 60 := by
  obtain ⟨hcalls, -, hle⟩ := nondecreasing_append h
  have hnow : ∀ c' ∈ calls, c'.now ≤ c.now := fun c' hc' =>
    hle c' hc' c (List.mem_singleton_self c)
  rw [decision_eq h] at hdenied
  obtain ⟨oldest, rest, hts, hfull, hdelay⟩ := answer_eq_some hdenied
  have hbound := @length_window_le limiter _ hcalls c.key _ hnow
  have hsorted := (@pairwise_admittedTimes limiter _ hcalls c.key).sublist
    (List.filter_sublist (p := fun t => decide (c.now - 60 < t)))
  have holdest : oldest ∈ (limiter.admittedTimes calls c.key).filter (c.now - 60 < ·) := by
    rw [hts]
    exact List.mem_cons_self
  obtain ⟨hmem, hrecent⟩ := List.mem_filter.mp holdest
  obtain ⟨c', hc', heq⟩ := List.mem_map.mp hmem
  have hrecent : c.now - 60 < oldest := by simpa using hrecent
  have hpast : oldest ≤ c.now := heq ▸ hnow c' ((admissions_sublist calls c.key).subset hc')
  rw [hts] at hbound hsorted hfull
  have hpos : 1 ≤ ⌈oldest + 60 - c.now⌉ := Int.one_le_ceil_iff.mpr (by linarith)
  have hmax : ⌈oldest + 60 - c.now⌉ ≤ 60 := Int.ceil_le.mpr (by push_cast; linarith)
  rw [max_eq_right hpos] at hdelay
  refine ⟨oldest, rest, hts, ?_, (List.pairwise_cons.mp hsorted).1, hdelay, by omega, by omega⟩
  simp only [List.length_cons] at hbound hfull
  omega

/-- A later call is admitted once the delay is over, if nothing was admitted meanwhile, and denied
before its last second. -/
theorem after_denial {middle : List Call} {c' : Call}
    (h : Nondecreasing (calls ++ c :: (middle ++ [c']))) (hkey : c'.key = c.key) {denial : Denial}
    (hdenied : limiter.decision calls c = some denial) :
    (limiter.admissions (calls ++ c :: middle) c.key = limiter.admissions calls c.key →
        c.now + denial.retryAfterSeconds ≤ c'.now →
        limiter.decision (calls ++ c :: middle) c' = none) ∧
      (c'.now < c.now + denial.retryAfterSeconds - 1 →
        limiter.decision (calls ++ c :: middle) c' ≠ none) := by
  have hfirst : Nondecreasing (calls ++ [c]) := by
    rw [List.append_cons] at h
    exact (nondecreasing_append h).1
  have hall : Nondecreasing (calls ++ c :: middle ++ [c']) := by simpa using h
  have hlater : c.now ≤ c'.now := by
    rw [List.append_cons] at h
    exact (nondecreasing_append h).2.2 c (by simp) c' (by simp)
  obtain ⟨oldest, rest, hts, hlength, hrest, hdelay, -, -⟩ := denied hfirst hdenied
  -- the five times of the denial, as they are seen from the later call
  have hwindow : (limiter.admittedTimes calls c.key).filter (c'.now - 60 < ·) =
      (oldest :: rest).filter (c'.now - 60 < ·) := by
    rw [← hts, Window.filter_lt_filter_lt _ (sub_le_sub_right hlater 60)]
  constructor
  · intro hsame hover
    rw [decision_eq_none hall, hkey]
    have hout : ¬ c'.now - 60 < oldest := by
      have := Int.le_ceil (oldest + 60 - c.now)
      rw [hdelay] at hover
      linarith
    rw [admittedTimes, hsame, ← admittedTimes, hwindow,
      List.filter_cons_of_neg (by simpa using hout)]
    calc (rest.filter (c'.now - 60 < ·)).length
      _ ≤ rest.length := List.length_filter_le _ _
      _ < 5 := by omega
  · intro hearly
    have hin : c'.now - 60 < oldest := by
      have := Int.ceil_lt_add_one (oldest + 60 - c.now)
      rw [hdelay] at hearly
      linarith
    have hkept : (oldest :: rest).filter (c'.now - 60 < ·) = oldest :: rest := by
      refine List.filter_eq_self.mpr fun t ht => ?_
      rcases List.mem_cons.mp ht with rfl | ht
      · simpa using hin
      · simpa using hin.trans_le (hrest t ht)
    rw [Ne, decision_eq_none hall, hkey, admittedTimes, admissions_append, List.map_append,
      List.filter_append, ← admittedTimes, hwindow, hkept, List.length_append, List.length_cons]
    omega

end GatewayContextLimiter

open GatewayContextLimiter

/-- **The limit is that of a sliding window.** For every sequence of calls, over any keys, with a
clock that does not go back: a call is admitted exactly when fewer than five calls for its key were
admitted in the last minute; its answer is the one it would get after the admitted calls for its key
alone; the delay of a denial is between 1 and 60, the next call for the key that comes when it is
over is admitted, and every call that comes more than a second before is denied; and no window of a
minute, closed at either end, holds more than five admissions of a key. -/
theorem sliding_window (limiter : GatewayContextLimiter) {calls : List Call}
    (h : Nondecreasing calls) :
    (∀ before c after, calls = before ++ c :: after →
      (limiter.decision before c = none ↔ (limiter.admittedTimes before c.key).countP
          (fun t => c.now - 60 < t ∧ t ≤ c.now) < 5) ∧
      limiter.decision before c = limiter.decision (limiter.admissions before c.key) c ∧
      ∀ denial, limiter.decision before c = some denial →
        (1 ≤ denial.retryAfterSeconds ∧ denial.retryAfterSeconds ≤ 60) ∧
        ∀ middle c' rest, after = middle ++ c' :: rest → c'.key = c.key →
          (limiter.admissions (before ++ c :: middle) c.key = limiter.admissions before c.key →
            c.now + denial.retryAfterSeconds ≤ c'.now →
            limiter.decision (before ++ c :: middle) c' = none) ∧
          (c'.now < c.now + denial.retryAfterSeconds - 1 →
            limiter.decision (before ++ c :: middle) c' ≠ none)) ∧
      ∀ k a, (limiter.admittedTimes calls k).countP (fun t => a < t ∧ t ≤ a + 60) ≤ 5 ∧
        (limiter.admittedTimes calls k).countP (fun t => a ≤ t ∧ t < a + 60) ≤ 5 := by
  refine ⟨?_, fun k a => ⟨countP_window_le h k ?_, countP_window_le h k ?_⟩⟩
  · rintro before c after rfl
    have hc : Nondecreasing (before ++ [c]) := by
      rw [List.append_cons] at h
      exact (nondecreasing_append h).1
    refine ⟨?_, decision_admissions hc, fun denial hdenied => ⟨?_, ?_⟩⟩
    · have hle : ∀ t ∈ limiter.admittedTimes before c.key, t ≤ c.now := by
        intro t ht
        obtain ⟨c', hc', rfl⟩ := List.mem_map.mp ht
        exact (nondecreasing_append hc).2.2 c' ((admissions_sublist before c.key).subset hc') c
          (List.mem_singleton_self c)
      rw [decision_eq_none hc, ← List.countP_eq_length_filter]
      refine Iff.of_eq (congrArg (· < 5) (List.countP_congr fun t ht => ?_))
      simpa using fun _ => hle t ht
    · obtain ⟨_, _, -, -, -, -, hmin, hmax⟩ := denied hc hdenied
      exact ⟨hmin, hmax⟩
    · rintro middle c' rest rfl hkey
      refine after_denial ?_ hkey hdenied
      rw [show before ++ c :: (middle ++ c' :: rest) = (before ++ c :: (middle ++ [c'])) ++ rest by
        simp] at h
      exact (nondecreasing_append h).1
  · exact fun u t hu ht => by linarith [hu.1, ht.2]
  · exact fun u t hu ht => by linarith [hu.1, ht.2]

/-- The sixth submission of a minute, and one a minute after the first. -/
example :
    let k : BucketKey := ⟨"peer", "agent", "tenant", "ctx"⟩
    let calls := [0, 1, 2, 3, 4].map fun t => (⟨k, t, 1000⟩ : Call)
    let limiter : GatewayContextLimiter := ⟨fun _ => ""⟩
    (limiter.decision calls ⟨k, 59, 1059⟩).map Denial.retryAfterSeconds = some 1 ∧
      limiter.decision calls ⟨k, 60, 1060⟩ = none := by
  decide +kernel

theorem sliding_window_six :
    let k : BucketKey := ⟨"peer", "agent", "tenant", "ctx"⟩
    let calls := [0, 1, 2, 3, 4, 4].map fun t => (⟨k, t, 1000⟩ : Call)
    ∀ k' a, (GatewayContextLimiter.admittedTimes ⟨fun _ => ""⟩ calls k').countP
      (fun t => a < t ∧ t ≤ a + 60) ≤ 5 := by
  intro k calls k' a
  have hclock : Nondecreasing calls := by
    unfold Nondecreasing
    decide +kernel
  exact ((sliding_window ⟨fun _ => ""⟩ hclock).2 k' a).1

end HermesGateway.Hermes
