import HermesGateway.Broker.Flow

/-!
# Nothing is asked of Hermes twice

A task makes its call when it starts, and only then. So what counts is not the calls alone but also
the tasks that have not started: a claim puts one of them in place for a submission, a handed out
cancellation one for that, and no other step adds to the sum. A claim takes an operation out of
`accepted` for good, and a cancellation is handed out once.

## Main definitions

* `Process.due` — the calls of a kind that were made or are bound to be
* `Process.Once` — the invariant

## Main results

* `Step.due_le` — what a step adds to the sum
* `Step.once`, `once_of_run` — the invariant, over one step and over whole runs
* `Once.never_submitted` — an operation that was settled before it was claimed is never submitted
-/

namespace HermesGateway.Broker

open BrokerStore BrokerDispatcher

/-! ### Calls that are due -/

/-- A submission of the operation. -/
def Rpc.submits (k : Key) : Rpc → Bool
  | sendStreamingMessage k' => k' = k
  | _ => false

/-- A cancellation of the operation. -/
def Rpc.cancels (k : Key) : Rpc → Bool
  | cancelTask k' _ => k' = k
  | _ => false

/-- The body has not started. -/
def Phase.isCreated : Phase → Bool
  | created => true
  | _ => false

/-- The task is going to make such a call. -/
def Task.owes (p : Rpc → Bool) (t : Task) : Bool := t.phase.isCreated && p (t.job.rpc t.key)

/-- The calls of a kind that were made, and those that tasks are bound to make. -/
def Process.due (B : Process) (p : Rpc → Bool) : ℕ := B.rpcs.countP p + B.tasks.countP (Task.owes p)

section

variable {disp : BrokerDispatcher} {p : Rpc → Bool}

theorem owes_eq_false {t : Task} (h : t.phase.isCreated = false) : t.owes p = false := by
  rw [Task.owes, h, Bool.false_and]

/-- A transition of a task makes the call it owed, or none. -/
theorem TaskStep.due_le {others new : List Task} {L L' : Ledger} {t : Task} {q : Option Prog}
    {orphans : List (Key × Prog)} {rpcs : List Rpc}
    (h : TaskStep disp others L t q L' new orphans rpcs) :
    rpcs.countP p + new.countP (Task.owes p) ≤ [t].countP (Task.owes p) := by
  have started (phase : Phase) (hphase : phase.isCreated = false) :
      [({ t with phase := phase } : Task)].countP (Task.owes p) = 0 := by
    rw [List.countP_singleton, owes_eq_false hphase]
    rfl
  cases h with
  | start hphase =>
    have howes : t.owes p = p (t.job.rpc t.key) := by
      rw [Task.owes, hphase]
      rfl
    rw [started _ rfl, List.countP_singleton, List.countP_singleton, howes, Nat.add_zero]
  | dismiss | abort | finish => exact Nat.zero_le _
  | observed =>
    split_ifs
    · rw [started _ rfl]
      exact Nat.zero_le _
    · exact Nat.zero_le _
  | _ =>
    rw [started _ rfl]
    exact Nat.zero_le _

/-- What a shutdown leaves of a task owes nothing. -/
theorem owes_canceled {t t' : Task} (h : t' ∈ t.canceled) : t'.owes p = false := by
  rw [eq_of_mem_canceled h]
  exact owes_eq_false rfl

/-- Reads are no calls of the kind. -/
theorem countP_startReads (hread : ∀ k handle, p (.getTask k handle) = false) {limit : ℕ}
    (rows : List OperationRow) (tasks : List Task) :
    (startReads limit rows tasks).countP (Task.owes p) = tasks.countP (Task.owes p) := by
  obtain ⟨new, heq, hnew⟩ := @startReads_eq limit rows tasks
  have hzero : new.countP (Task.owes p) = 0 := by
    refine List.countP_eq_zero.mpr fun t ht => ?_
    obtain ⟨r, -, handle, -, rfl⟩ := hnew t ht
    simp [show Task.owes p ⟨r.key, .reconcile handle, .created⟩ = false from hread r.key handle]
  rw [heq, List.countP_append, hzero, Nat.add_zero]

end

namespace Process

variable {disp : BrokerDispatcher} {B B' : Process} {act : Act} {p : Rpc → Bool}

/-- A step adds to what is due when it claims an operation or hands a cancellation out, and one
call at most. -/
theorem Step.due_le (hread : ∀ k handle, p (.getTask k handle) = false) (h : Step disp B act B') :
    B'.due p ≤ B.due p ∨
    (∃ c clock uuids s', disp.store.claim ⟨B.ledger, clock, uuids⟩ = .ok (some c, s') ∧
      B'.ledger = s'.ledger ∧ B'.claims = B.claims ++ [c.key] ∧
      B'.due p ≤ B.due p + if p (.sendStreamingMessage c.key) then 1 else 0) ∨
    ∃ c clock uuids s', BrokerStore.claimCancel ⟨B.ledger, clock, uuids⟩ = .ok (some c, s') ∧
      B'.ledger = s'.ledger ∧ B'.due p ≤ B.due p + if p (.cancelTask c.1 c.2) then 1 else 0 := by
  cases h with
  | serve | purge | reap | unclaimed | orphan | forget => exact .inl le_rfl
  | @claimCancel heard c clock uuids s' hopen hlimit h =>
    cases c with
    | none =>
      left
      cases heard <;> simp [due]
    | some c =>
      refine .inr (.inr ⟨c, clock, uuids, s', h, rfl, ?_⟩)
      cases heard with
      | false => simp [due]
      | true =>
        simp only [due, if_true, Option.map_some, Option.toList_some, List.countP_append,
          List.countP_singleton]
        exact (Nat.add_assoc _ _ _).ge
  | @reconcile heard rows clock uuids s' hopen hlimit h =>
    left
    rw [due, due, countP_startReads hread]
  | @claim heard c clock uuids s' hopen hlimit h =>
    refine .inr (.inl ⟨c, clock, uuids, s', h, rfl, rfl, ?_⟩)
    cases heard with
    | false => simp [due]
    | true =>
      simp only [due, if_true, List.countP_append, List.countP_singleton]
      exact (Nat.add_assoc _ _ _).ge
  | @task before after new t q L' orphans rpcs hmem h =>
    left
    have hstep := h.due_le (p := p)
    have hsplit : B.tasks.countP (Task.owes p) = before.countP (Task.owes p) +
        ([t].countP (Task.owes p) + after.countP (Task.owes p)) := by
      rw [hmem, List.countP_append, ← @List.countP_append _ _ [t]]
      rfl
    simp only [due, List.countP_append]
    omega
  | shutdown =>
    left
    have hgone : (B.tasks.flatMap Task.canceled).countP (Task.owes p) = 0 := by
      refine List.countP_eq_zero.mpr fun t' ht' => ?_
      obtain ⟨t, -, hmem⟩ := List.mem_flatMap.mp ht'
      rw [owes_canceled hmem]
      decide
    rw [due, due, hgone]
    exact Nat.add_le_add_left (Nat.zero_le _) _
  | sweep =>
    left
    rw [due, due, List.countP_singleton, owes_eq_false rfl]
    exact Nat.add_le_add_left (Nat.zero_le _) _
  | restart =>
    left
    exact Nat.add_le_add_left (Nat.zero_le _) _

end Process

/-! ### Claims and cancellations -/

/-- The cancellation of an operation was handed out. -/
def Handed (L : Ledger) (k : Key) : Prop := ∃ r, L.operation? k = some r ∧ r.cancelClaimed = true

section

variable {R : Time → Time → Prop} {P : Ledger → OperationRow → Edit → Prop}
  {Q : OperationRow → Edit → Prop} {k : Key} {L L' : Ledger} {ks : List Key}

theorem KeyStep.handed {r : OperationRow} {ss : List Snapshot} {o' : Option OperationRow}
    (h : KeyStep R Q k (some r) ss o') (hr : r.cancelClaimed = true) :
    ∃ r', o' = some r' ∧ r'.cancelClaimed = true := by
  cases h with
  | same => exact ⟨r, rfl, hr⟩
  | @edit _ e => cases e <;> exact ⟨_, rfl, hr⟩
  | poll => exact ⟨_, rfl, hr⟩
  | cancelClaim => exact ⟨_, rfl, rfl⟩
  | @purge _ now =>
    obtain ⟨x, hx⟩ := purgedRow_eq now r
    exact ⟨_, rfl, hx ▸ hr⟩

theorem Handed.of_trace (h : Handed L k) (hmoves : Trace (Move R P) L ks L') : Handed L' k :=
  hmoves.invariant (I := fun L => Handed L k) (fun ⟨r, hr, hhanded⟩ hmove => by
    obtain ⟨ss, hstep, -⟩ := hmove.keyStep (Q := fun _ _ => True) (fun _ _ _ _ => trivial) k
    rw [hr] at hstep
    exact hstep.handed hhanded) h

end

namespace Process

variable {disp : BrokerDispatcher} {B B' : Process} {act : Act} {k : Key}

/-- An operation is claimed once, a submission is due for each claim at most, and a cancellation
for one that was handed out. -/
structure Once (B : Process) : Prop where
  distinct : B.claims.Nodup
  claimed : ∀ k ∈ B.claims, Submitted B.ledger k
  sends : ∀ k, B.due (Rpc.submits k) ≤ B.claims.count k
  cancels : ∀ k, B.due (Rpc.cancels k) ≤ 1
  handed : ∀ k, 0 < B.due (Rpc.cancels k) → Handed B.ledger k

theorem once_initial : initial.Once where
  distinct := List.nodup_nil
  claimed _ h := absurd h List.not_mem_nil
  sends _ := le_rfl
  cancels _ := Nat.zero_le _
  handed _ h := absurd h (lt_irrefl 0)

/-- Claims: a step that returns an operation finds it accepted. -/
theorem Step.claims_once (hinv : B.Inv) (h : Step disp B act B') (honce : B.Once) :
    B'.claims.Nodup ∧ ∀ k ∈ B'.claims, Submitted B'.ledger k := by
  obtain ⟨⟨ks, hmoves⟩, -⟩ := h.disciplined hinv
  have hkept (k) (hk : k ∈ B.claims) : Submitted B'.ledger k := (honce.claimed k hk).of_trace hmoves
  rcases h.claims_eq with hsame | ⟨c, clock, uuids, s', hclaim, hclaims, hledger⟩
  · rw [hsame]
    exact ⟨honce.distinct, hkept⟩
  · obtain ⟨r, now, hr, haccepted, hr', -⟩ := claimed_row hinv.keyed hinv.queued hclaim
    have hnew : c.key ∉ B.claims := fun hmem => (honce.claimed _ hmem).claimed hr haccepted
    rw [hclaims]
    refine ⟨List.nodup_append.mpr ⟨honce.distinct, List.nodup_singleton _, ?_⟩, fun k hk => ?_⟩
    · rintro a ha b hb rfl
      exact hnew (List.mem_singleton.mp hb ▸ ha)
    · rcases List.mem_append.mp hk with hk | hk
      · exact hkept k hk
      · rw [List.mem_singleton.mp hk, hledger]
        exact ⟨_, hr', by simp [claimedRow]⟩

/-- **One step** asks nothing twice. -/
theorem Step.once (hinv : B.Inv) (h : Step disp B act B') (honce : B.Once) : B'.Once := by
  obtain ⟨⟨ks, hmoves⟩, -⟩ := h.disciplined hinv
  obtain ⟨hdistinct, hclaimed⟩ := h.claims_once hinv honce
  have hcount (k) : B.claims.count k ≤ B'.claims.count k := by
    rcases h.claims_eq with hsame | ⟨c, clock, uuids, s', -, hclaims, -⟩
    · rw [hsame]
    · rw [hclaims, List.count_append]
      exact Nat.le_add_right _ _
  refine ⟨hdistinct, hclaimed, fun k => ?_, fun k => ?_, fun k hdue => ?_⟩
  · rcases h.due_le (p := Rpc.submits k) fun _ _ => rfl with
      hle | ⟨c, clock, uuids, s', -, -, hclaims, hle⟩ | ⟨c, clock, uuids, s', -, -, hle⟩
    · exact hle.trans ((honce.sends k).trans (hcount k))
    · have hold := honce.sends k
      rw [hclaims, List.count_append, List.count_singleton]
      simp only [Rpc.submits, decide_eq_true_eq] at hle
      simp only [beq_iff_eq]
      omega
    · exact hle.trans ((honce.sends k).trans (hcount k))
  · rcases h.due_le (p := Rpc.cancels k) fun _ _ => rfl with
      hle | ⟨c, clock, uuids, s', -, -, -, hle⟩ | ⟨c, clock, uuids, s', hclaim, hledger, hle⟩
    · exact hle.trans (honce.cancels k)
    · exact hle.trans (honce.cancels k)
    · -- what is handed out now was not handed out before
      obtain ⟨r, hr, ⟨-, hnew, -, -⟩, -, -⟩ :=
        (claimCancel_publishes (R := fun _ _ => True) (P := fun _ _ _ => True) hinv.keyed hclaim).2
          c rfl
      have hold := honce.cancels k
      simp only [Rpc.cancels, decide_eq_true_eq] at hle
      by_cases hk : c.1 = k
      · have hnone : B.due (Rpc.cancels k) = 0 := by
          by_contra hpos
          obtain ⟨r', hr', hhanded⟩ := honce.handed k (Nat.pos_of_ne_zero hpos)
          rw [hk] at hr
          obtain rfl := Option.some.inj (hr.symm.trans hr')
          rw [hnew] at hhanded
          cases hhanded
        rw [if_pos hk, hnone] at hle
        exact hle
      · rw [if_neg hk] at hle
        exact hle.trans hold
  · rcases h.due_le (p := Rpc.cancels k) fun _ _ => rfl with
      hle | ⟨c, clock, uuids, s', -, -, -, hle⟩ | ⟨c, clock, uuids, s', hclaim, hledger, hle⟩
    · exact (honce.handed k (hdue.trans_le hle)).of_trace hmoves
    · exact (honce.handed k (hdue.trans_le hle)).of_trace hmoves
    · obtain ⟨r, -, -, -, hr'⟩ :=
        (claimCancel_publishes (R := fun _ _ => True) (P := fun _ _ _ => True) hinv.keyed hclaim).2
          c rfl
      simp only [Rpc.cancels, decide_eq_true_eq] at hle
      by_cases hk : c.1 = k
      · rw [hledger, ← hk]
        exact ⟨_, hr', rfl⟩
      · rw [if_neg hk] at hle
        exact (honce.handed k (hdue.trans_le hle)).of_trace hmoves

/-- A run asks nothing twice. -/
theorem once_of_run (hinv : B.Inv) (honce : B.Once) (h : Run disp B B') : B'.Inv ∧ B'.Once := by
  induction h with
  | refl => exact ⟨hinv, honce⟩
  | tail _ hlast ih =>
    obtain ⟨act, hact⟩ := hlast
    exact ⟨(hact.disciplined ih.1).2, hact.once ih.1 ih.2⟩

theorem Once.countP_submits (h : B.Once) (k : Key) : B.rpcs.countP (Rpc.submits k) ≤ 1 :=
  (Nat.le_add_right _ _).trans ((h.sends k).trans (List.nodup_iff_count_le_one.mp h.distinct k))

theorem Once.countP_cancels (h : B.Once) (k : Key) : B.rpcs.countP (Rpc.cancels k) ≤ 1 :=
  (Nat.le_add_right _ _).trans (h.cancels k)

/-- What was submitted had been claimed. -/
theorem Once.claimed_of_sent (h : B.Once) (hsent : .sendStreamingMessage k ∈ B.rpcs) :
    k ∈ B.claims := by
  have hpos : 0 < B.rpcs.countP (Rpc.submits k) :=
    List.countP_pos_iff.mpr ⟨_, hsent, by simp [Rpc.submits]⟩
  exact List.count_pos_iff.mp (hpos.trans_le ((Nat.le_add_right _ _).trans (h.sends k)))

/-- An operation that is settled and was not claimed is not claimed later. -/
theorem unclaimed_of_run (hinv : B.Inv) (hsettled : Submitted B.ledger k) (hnot : k ∉ B.claims)
    (h : Run disp B B') : k ∉ B'.claims := by
  have hall : B'.Inv ∧ Submitted B'.ledger k ∧ k ∉ B'.claims := by
    induction h with
    | refl => exact ⟨hinv, hsettled, hnot⟩
    | tail _ hlast ih =>
      obtain ⟨act, hact⟩ := hlast
      obtain ⟨hinv, hsettled, hnot⟩ := ih
      obtain ⟨⟨ks, hmoves⟩, hinv'⟩ := hact.disciplined hinv
      refine ⟨hinv', hsettled.of_trace hmoves, ?_⟩
      rcases hact.claims_eq with hsame | ⟨c, clock, uuids, s', hclaim, hclaims, -⟩
      · rwa [hsame]
      · obtain ⟨r, now, hr, haccepted, -⟩ := claimed_row hinv.keyed hinv.queued hclaim
        rw [hclaims]
        refine fun hmem => (List.mem_append.mp hmem).elim hnot fun hk => ?_
        rw [← List.mem_singleton.mp hk] at hr
        exact hsettled.claimed hr haccepted
  exact hall.2.2

/-- An operation that leaves `accepted` for a settled state is never submitted. -/
theorem Once.never_submitted (honce : B.Once) (hinv : B.Inv) (h : Step disp B act B')
    {r r' : OperationRow} (hr : B.ledger.operation? k = some r) (haccepted : r.state = .accepted)
    (hr' : B'.ledger.operation? k = some r') (hdirect : r'.state = .canceled ∨ r'.state = .failed)
    {B'' : Process} (hrun : Run disp B' B'') : .sendStreamingMessage k ∉ B''.rpcs := by
  obtain ⟨hinv', honce'⟩ := once_of_run hinv honce (.single ⟨act, h⟩)
  have hsettled : Submitted B'.ledger k := ⟨r', hr', by rcases hdirect with h | h <;> simp [h]⟩
  have hnot : k ∉ B'.claims := by
    have hold : k ∉ B.claims := fun hmem => (honce.claimed k hmem).claimed hr haccepted
    rcases h.claims_eq with hsame | ⟨c, clock, uuids, s', hclaim, hclaims, hledger⟩
    · rwa [hsame]
    · obtain ⟨r₀, now, -, -, hrunning, -⟩ := claimed_row hinv.keyed hinv.queued hclaim
      rw [hclaims]
      refine fun hmem => (List.mem_append.mp hmem).elim hold fun hk => ?_
      rw [List.mem_singleton.mp hk, hledger, hrunning] at hr'
      obtain rfl := Option.some.inj hr'
      rcases hdirect with h | h <;> cases h
  exact fun hsent => unclaimed_of_run hinv' hsettled hnot hrun
    ((once_of_run hinv' honce' hrun).2.claimed_of_sent hsent)

end Process

end HermesGateway.Broker
