import HermesGateway.Broker.Runs

/-!
# Flows

A flow is a conversation with the peer, so at most one of its operations may be executing. The
only thing that sees to it is the subquery of `claim`: it asks for a flow without a running or
unknown operation, and nothing but `claim` makes an operation running. The same subquery decides
the order in which the operations of a flow are dispatched, and which operation is next.

## Main definitions

* `Exclusive` — no flow has two operations that are running or of unknown outcome
* `Ledger.Ready` — the operations that may be dispatched
* `Dispatches` — what `claim` has to do with them
* `Process.StampedRun` — runs whose accepting clock never goes backwards

## Main results

* `Exclusive.of_trace` — disciplined moves keep flows exclusive
* `claim_total`, `claim_dispatches` — what `claim` does
* `Process.dispatched_in_order` — the operations of a flow are claimed in the order of creation
* `flow_dispatch` — all of it, for every reachable broker
-/

namespace HermesGateway.Broker

open BrokerStore

/-! ### Exclusion -/

/-- No flow of a device has two operations that are running or of unknown outcome. -/
def Exclusive (L : Ledger) : Prop :=
  ∀ r ∈ L.operations, ∀ r' ∈ L.operations, r.deviceId = r'.deviceId → r.flowId = r'.flowId →
    r.Active → r'.Active → r = r'

section

variable {R : Time → Time → Prop} {late : Prop} {L L' : Ledger} {ks : List Key}

/-- An update that makes no operation active keeps flows exclusive. -/
theorem Exclusive.map {g : OperationRow → OperationRow} (h : Exclusive L)
    (hdevice : ∀ r, (g r).deviceId = r.deviceId) (hflow : ∀ r, (g r).flowId = r.flowId)
    (hactive : ∀ r ∈ L.operations, (g r).Active → r.Active) :
    ∀ r ∈ L.operations.map g, ∀ r' ∈ L.operations.map g, r.deviceId = r'.deviceId →
      r.flowId = r'.flowId → r.Active → r'.Active → r = r' := by
  rintro _ hga _ hgb hsame hsame' hact hact'
  obtain ⟨a, ha, rfl⟩ := List.mem_map.mp hga
  obtain ⟨b, hb, rfl⟩ := List.mem_map.mp hgb
  rw [hdevice, hdevice] at hsame
  rw [hflow, hflow] at hsame'
  rw [h a ha b hb hsame hsame' (hactive a ha hact) (hactive b hb hact')]

/-- A disciplined edit other than a claim makes no operation active. -/
theorem Edit.active_of_active {e : Edit} {r : OperationRow} (hallowed : e.Allowed r)
    (hknown : Known late L r e) (hclaim : ∀ t t', e ≠ .claim t t') (h : (e.row r).Active) :
    r.Active := by
  cases e with
  | claim t t' => exact absurd rfl (hclaim t t')
  | handle => exact h
  | cancel => exact h
  | finish state result code message expires fresh now =>
    obtain ⟨hlive, hterminal, -⟩ := hallowed
    obtain ⟨⟨haccepted, -, -⟩, -⟩ := hknown
    have hunknown : state = .outcomeUnknown := by
      rcases h with h | h
      · rw [show state = .running from h] at hterminal
        exact absurd hterminal (by decide)
      · exact h
    have hne : r.state ≠ .accepted := by
      intro hacc
      rcases (haccepted hacc).1 with h | h <;> simp [hunknown] at h
    have hcases : ∀ st : OpState, st ≠ .accepted → ¬ st.Final →
        st = .running ∨ st = .outcomeUnknown := by
      intro st
      cases st <;> decide
    exact hcases _ hne hlive

/-- One disciplined move keeps flows exclusive. -/
theorem Move.exclusive (hmove : Move R (Known late) L ks L')
    (hkeyed : Table.Keyed OperationRow.key L.operations) (h : Exclusive L) : Exclusive L' := by
  cases hmove with
  | device | purgeEvents | receipt | dropArtifacts | putArtifact => exact h
  | @insert d request digest now _ _ _ _ _ hnew hdev =>
    intro r hr r' hr' hdevice hflow hact hact'
    have hold : ∀ {x : OperationRow}, x ∈ L.operations ++ [acceptedRow d request digest now] →
      x.Active →
        x ∈ L.operations := by
      intro x hx hxact
      rcases List.mem_append.mp hx with hx | hx
      · exact hx
      · rw [List.mem_singleton.mp hx] at hxact
        exact absurd hxact (by simp [OperationRow.Active, acceptedRow])
    exact h r (hold hr hact) r' (hold hr' hact') hdevice hflow hact hact'
  | @edit k e r dev expires t₁ t₂ hrow hdev hallowed hknown hread =>
    have hself : ∀ a ∈ L.operations, a.key = k → a = r := fun a ha hk =>
      hkeyed.eq_of_key_eq ha (Table.mem_of_lookup hrow) (hk.trans (Table.key_of_lookup hrow).symm)
    change ∀ a ∈ (e.ledger k L).operations, ∀ b ∈ (e.ledger k L).operations, _
    rw [Edit.operations_ledger]
    by_cases hclaim : ∃ t t', e = .claim t t'
    · -- the flow was free, so what is active besides the claimed row is of another flow
      obtain ⟨t, t', rfl⟩ := hclaim
      have hfree := hknown.1
      intro a ha b hb hdevice hflow hact hact'
      rcases Table.mem_modify.mp ha with ⟨a, ha', hak, rfl⟩ | ⟨ha', hak⟩ <;>
        rcases Table.mem_modify.mp hb with ⟨b, hb', hbk, rfl⟩ | ⟨hb', hbk⟩
      · rw [hself a ha' hak, hself b hb' hbk]
      · obtain rfl := hself a ha' hak
        exact absurd hact' (hfree b hb' hdevice.symm hflow.symm)
      · obtain rfl := hself b hb' hbk
        exact absurd hact (hfree a ha' hdevice hflow)
      · exact h a ha' b hb' hdevice hflow hact hact'
    · refine h.map (fun a => ?_) (fun a => ?_) fun a ha hact => ?_
      · split_ifs
        · cases e <;> rfl
        · rfl
      · split_ifs
        · cases e <;> rfl
        · rfl
      · split_ifs at hact with hk
        · obtain rfl := hself a ha hk
          exact Edit.active_of_active hallowed hknown (fun t t' he => hclaim ⟨t, t', he⟩) hact
        · exact hact
  | poll =>
    refine h.map (fun a => ?_) (fun a => ?_) fun a _ hact => ?_
    · split_ifs <;> rfl
    · split_ifs <;> rfl
    · split_ifs at hact <;> exact hact
  | cancelClaim =>
    refine h.map (fun a => ?_) (fun a => ?_) fun a _ hact => ?_
    · split_ifs <;> rfl
    · split_ifs <;> rfl
    · split_ifs at hact <;> exact hact
  | @purge now =>
    refine h.map (fun a => ?_) (fun a => ?_) fun a _ hact => ?_ <;>
      obtain ⟨x, hx⟩ := purgedRow_eq now a
    · rw [hx]
    · rw [hx]
    · rw [hx] at hact
      exact hact

/-- Disciplined moves keep flows exclusive. -/
theorem Exclusive.of_trace (hmoves : BrokerMoves late L ks L')
    (hkeyed : Table.Keyed OperationRow.key L.operations) (h : Exclusive L) : Exclusive L' :=
  (hmoves.invariant (I := fun L => Table.Keyed OperationRow.key L.operations ∧ Exclusive L)
    (fun hI hmove => ⟨hmove.keyed hI.1, hmove.exclusive hI.1 hI.2⟩) ⟨hkeyed, h⟩).2

end

/-! ### What may be dispatched -/

/-- An accepted operation whose flow has no operation running or of unknown outcome. -/
def Ledger.Ready (L : Ledger) (r : OperationRow) : Prop :=
  r ∈ L.operations ∧ r.state = .accepted ∧ ∀ active ∈ L.operations,
    active.deviceId = r.deviceId → active.flowId = r.flowId → ¬ active.Active

/-- The order of dispatch. -/
def OperationRow.turn (r : OperationRow) : Time ×ₗ Uuid := toLex (r.createdAt, r.operationId)

/-- The rows `claim` selects from are those that may be dispatched. -/
theorem mem_candidates {L : Ledger} (hqueued : Queued L) {r : OperationRow} :
    r ∈ candidates L ↔ L.Ready r := by
  rw [candidates, List.mem_filter, decide_eq_true_iff, Ledger.Ready]
  constructor
  · rintro ⟨hmem, haccepted, -, hfree⟩
    exact ⟨hmem, haccepted, fun active hactive hdevice hflow hbusy =>
      hfree ⟨active, hactive, hdevice, hflow, hbusy⟩⟩
  · rintro ⟨hmem, haccepted, hfree⟩
    refine ⟨hmem, haccepted, (hqueued.pending r hmem haccepted).2, ?_⟩
    rintro ⟨active, hactive, hdevice, hflow, hbusy⟩
    exact hfree active hactive hdevice hflow hbusy

/-- The candidate is the first of them. -/
theorem candidate_eq_some {L : Ledger} (hqueued : Queued L) {r : OperationRow}
    (h : candidate L = some r) : L.Ready r ∧ ∀ r', L.Ready r' → r.turn ≤ r'.turn :=
  ⟨(mem_candidates hqueued).mp (candidate_mem h), fun _ hr' =>
    List.le_of_mem_argmin ((mem_candidates hqueued).mpr hr') h⟩

theorem candidate_eq_none {L : Ledger} (hqueued : Queued L) (h : candidate L = none) :
    ∀ r, ¬ L.Ready r := by
  intro r hr
  have hnil := List.argmin_eq_none.mp h
  rw [← mem_candidates hqueued, hnil] at hr
  exact absurd hr List.not_mem_nil

/-- What `claim` has to do in `L`: with nothing to dispatch, nothing; otherwise the first operation
that may be dispatched is returned, and running now, or has failed for want of its payload or of
an artifact. -/
def Dispatches (L : Ledger) (c : Option Claim) (L' : Ledger) : Prop :=
  (c = none ∧ L' = L ∧ ∀ r, ¬ L.Ready r) ∨
  ∃ r, L.Ready r ∧ (∀ r', L.Ready r' → r.turn ≤ r'.turn) ∧
    ∃ r', L'.operation? r.key = some r' ∧
      ((∃ x, c = some x ∧ x.key = r.key ∧ r'.state = .running) ∨
        c = none ∧ r'.state = .failed ∧
          (r'.errorCode = some .payloadExpired ∨ r'.errorCode = some .artifactExpired))

section

variable {store : BrokerStore} {s s' : Session}

theorem claim_dispatches {c : Option Claim}
    (hkeyed : Table.Keyed OperationRow.key s.ledger.operations) (hqueued : Queued s.ledger)
    (h : store.claim s = .ok (c, s')) : Dispatches s.ledger c s'.ledger := by
  rcases claim_eq_ok hkeyed hqueued.payload h with ⟨hnone, rfl, rfl⟩ | ⟨chosen, r', hcand, hr', hc⟩
  · exact .inl ⟨rfl, rfl, candidate_eq_none hqueued hnone⟩
  · obtain ⟨hready, hleast⟩ := candidate_eq_some hqueued hcand
    refine .inr ⟨chosen, hready, hleast, r', hr', ?_⟩
    rcases hc with ⟨x, now, rfl, ⟨hkey, -⟩, rfl⟩ | hfailed
    · exact .inl ⟨x, rfl, hkey, rfl⟩
    · exact .inr hfailed

/-! ### That `claim` answers -/

/-- `_event` numbers the snapshot of a row without a result, unless the numbers are used up. -/
theorem event_total {k : Key} {r : OperationRow} {dev : DeviceRow}
    (hr : s.ledger.operation? k = some r) (hblank : r.result = none)
    (hdev : s.ledger.device? k.1 = some dev) :
    (∃ snap s', store.event k s = .ok (snap, s')) ∨
      (bigintLimit ≤ dev.sequence + 1 ∧ store.event k s = .error .database) := by
  have hrow : row k s = .ok (r, s) := row_eq_ok.mpr ⟨hr, rfl⟩
  have hsnap : snapshot r s = .ok (render r (s.clock 0) (s.clock 1), s.tick.tick) := by
    simp only [snapshot, hblank, Option.isSome_none, Bool.false_eq_true, false_and, Tx.refuse,
      if_false]
    rfl
  have hread : readLedger s.tick.tick = .ok (s.ledger, s.tick.tick) := rfl
  rw [event, Tx.bind_of_ok hrow, Tx.bind_of_ok hsnap, Tx.bind_of_ok hread]
  simp only [hdev]
  by_cases hfull : bigintLimit ≤ dev.sequence + 1
  · right
    refine ⟨hfull, ?_⟩
    rw [Tx.refuse, if_pos hfull]
    rfl
  · left
    rw [Tx.refuse, if_neg hfull]
    exact ⟨_, _, rfl⟩

/-- So does `_finish` without a result. -/
theorem finishOperation_total {k : Key} {state : OpState} {code : Option ErrorCode}
    {message : Option String} {r : OperationRow} {dev : DeviceRow}
    (hr : s.ledger.operation? k = some r) (hlive : ¬ r.state.Final)
    (hdev : s.ledger.device? k.1 = some dev) :
    (∃ snap s', store.finishOperation k state none code message s = .ok (snap, s')) ∨
      (bigintLimit ≤ dev.sequence + 1 ∧
        store.finishOperation k state none code message s = .error .database) := by
  have hrow : row k s = .ok (r, s) := row_eq_ok.mpr ⟨hr, rfl⟩
  let t : Session := s.tick.draw.tick
  let e : Edit := .finish state none code message none (s.uuids 0) (s.clock 1)
  have hedit := e.operation?_ledger k k s.ledger
  rw [if_pos rfl, hr] at hedit
  have hdev' : (e.ledger k s.ledger).device? k.1 = some dev := by
    rw [Ledger.device?, Edit.devices_ledger]
    exact hdev
  have hevent := @event_total store { t with ledger := e.ledger k s.ledger } _ _ _ hedit rfl hdev'
  have heq : store.finishOperation k state none code message s =
      store.event k { t with ledger := e.ledger k s.ledger } := by
    rw [finishOperation, Tx.bind_of_ok hrow, if_neg hlive]
    rfl
  rw [heq]
  exact hevent

theorem artifact_fails (d : Device) (a : Uuid) :
    Tx.Fails (fun e => ∃ b, e = .broker b) (store.artifact d a) := by
  refine Tx.Fails.bind (Tx.Fails.modifyGet _) fun now => Tx.Fails.bind (Tx.Fails.modifyGet _)
    fun L => ?_
  cases L.artifacts.find? fun r => r.key = (d, a) ∧ now < r.expiresAt with
  | none => exact Tx.Fails.throw ⟨_, rfl⟩
  | some row => exact Tx.Fails.bind (Tx.Fails.refuse ⟨_, rfl⟩) fun _ => Tx.Fails.pure _

/-- A missing artifact is an answer. -/
theorem attachments_total (d : Device) (ids : List Uuid) :
    ∃ found s', store.attachments d ids s = .ok (found, s') := by
  induction ids generalizing s with
  | nil => exact ⟨_, _, rfl⟩
  | cons a ids ih =>
    obtain ⟨x, t, hx⟩ : ∃ x t, store.attachment d a s = .ok (x, t) := by
      rw [attachment]
      cases hart : store.artifact d a s with
      | ok p => exact ⟨_, _, rfl⟩
      | error e =>
        obtain ⟨b, rfl⟩ := artifact_fails d a s e hart
        exact ⟨_, _, rfl⟩
    rw [attachments, Tx.bind_of_ok hx]
    cases x with
    | none => exact ⟨_, _, rfl⟩
    | some x =>
      obtain ⟨rest, u, hrest⟩ := @ih t
      exact ⟨_, u, Tx.map_eq_ok.mpr ⟨rest, hrest, rfl⟩⟩

theorem device_total (d : Device) : ∃ t dev, device d s = .ok ((), t) ∧
    t.ledger.device? d = some dev ∧ dev.sequence = s.ledger.sequence d ∧
    t.ledger.operations = s.ledger.operations := by
  obtain ⟨t, ht⟩ : ∃ t, device d s = .ok ((), t) := ⟨_, rfl⟩
  obtain ⟨⟨dev, hdev⟩, hops, -, -⟩ :=
    device_eq_ok (R := fun _ _ => True) (P := fun _ _ _ => True) ht
  refine ⟨t, dev, ht, hdev, ?_, hops⟩
  rw [device, writeLedger_eq_ok] at ht
  subst ht
  cases hold : s.ledger.device? d with
  | some dev' =>
    simp only [hold] at hdev
    obtain rfl := Option.some.inj hdev
    rw [sequence_of_device? hold]
  | none =>
    simp only [hold] at hdev
    have hself := Table.lookup_insert_self (c := DeviceRow.deviceId) (r := ⟨d, 0, 0⟩) hold
    obtain rfl := Option.some.inj (hself.symm.trans hdev)
    simp [Ledger.sequence, hold]

/-- **`claim` answers**, unless there is an operation to dispatch and the event numbers of its
device are used up. -/
theorem claim_total (hkeyed : Table.Keyed OperationRow.key s.ledger.operations)
    (hqueued : Queued s.ledger) :
    (∃ c s', store.claim s = .ok (c, s')) ∨
      ∃ r, s.ledger.Ready r ∧ bigintLimit ≤ s.ledger.sequence r.deviceId + 1 ∧
        store.claim s = .error .database := by
  have hread : ∀ u : Session, readLedger u = .ok (u.ledger, u) := fun _ => rfl
  have hclock : ∀ u : Session, utcnow u = .ok (u.clock 0, u.tick) := fun _ => rfl
  rw [claim, Tx.bind_of_ok (hread s)]
  cases hcand : candidate s.ledger with
  | none => exact .inl ⟨none, s, rfl⟩
  | some chosen =>
    obtain ⟨hready, -⟩ := candidate_eq_some hqueued hcand
    have hblank := (hqueued.pending chosen hready.1 hready.2.1).1
    have hlive : ¬ chosen.state.Final := by rw [hready.2.1]; decide
    obtain ⟨t, dev, hdevice, hdev, hseq, hops⟩ := device_total (s := s) chosen.deviceId
    have hr : t.ledger.operation? chosen.key = some chosen := by
      rw [Ledger.operation?, hops]
      exact hkeyed.mem_iff_lookup.mp hready.1
    have hrow : row chosen.key t = .ok (chosen, t) := row_eq_ok.mpr ⟨hr, rfl⟩
    -- once the last call of a branch answers or finds the numbers used up, so does `claim`
    have hlast : ∀ {α : Type} {m : StoreTx α} {u : Session} (f : α → Option Claim),
        ((∃ a u', m u = .ok (a, u')) ∨ (bigintLimit ≤ dev.sequence + 1 ∧ m u = .error .database)) →
        (∃ c s', (m >>= fun a => pure (f a)) u = .ok (c, s')) ∨
          ∃ r, s.ledger.Ready r ∧ bigintLimit ≤ s.ledger.sequence r.deviceId + 1 ∧
            (m >>= fun a => pure (f a)) u = .error .database := by
      rintro α m u f (⟨a, u', hm⟩ | ⟨hfull, hm⟩)
      · exact .inl ⟨f a, u', by rw [Tx.bind_of_ok hm]; rfl⟩
      · refine .inr ⟨chosen, hready, hseq ▸ hfull, ?_⟩
        change (m u >>= fun p => (pure (f p.1) : StoreTx (Option Claim)) p.2) = _
        rw [hm]
        rfl
    simp only
    rw [show chosen.key.1 = chosen.deviceId from rfl, Tx.bind_of_ok hdevice, Tx.bind_of_ok hrow,
      if_neg (not_not.mpr hready.2.1), Tx.bind_of_ok (hclock t), Tx.bind_of_ok (hread t.tick)]
    cases hpay : (Table.lookup PayloadRow.key t.tick.ledger.payloads chosen.key).filter
        fun p => t.clock 0 < p.expiresAt with
    | none =>
      simp only
      exact hlast (fun _ => none) (finishOperation_total (s := t.tick) hr hlive hdev)
    | some payload =>
      obtain ⟨found, u, hfound⟩ := @attachments_total store t.tick chosen.deviceId
        payload.request.artifactIds
      have hadv : t.tick.Advances u := attachments_advances hfound
      have hr' : u.ledger.operation? chosen.key = some chosen := by rw [hadv.1]; exact hr
      have hdev' : u.ledger.device? chosen.deviceId = some dev := by rw [hadv.1]; exact hdev
      simp only
      rw [Tx.bind_of_ok hfound]
      cases found with
      | none =>
        simp only
        exact hlast (fun _ => none) (finishOperation_total (s := u) hr' hlive hdev')
      | some found =>
        simp only
        rw [Tx.bind_of_ok (hclock u), Tx.bind_of_ok (hclock u.tick)]
        let e : Edit := .claim (u.clock 0) (u.tick.clock 0)
        have hwrite : ∀ v : Session, writeLedger (e.ledger chosen.key) v =
            .ok ((), { v with ledger := e.ledger chosen.key v.ledger }) := fun _ => rfl
        change (∃ c s', (writeLedger (e.ledger chosen.key) >>= _) u.tick.tick = .ok (c, s')) ∨
          ∃ r, _ ∧ _ ∧ (writeLedger (e.ledger chosen.key) >>= _) u.tick.tick = _
        rw [Tx.bind_of_ok (hwrite u.tick.tick)]
        have hedit := e.operation?_ledger chosen.key chosen.key u.ledger
        rw [if_pos rfl, hr'] at hedit
        exact hlast (fun _ => some ⟨chosen.deviceId, payload.request, found⟩)
          (event_total (r := e.row chosen) hedit hblank
            (by rw [Ledger.device?, Edit.devices_ledger]; exact hdev'))

end

/-! ### The order of a flow -/

/-- Among the operations `claim` has returned, those of one flow are in the order of creation, and
what is still accepted in a flow was created no earlier than what was claimed of it. -/
structure InOrder (L : Ledger) (claims : List Key) : Prop where
  submitted : ∀ k ∈ claims, Submitted L k
  sorted : claims.Pairwise fun k k' => ∀ r r', L.operation? k = some r →
    L.operation? k' = some r' → r.deviceId = r'.deviceId → r.flowId = r'.flowId →
    r.createdAt ≤ r'.createdAt
  waiting : ∀ k ∈ claims, ∀ r, L.operation? k = some r → ∀ a ∈ L.operations, a.state = .accepted →
    r.deviceId = a.deviceId → r.flowId = a.flowId → r.createdAt ≤ a.createdAt

/-- What is accepted between two ledgers is stamped no earlier than what was there. -/
def Stamped (L L' : Ledger) : Prop :=
  ∀ a ∈ L'.operations, L.operation? a.key = none → ∀ r ∈ L.operations, r.createdAt ≤ a.createdAt

section

variable {late : Prop} {L L' : Ledger} {ks claims : List Key} {k : Key}

theorem Descends.deviceId {r r' : OperationRow} (h : Descends r r') : r'.deviceId = r.deviceId :=
  congrArg Prod.fst h.key

/-- A row found after moves is new, or descends from one that was there. -/
theorem origin_of_trace (hmoves : BrokerMoves late L ks L') {r' : OperationRow}
    (hr' : L'.operation? k = some r') :
    L.operation? k = none ∨ ∃ r, L.operation? k = some r ∧ Descends r r' := by
  cases hr : L.operation? k with
  | none => exact .inl rfl
  | some r =>
    obtain ⟨r'', hr'', hdesc⟩ := descends_of_trace hmoves hr
    obtain rfl := Option.some.inj (hr'.symm.trans hr'')
    exact .inr ⟨r, rfl, hdesc⟩

/-- The row of a claimed operation was there before. -/
theorem Submitted.origin (h : Submitted L k) (hmoves : BrokerMoves late L ks L') {r' : OperationRow}
    (hr' : L'.operation? k = some r') : ∃ r, L.operation? k = some r ∧ Descends r r' := by
  obtain ⟨r, hr, -⟩ := h
  rcases origin_of_trace hmoves hr' with hnone | hsome
  · rw [hr] at hnone
    cases hnone
  · exact hsome

/-- An operation that is ahead of every accepted operation of its flow stays ahead. -/
theorem ahead_of_trace (hmoves : BrokerMoves late L ks L') (hstamped : Stamped L L')
    (hkeyed : Table.Keyed OperationRow.key L'.operations) {r r' : OperationRow}
    (hr : L.operation? k = some r) (hdesc : Descends r r')
    (hahead : ∀ a ∈ L.operations, a.state = .accepted → a.key ≠ k → r.deviceId = a.deviceId →
      r.flowId = a.flowId → r.createdAt ≤ a.createdAt) (hclaimed : r'.state ≠ .accepted)
    (hr' : L'.operation? k = some r') :
    ∀ a ∈ L'.operations, a.state = .accepted → r'.deviceId = a.deviceId → r'.flowId = a.flowId →
      r'.createdAt ≤ a.createdAt := by
  intro a ha haccepted hdevice hflow
  have hlook : L'.operation? a.key = some a := hkeyed.mem_iff_lookup.mp ha
  rw [hdesc.createdAt]
  rcases origin_of_trace hmoves hlook with hnew | ⟨a₀, ha₀, hdesc₀⟩
  · exact hstamped a ha hnew r (Table.mem_of_lookup hr)
  · have hne : a₀.key ≠ k := by
      intro hk
      rw [← hk, ← hdesc₀.key, hlook] at hr'
      obtain rfl := Option.some.inj hr'
      exact hclaimed haccepted
    rw [hdesc₀.createdAt]
    refine hahead a₀ (Table.mem_of_lookup ha₀) ?_ hne ?_ ?_
    · by_contra h
      exact hdesc₀.claimed h haccepted
    · rw [← hdesc.deviceId, hdevice, hdesc₀.deviceId]
    · rw [← hdesc.flowId, hflow, hdesc₀.flowId]

/-- Moves keep the order of what was claimed before them. -/
theorem InOrder.of_trace (h : InOrder L claims) (hmoves : BrokerMoves late L ks L')
    (hstamped : Stamped L L') (hkeyed : Table.Keyed OperationRow.key L'.operations) :
    InOrder L' claims where
  submitted k hk := (h.submitted k hk).of_trace hmoves
  sorted := by
    refine List.Pairwise.imp_of_mem ?_ h.sorted
    intro k k' hk hk' hle r r' hr hr' hdevice hflow
    obtain ⟨r₀, hr₀, hdesc⟩ := (h.submitted k hk).origin hmoves hr
    obtain ⟨r₀', hr₀', hdesc'⟩ := (h.submitted k' hk').origin hmoves hr'
    rw [hdesc.createdAt, hdesc'.createdAt]
    exact hle r₀ r₀' hr₀ hr₀' (by rw [← hdesc.deviceId, hdevice, hdesc'.deviceId])
      (by rw [← hdesc.flowId, hflow, hdesc'.flowId])
  waiting := by
    intro k hk r hr
    obtain ⟨r₀, hr₀, hdesc⟩ := (h.submitted k hk).origin hmoves hr
    exact ahead_of_trace hmoves hstamped hkeyed hr₀ hdesc
      (fun a ha hacc _ => h.waiting k hk r₀ hr₀ a ha hacc)
      (((h.submitted k hk).of_trace hmoves).claimed hr) hr

/-- What `claim` returns comes next. -/
theorem InOrder.claim {r r' : OperationRow} (h : InOrder L claims)
    (hmoves : BrokerMoves late L ks L') (hstamped : Stamped L L')
    (hkeyed : Table.Keyed OperationRow.key L.operations) (hready : L.Ready r)
    (hleast : ∀ a, L.Ready a → r.turn ≤ a.turn) (hr' : L'.operation? r.key = some r')
    (hrunning : r'.state = .running) : InOrder L' (claims ++ [r.key]) := by
  have hkeyed' := keyed_of_trace hmoves hkeyed
  have hkept := h.of_trace hmoves hstamped hkeyed'
  have hlook : L.operation? r.key = some r := hkeyed.mem_iff_lookup.mp hready.1
  have hclaimed : r'.state ≠ .accepted := by simp [hrunning]
  obtain ⟨r'', hr'', hdesc⟩ := descends_of_trace hmoves hlook
  obtain rfl := Option.some.inj (hr'.symm.trans hr'')
  refine ⟨?_, ?_, ?_⟩
  · intro k hk
    rcases List.mem_append.mp hk with hk | hk
    · exact hkept.submitted k hk
    · rw [List.mem_singleton.mp hk]
      exact ⟨r', hr', hclaimed⟩
  · rw [List.pairwise_append]
    refine ⟨hkept.sorted, List.pairwise_singleton _ _, ?_⟩
    intro k hk k' hk' a a' ha ha' hdevice hflow
    rw [List.mem_singleton.mp hk', hr'] at ha'
    obtain rfl := Option.some.inj ha'
    obtain ⟨a₀, ha₀, hdesc₀⟩ := (h.submitted k hk).origin hmoves ha
    rw [hdesc₀.createdAt, hdesc.createdAt]
    refine h.waiting k hk a₀ ha₀ r hready.1 hready.2.1 ?_ ?_
    · rw [← hdesc₀.deviceId, hdevice, hdesc.deviceId]
    · rw [← hdesc₀.flowId, hflow, hdesc.flowId]
  · intro k hk
    rcases List.mem_append.mp hk with hk | hk
    · exact hkept.waiting k hk
    · rw [List.mem_singleton.mp hk]
      rintro _ hlook'
      obtain rfl := Option.some.inj (hr'.symm.trans hlook')
      refine ahead_of_trace hmoves hstamped hkeyed' hlook hdesc ?_ hclaimed hr'
      intro a ha haccepted _ hdevice hflow
      -- the flow of `r` is free, so `a` could have been dispatched too
      have hready' : L.Ready a := by
        refine ⟨ha, haccepted, fun active hactive hd hf => hready.2.2 active hactive ?_ ?_⟩
        · rw [hd, hdevice]
        · rw [hf, hflow]
      exact (Prod.Lex.le_iff.mp (hleast a hready')).elim le_of_lt fun heq => heq.1.le

end

namespace Process

variable {disp : BrokerDispatcher} {B B' : Process} {act : Act}

/-- Runs whose accepting clock never goes backwards: what a step accepts is stamped no earlier than
what was accepted before. -/
abbrev StampedRun (disp : BrokerDispatcher) : Process → Process → Prop :=
  Relation.ReflTransGen fun B B' => ∃ act, Step disp B act B' ∧ Stamped B.ledger B'.ledger

/-- `claims` grows by what `claim` returns, and by nothing else. -/
theorem Step.claims_eq (h : Step disp B act B') : B'.claims = B.claims ∨
    ∃ c clock uuids s', disp.store.claim ⟨B.ledger, clock, uuids⟩ = .ok (some c, s') ∧
      B'.claims = B.claims ++ [c.key] ∧ B'.ledger = s'.ledger := by
  cases h with
  | claim hopen hlimit h => exact .inr ⟨_, _, _, _, h, rfl, rfl⟩
  | _ => exact .inl rfl

/-- One step keeps the order. -/
theorem Step.inOrder (h : Step disp B act B') (hstamped : Stamped B.ledger B'.ledger)
    (hinv : B.Inv) (horder : InOrder B.ledger B.claims) : InOrder B'.ledger B'.claims := by
  obtain ⟨⟨ks, hmoves⟩, hinv'⟩ := h.disciplined hinv
  rcases h.claims_eq with hsame | ⟨c, clock, uuids, s', hclaim, hclaims, hledger⟩
  · rw [hsame]
    exact horder.of_trace hmoves hstamped hinv'.keyed
  · rcases claim_dispatches hinv.keyed hinv.queued hclaim with ⟨hnone, -⟩ | hdispatched
    · cases hnone
    obtain ⟨r, hready, hleast, r', hr', ⟨x, hx, hkey, hrunning⟩ | ⟨hnone, -⟩⟩ := hdispatched
    · obtain rfl := Option.some.inj hx
      rw [hclaims, hkey]
      rw [← hledger] at hr'
      exact horder.claim hmoves hstamped hinv.keyed hready hleast hr' hrunning
    · cases hnone

/-- **The operations of a flow are claimed in the order of creation**, when the accepting clock
never goes backwards. -/
theorem dispatched_in_order (h : StampedRun disp initial B) :
    B.Inv ∧ InOrder B.ledger B.claims := by
  induction h with
  | refl =>
    exact ⟨inv_initial, fun _ hk => absurd hk List.not_mem_nil, List.Pairwise.nil,
      fun _ hk => absurd hk List.not_mem_nil⟩
  | tail _ hlast ih =>
    obtain ⟨act, hstep, hstamped⟩ := hlast
    exact ⟨(hstep.disciplined ih.1).2, hstep.inOrder hstamped ih.1 ih.2⟩

end Process

/-- **Flow exclusion and the order of dispatch.** In every reachable broker no flow of a device has
two operations that are running or of unknown outcome. If the accepting clock never went backwards,
the operations of one flow were returned by `claim` in non-decreasing order of `created_at`.
And whatever the clock returns, `claim` returns the first accepted operation, by `created_at` and
then by identifier, among those whose flow is free, or fails it as expired; only when there is none
does it return nothing and leave the ledger as it is. It answers unless the event numbers of the
device are used up. -/
theorem flow_dispatch {disp : BrokerDispatcher} {B : Process} (h : Process.Reachable disp B) :
    Exclusive B.ledger ∧
    (Process.StampedRun disp Process.initial B →
      B.claims.Pairwise fun k k' => ∀ r r', B.ledger.operation? k = some r →
        B.ledger.operation? k' = some r' → r.deviceId = r'.deviceId → r.flowId = r'.flowId →
        r.createdAt ≤ r'.createdAt) ∧
    ∀ clock uuids,
      (∃ c s', disp.store.claim ⟨B.ledger, clock, uuids⟩ = .ok (c, s') ∧
        Dispatches B.ledger c s'.ledger ∧
        (c = none → s'.ledger = B.ledger → ∀ r, ¬ B.ledger.Ready r)) ∨
      ∃ r, B.ledger.Ready r ∧ bigintLimit ≤ B.ledger.sequence r.deviceId + 1 ∧
        disp.store.claim ⟨B.ledger, clock, uuids⟩ = .error .database := by
  obtain ⟨hinv, ks, hmoves⟩ := Process.moves_of_run Process.inv_initial h
  refine ⟨?_, ?_, ?_⟩
  · exact Exclusive.of_trace hmoves keyed_empty fun _ hr => absurd hr List.not_mem_nil
  · exact fun hstamped => (Process.dispatched_in_order hstamped).2.sorted
  · intro clock uuids
    rcases @claim_total disp.store ⟨B.ledger, clock, uuids⟩ hinv.keyed hinv.queued
      with ⟨c, s', hclaim⟩ | hfull
    · have hdisp := claim_dispatches hinv.keyed hinv.queued hclaim
      refine .inl ⟨c, s', hclaim, hdisp, fun hnone hsame => ?_⟩
      rcases hdisp with ⟨-, -, hidle⟩ | ⟨r, hready, -, r', hr', ⟨x, hx, -⟩ | ⟨-, hfailed, -⟩⟩
      · exact hidle
      · rw [hnone] at hx
        cases hx
      · -- a failed candidate is a change of the ledger
        have hlook : B.ledger.operation? r.key = some r := hinv.keyed.mem_iff_lookup.mp hready.1
        rw [hsame, hlook] at hr'
        obtain rfl := Option.some.inj hr'
        exact absurd (hready.2.1.symm.trans hfailed) (by decide)
    · exact .inr hfull

theorem flow_dispatch_second :
    ∃ B : Process, Process.Reachable ⟨BrokerStore.default, fun _ => "", fun _ => none⟩ B ∧
      Process.StampedRun ⟨BrokerStore.default, fun _ => "", fun _ => none⟩ Process.initial B ∧
      B.claims = [("laptop", 1)] ∧ Exclusive B.ledger ∧
      (∃ r, B.ledger.operation? ("laptop", 3) = some r ∧ r.state = .accepted) ∧
      ∃ c s', BrokerStore.default.claim ⟨B.ledger, fun _ => 8, fun _ => 0⟩ = .ok (c, s') ∧
        Dispatches B.ledger c s'.ledger := by
  let disp : BrokerDispatcher := ⟨BrokerStore.default, fun _ => "", fun _ => none⟩
  -- two operations of one flow are accepted, and the first is claimed
  have hruns : (Tx.succeeds (BrokerStore.default.serve "laptop" (.accept (sampleRequest 1 2))
      ⟨Ledger.empty, fun _ => 5, fun _ => 0⟩) fun _ s₁ =>
    Tx.succeeds (BrokerStore.default.serve "laptop" (.accept (sampleRequest 3 2))
        ⟨s₁.ledger, fun _ => 6, fun _ => 0⟩) fun _ s₂ =>
      Tx.succeeds (BrokerStore.default.claim ⟨s₂.ledger, fun _ => 7, fun _ => 0⟩) fun c s₃ =>
        c.map Claim.key = some ("laptop", 1) ∧ s₃.ledger.sequence "laptop" = 3 ∧
        (s₃.ledger.operation? ("laptop", 3)).map OperationRow.state = some .accepted ∧
        (∀ r ∈ s₃.ledger.operations, r.deviceId = "laptop") ∧
        (∀ a ∈ s₂.ledger.operations, s₁.ledger.operation? a.key = none →
          ∀ r ∈ s₁.ledger.operations, r.createdAt ≤ a.createdAt) ∧
        ∀ a ∈ s₃.ledger.operations, s₂.ledger.operation? a.key = none →
          ∀ r ∈ s₂.ledger.operations, r.createdAt ≤ a.createdAt) = true := by decide +kernel
  obtain ⟨_, s₁, h₁, hruns⟩ := Tx.exists_of_succeeds hruns
  obtain ⟨_, s₂, h₂, hruns⟩ := Tx.exists_of_succeeds hruns
  obtain ⟨o, s₃, h₃, hruns⟩ := Tx.exists_of_succeeds hruns
  obtain ⟨hkeys, hseq, hwaits, hdevice, hstamp₂, hstamp₃⟩ := of_decide_eq_true hruns
  obtain ⟨c, rfl, hkey⟩ := Option.map_eq_some_iff.mp hkeys
  let B₁ : Process := { Process.initial with ledger := s₁.ledger }
  let B₂ : Process := { Process.initial with ledger := s₂.ledger }
  let B : Process := ⟨s₃.ledger, [⟨c.key, .submit, .created⟩], [c.key], [], none, [], [c.key]⟩
  have hstep₁ : Process.Step disp Process.initial _ B₁ := Process.Step.serve h₁
  have hstep₂ : Process.Step disp B₁ _ B₂ := Process.Step.serve h₂
  have hstep₃ : Process.Step disp B₂ (.claimed c.key) B :=
    @Process.Step.claim disp B₂ true c _ _ s₃ (fun _ => rfl) (Nat.zero_lt_succ 3) h₃
  have hreach : Process.Reachable disp B :=
    ((Relation.ReflTransGen.single ⟨_, hstep₁⟩).tail ⟨_, hstep₂⟩).tail ⟨_, hstep₃⟩
  have hstamp₁ : Stamped Process.initial.ledger B₁.ledger := fun _ _ _ _ hr =>
    absurd hr List.not_mem_nil
  have hstamped : Process.StampedRun disp Process.initial B :=
    ((Relation.ReflTransGen.single ⟨_, hstep₁, hstamp₁⟩).tail ⟨_, hstep₂, hstamp₂⟩).tail
      ⟨_, hstep₃, hstamp₃⟩
  obtain ⟨hex, -, hclaim⟩ := flow_dispatch hreach
  refine ⟨B, hreach, hstamped, by rw [← hkey], hex, Option.map_eq_some_iff.mp hwaits, ?_⟩
  rcases hclaim (fun _ => 8) (fun _ => 0) with ⟨c', s', hc', hdisp, -⟩ | ⟨r, hready, hfull, -⟩
  · exact ⟨c', s', hc', hdisp⟩
  · rw [hdevice r hready.1, hseq] at hfull
    exact absurd hfull (by norm_num [bigintLimit])

end HermesGateway.Broker
