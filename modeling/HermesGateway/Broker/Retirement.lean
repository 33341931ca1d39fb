import HermesGateway.Broker.Flow

/-!
# Expired payloads

The payload of an accepted operation expires, and an operation without it cannot be dispatched any
more. `purge` deletes the payload; it is `claim` that fails the operation and frees its place in the
device's admission limit. But `claim` looks only at operations whose flow is free. An operation that
waits behind one that is running or of unknown outcome keeps its place without a payload, for as
long as the outcome stays unknown.

## Main definitions

* `Ledger.Live` — the payload of an operation is there and has not expired
* `Retires` — what `purge` followed by an idle `claim` is to leave behind
* `Ledger.Stranded` — an operation that waits without a payload

## Main results

* `retires_iff` — nothing is left behind exactly when something else can be dispatched or nothing is
  stranded
-/

namespace HermesGateway.Broker

open BrokerStore

/-- The payload of the operation is stored and expires after `t`. -/
def Ledger.Live (L : Ledger) (t : Time) (r : OperationRow) : Prop :=
  ∃ p ∈ L.payloads, p.key = r.key ∧ t < p.expiresAt

instance (L : Ledger) (t : Time) (r : OperationRow) : Decidable (L.Live t r) :=
  inferInstanceAs (Decidable (∃ p ∈ L.payloads, p.key = r.key ∧ t < p.expiresAt))

/-- The operations of a device that take a place rightly: they are executing, or can be dispatched
still. -/
def entitled (L : Ledger) (t : Time) (d : Device) : ℕ :=
  L.operations.countP fun r => r.deviceId = d ∧ (r.Active ∨ r.state = .accepted ∧ L.Live t r)

/-- After `purge` at `t` and a `claim` at `t` that returns nothing and changes nothing, every
accepted operation has a payload that has not expired, and no other takes a place of its device. -/
def Retires (store : BrokerStore) (L : Ledger) (t : Time) : Prop :=
  ∀ uuids uuids' s₁ s₂, purge ⟨L, fun _ => t, uuids⟩ = .ok ((), s₁) →
    store.claim ⟨s₁.ledger, fun _ => t, uuids'⟩ = .ok (none, s₂) → s₂.ledger = s₁.ledger →
    (∀ r ∈ s₁.ledger.operations, r.state = .accepted → s₁.ledger.Live t r) ∧
      ∀ d, pending s₁.ledger d = entitled s₁.ledger t d

/-- An accepted operation whose payload has expired at `t`, behind another operation of its flow
that is running or of unknown outcome. -/
def Ledger.Stranded (L : Ledger) (t : Time) (r : OperationRow) : Prop :=
  r ∈ L.operations ∧ r.state = .accepted ∧ ¬ L.Live t r ∧ ∃ active ∈ L.operations,
    active.deviceId = r.deviceId ∧ active.flowId = r.flowId ∧ active.Active

section

variable {s s' : Session} {L L' : Ledger} {t : Time}

/-! ### What `purge` leaves -/

theorem flowId_purgedRow (now : Time) (r : OperationRow) : (purgedRow now r).flowId = r.flowId := by
  obtain ⟨x, hx⟩ := purgedRow_eq now r
  rw [hx]

theorem deviceId_purgedRow (now : Time) (r : OperationRow) :
    (purgedRow now r).deviceId = r.deviceId :=
  congrArg Prod.fst (key_purgedRow now r)

/-- What the sweep of the events does to the rest: nothing. -/
theorem purgeEvents_rest {d : Device} (hclock : s.clock = fun _ => t)
    (h : purgeEvents d s = .ok ((), s')) : s'.ledger.operations = s.ledger.operations ∧
      s'.ledger.payloads = s.ledger.payloads ∧ s'.clock = fun _ => t := by
  obtain ⟨hcases, -⟩ := purgeEvents_eq_ok (R := fun _ _ => True) (P := fun _ _ _ => True) h
  have hticks : s'.clock = fun n => s.clock (n + 1) := by
    simp only [purgeEvents, Tx.bind_eq_ok, utcnow_eq_ok, writeLedger_eq_ok] at h
    obtain ⟨now, _, ⟨-, rfl⟩, rfl⟩ := h
    rfl
  have hsame : s'.ledger.operations = s.ledger.operations ∧
      s'.ledger.payloads = s.ledger.payloads := by
    obtain hsame | ⟨n, -, hdrop⟩ := hcases
    · rw [hsame]
      exact ⟨rfl, rfl⟩
    · rw [hdrop]
      exact ⟨rfl, rfl⟩
  exact ⟨hsame.1, hsame.2, by rw [hticks, hclock]⟩

/-- The operations and the payloads `purge` leaves, when the clock says `t`. -/
theorem purge_eq_ok (hclock : s.clock = fun _ => t) (h : purge s = .ok ((), s')) :
    s'.ledger.operations = s.ledger.operations.map (purgedRow t) ∧
      s'.ledger.payloads = s.ledger.payloads.filter fun p => t < p.expiresAt := by
  simp only [purge, Tx.bind_eq_ok, readLedger_eq_ok, utcnow_eq_ok, writeLedger_eq_ok] at h
  obtain ⟨_, _, ⟨rfl, rfl⟩, _, u, h, now, _, ⟨hnow, rfl⟩, rfl⟩ := h
  have hloop := Tx.forM_rec
    (I := fun _ v => v.clock = (fun _ => t) → u.ledger.operations = v.ledger.operations ∧
      u.ledger.payloads = v.ledger.payloads ∧ u.clock = fun _ => t)
    (fun hv => ⟨rfl, rfl, hv⟩) ?_ _ s h
  · obtain ⟨hops, hpays, hu⟩ := hloop hclock
    obtain rfl : now = t := hnow.symm.trans (congrFun hu 0)
    exact ⟨congrArg (List.map (purgedRow now)) hops,
      congrArg (List.filter fun p => decide (now < p.expiresAt)) hpays⟩
  · intro d ds v w hpass ih hv
    obtain ⟨_, x, hdev, hpurge⟩ := Tx.bind_eq_ok.mp hpass
    rw [device_ok] at hdev
    obtain ⟨-, rfl⟩ := Prod.mk.inj (Except.ok.inj hdev)
    obtain ⟨devices, hdevices⟩ := v.ledger.withDevice_eq d
    obtain ⟨hops, hpays, hw⟩ :=
      purgeEvents_rest (s := { v with ledger := v.ledger.withDevice d }) hv hpurge
    obtain ⟨hops', hpays', hu⟩ := ih hw
    rw [hops, hpays, hdevices] at *
    exact ⟨hops', hpays', hu⟩

theorem purge_fails : Tx.Fails (fun _ => False) purge := by
  refine Tx.Fails.bind (Tx.Fails.modifyGet _) fun L => Tx.Fails.bind ?_ fun _ =>
    Tx.Fails.bind (Tx.Fails.modifyGet _) fun _ => Tx.Fails.modifyGet _
  induction L.devices.map DeviceRow.deviceId with
  | nil => exact Tx.Fails.pure _
  | cons d ds ih =>
    exact Tx.Fails.bind (Tx.Fails.bind (Tx.Fails.modifyGet _) fun _ =>
      Tx.Fails.bind (Tx.Fails.modifyGet _) fun _ => Tx.Fails.modifyGet _) fun _ => ih

/-- `purge` always answers. -/
theorem purge_total (s : Session) : ∃ s', purge s = .ok ((), s') := by
  cases h : purge s with
  | ok x => exact ⟨x.2, rfl⟩
  | error e => exact (purge_fails s e h).elim

/-- `L'` is `L` without what has expired at `t`. -/
structure Purged (t : Time) (L L' : Ledger) : Prop where
  operations : L'.operations = L.operations.map (purgedRow t)
  payloads : L'.payloads = L.payloads.filter fun p => t < p.expiresAt

/-- `purge` deletes no payload that is live. -/
theorem Purged.live_iff (h : Purged t L L') (r : OperationRow) :
    L'.Live t (purgedRow t r) ↔ L.Live t r := by
  simp only [Ledger.Live, h.payloads, List.mem_filter, key_purgedRow, decide_eq_true_eq]
  constructor
  · rintro ⟨p, ⟨hp, -⟩, hkey, hlive⟩
    exact ⟨p, hp, hkey, hlive⟩
  · rintro ⟨p, hp, hkey, hlive⟩
    exact ⟨p, ⟨hp, hlive⟩, hkey, hlive⟩

/-- `purge` frees no flow and blocks none. -/
theorem Purged.ready_iff (h : Purged t L L') :
    (∃ r, L'.Ready r) ↔ ∃ r, L.Ready r := by
  simp only [Ledger.Ready, h.operations, List.mem_map, forall_exists_index, and_imp,
    forall_apply_eq_imp_iff₂]
  constructor
  · rintro ⟨_, ⟨r, hr, rfl⟩, haccepted, hfree⟩
    refine ⟨r, hr, by rwa [state_purgedRow] at haccepted, fun active hactive hdevice hflow hbusy =>
      hfree active hactive ?_ ?_ ?_⟩
    · rw [deviceId_purgedRow, deviceId_purgedRow, hdevice]
    · rw [flowId_purgedRow, flowId_purgedRow, hflow]
    · rwa [OperationRow.Active, state_purgedRow]
  · rintro ⟨r, hr, haccepted, hfree⟩
    refine ⟨purgedRow t r, ⟨r, hr, rfl⟩, by rwa [state_purgedRow], fun active hactive hdevice hflow
      hbusy => hfree active hactive ?_ ?_ ?_⟩
    · rwa [deviceId_purgedRow, deviceId_purgedRow] at hdevice
    · rwa [flowId_purgedRow, flowId_purgedRow] at hflow
    · rwa [OperationRow.Active, state_purgedRow] at hbusy

/-- Where nothing can be dispatched, an accepted operation is behind another one of its flow. -/
theorem stranded_of_idle (hidle : ∀ r, ¬ L.Ready r) {r : OperationRow} (hr : r ∈ L.operations)
    (haccepted : r.state = .accepted) (hlapsed : ¬ L.Live t r) : L.Stranded t r := by
  refine ⟨hr, haccepted, hlapsed, ?_⟩
  by_contra hfree
  exact hidle r ⟨hr, haccepted, fun active hactive hdevice hflow hbusy =>
    hfree ⟨active, hactive, hdevice, hflow, hbusy⟩⟩

/-- The places of a device are taken rightly when every accepted operation is live. -/
theorem pending_eq_entitled (h : ∀ r ∈ L.operations, r.state = .accepted → L.Live t r)
    (d : Device) :
    pending L d = entitled L t d := by
  refine List.countP_congr fun r hr => ?_
  simp only [decide_eq_true_eq, and_congr_right_iff]
  intro _
  constructor
  · rintro (haccepted | hactive)
    · exact .inr ⟨haccepted, h r hr haccepted⟩
    · exact .inl hactive
  · rintro (hactive | ⟨haccepted, -⟩)
    · exact .inr hactive
    · exact .inl haccepted

/-- A `claim` that returns nothing and changes nothing found nothing to dispatch. -/
theorem idle_of_claim {store : BrokerStore}
    (hkeyed : Table.Keyed OperationRow.key s.ledger.operations)
    (hqueued : Queued s.ledger) (h : store.claim s = .ok (none, s'))
    (hsame : s'.ledger = s.ledger) :
    ∀ r, ¬ s.ledger.Ready r := by
  rcases claim_dispatches hkeyed hqueued h with ⟨-, -, hidle⟩ | ⟨r, hready, -, r', hr', hc⟩
  · exact hidle
  · -- the candidate has failed, and it was accepted
    rcases hc with ⟨x, hx, -⟩ | ⟨-, hfailed, -⟩
    · cases hx
    · have hlook : s.ledger.operation? r.key = some r := hkeyed.mem_iff_lookup.mp hready.1
      rw [hsame, hlook] at hr'
      obtain rfl := Option.some.inj hr'
      exact absurd (hready.2.1.symm.trans hfailed) (by decide)

end

/-- **When expired payloads are retired**, in every reachable broker and at every time: exactly when
some operation can be dispatched, so that `claim` is not idle, or no operation is stranded. -/
theorem retires_iff {disp : BrokerDispatcher} {B : Process} (h : Process.Reachable disp B)
    (t : Time) : Retires disp.store B.ledger t ↔
      (∃ r, B.ledger.Ready r) ∨ ∀ r, ¬ B.ledger.Stranded t r := by
  obtain ⟨hinv, -⟩ := Process.moves_of_run Process.inv_initial h
  have hpurged : ∀ uuids s₁, purge ⟨B.ledger, fun _ => t, uuids⟩ = .ok ((), s₁) →
      Purged t B.ledger s₁.ledger ∧ Table.Keyed OperationRow.key s₁.ledger.operations ∧
        Queued s₁.ledger := by
    intro uuids s₁ hpurge
    obtain ⟨hops, hpays⟩ := purge_eq_ok (s := ⟨B.ledger, fun _ => t, uuids⟩) rfl hpurge
    obtain ⟨ks, hmoves⟩ := @brokerMoves_of_publishes _ _ _ True (purge_publishes hpurge)
    exact ⟨⟨hops, hpays⟩, keyed_of_trace hmoves hinv.keyed, queued_of_trace hmoves hinv.queued⟩
  constructor
  · intro hretires
    refine or_iff_not_imp_left.mpr fun hnone => ?_
    rintro r ⟨hr, haccepted, hlapsed, -⟩
    obtain ⟨s₁, hpurge⟩ := purge_total ⟨B.ledger, fun _ => t, fun _ => 0⟩
    obtain ⟨hp, hkeyed, hqueued⟩ := hpurged _ s₁ hpurge
    have hidle : ∀ r, ¬ s₁.ledger.Ready r := fun r hready =>
      hnone (hp.ready_iff.mp ⟨r, hready⟩)
    rcases @claim_total disp.store ⟨s₁.ledger, fun _ => t, fun _ => 0⟩ hkeyed hqueued
      with ⟨c, s₂, hclaim⟩ | ⟨r', hready, -⟩
    · rcases claim_dispatches (s := ⟨s₁.ledger, fun _ => t, fun _ => 0⟩) hkeyed hqueued hclaim
        with ⟨rfl, hsame, -⟩ | ⟨r', hready, -⟩
      · have hlive := (hretires _ _ s₁ s₂ hpurge hclaim hsame).1 (purgedRow t r)
          (hp.operations ▸ List.mem_map_of_mem hr) (by rwa [state_purgedRow])
        exact hlapsed ((hp.live_iff r).mp hlive)
      · exact hidle r' hready
    · exact hidle r' hready
  · intro hcond uuids uuids' s₁ s₂ hpurge hclaim hsame
    obtain ⟨hp, hkeyed, hqueued⟩ := hpurged uuids s₁ hpurge
    have hidle := idle_of_claim (s := ⟨s₁.ledger, fun _ => t, uuids'⟩) hkeyed hqueued hclaim hsame
    have hnone : ∀ r, ¬ B.ledger.Ready r := fun r hready =>
      (hp.ready_iff.mpr ⟨r, hready⟩).elim hidle
    have hstranded := hcond.resolve_left fun ⟨r, hready⟩ => hnone r hready
    have hlive : ∀ r ∈ s₁.ledger.operations, r.state = .accepted → s₁.ledger.Live t r := by
      rw [hp.operations]
      intro _ hmem haccepted
      obtain ⟨r, hr, rfl⟩ := List.mem_map.mp hmem
      rw [state_purgedRow] at haccepted
      by_contra hlapsed
      exact hstranded r (stranded_of_idle hnone hr haccepted
        fun hlive => hlapsed ((hp.live_iff r).mpr hlive))
    exact ⟨hlive, pending_eq_entitled hlive⟩

/-- Two operations of one flow are accepted, and the first is claimed. A day later the payload of
the second has expired. -/
theorem blocked_run :
    ∃ B s₁ s₂, Process.Reachable ⟨BrokerStore.default, fun _ => "", fun _ => none⟩ B ∧
      (∃ r ∈ B.ledger.operations, r.state = .accepted) ∧
      (∀ r ∈ B.ledger.operations, r.state = .accepted → B.ledger.Live 8 r) ∧
      purge ⟨B.ledger, fun _ => seconds 100000, fun _ => 0⟩ = .ok ((), s₁) ∧
      BrokerStore.default.claim ⟨s₁.ledger, fun _ => seconds 100000, fun _ => 0⟩ = .ok (none, s₂) ∧
      s₂.ledger = s₁.ledger ∧
      ∃ r ∈ s₁.ledger.operations, r.state = .accepted ∧ ¬ s₁.ledger.Live (seconds 100000) r := by
  let disp : BrokerDispatcher := ⟨BrokerStore.default, fun _ => "", fun _ => none⟩
  have hruns : (Tx.succeeds (BrokerStore.default.serve "laptop" (.accept (sampleRequest 1 2))
      ⟨Ledger.empty, fun _ => 5, fun _ => 0⟩) fun _ s₁ =>
    Tx.succeeds (BrokerStore.default.serve "laptop" (.accept (sampleRequest 3 2))
        ⟨s₁.ledger, fun _ => 6, fun _ => 0⟩) fun _ s₂ =>
      Tx.succeeds (BrokerStore.default.claim ⟨s₂.ledger, fun _ => 7, fun _ => 0⟩) fun c s₃ =>
        (c.isSome ∧ (∃ r ∈ s₃.ledger.operations, r.state = .accepted) ∧
          ∀ r ∈ s₃.ledger.operations, r.state = .accepted → s₃.ledger.Live 8 r) &&
        Tx.succeeds (purge ⟨s₃.ledger, fun _ => seconds 100000, fun _ => 0⟩) fun _ s₄ =>
          Tx.succeeds (BrokerStore.default.claim ⟨s₄.ledger, fun _ => seconds 100000, fun _ => 0⟩)
            fun c s₅ => c = none ∧ s₅.ledger = s₄.ledger ∧
              ∃ r ∈ s₄.ledger.operations, r.state = .accepted ∧
                ¬ s₄.ledger.Live (seconds 100000) r) =
      true := by decide +kernel
  obtain ⟨_, s₁, h₁, hruns⟩ := Tx.exists_of_succeeds hruns
  obtain ⟨_, s₂, h₂, hruns⟩ := Tx.exists_of_succeeds hruns
  obtain ⟨o, s₃, h₃, hruns⟩ := Tx.exists_of_succeeds hruns
  obtain ⟨hclaimed, hlater⟩ := Bool.and_eq_true_iff.mp hruns
  obtain ⟨hsome, hwaits, hlive⟩ := of_decide_eq_true hclaimed
  obtain ⟨c, rfl⟩ := Option.isSome_iff_exists.mp hsome
  obtain ⟨_, s₄, h₄, hlater⟩ := Tx.exists_of_succeeds hlater
  obtain ⟨_, s₅, h₅, hlater⟩ := Tx.exists_of_succeeds hlater
  obtain ⟨rfl, hsame, hlapsed⟩ := of_decide_eq_true hlater
  let B₁ : Process := { Process.initial with ledger := s₁.ledger }
  let B₂ : Process := { Process.initial with ledger := s₂.ledger }
  let B : Process := ⟨s₃.ledger, [⟨c.key, .submit, .created⟩], [c.key], [], none, [], [c.key]⟩
  have hstep₁ : Process.Step disp Process.initial _ B₁ := Process.Step.serve h₁
  have hstep₂ : Process.Step disp B₁ _ B₂ := Process.Step.serve h₂
  have hstep₃ : Process.Step disp B₂ (.claimed c.key) B :=
    @Process.Step.claim disp B₂ true c _ _ s₃ (fun _ => rfl) (Nat.zero_lt_succ 3) h₃
  have hreach : Process.Reachable disp B :=
    ((Relation.ReflTransGen.single ⟨_, hstep₁⟩).tail ⟨_, hstep₂⟩).tail ⟨_, hstep₃⟩
  exact ⟨B, s₄, s₅, hreach, hwaits, hlive, h₄, h₅, hsame, hlapsed⟩

theorem retires_iff_live :
    ∃ B, Process.Reachable ⟨BrokerStore.default, fun _ => "", fun _ => none⟩ B ∧
      (∃ r ∈ B.ledger.operations, r.state = .accepted) ∧
      Retires BrokerStore.default B.ledger 8 := by
  obtain ⟨B, _, _, hreach, hwaits, hlive, -⟩ := blocked_run
  exact ⟨B, hreach, hwaits, (retires_iff hreach 8).mpr (.inr fun r hstranded =>
    hstranded.2.2.1 (hlive r hstranded.1 hstranded.2.1))⟩

/-- The second operation of a flow keeps its place when its payload has expired. -/
theorem blocked_payload_kept :
    ¬ ∀ B t, Process.Reachable ⟨BrokerStore.default, fun _ => "", fun _ => none⟩ B →
      Retires BrokerStore.default B.ledger t := by
  intro h
  obtain ⟨B, s₁, s₂, hreach, -, -, hpurge, hclaim, hsame, r, hr, haccepted, hlapsed⟩ := blocked_run
  exact hlapsed ((h B _ hreach _ _ s₁ s₂ hpurge hclaim hsame).1 r hr haccepted)

end HermesGateway.Broker
