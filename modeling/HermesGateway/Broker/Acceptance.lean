import HermesGateway.Broker.Coherence

/-!
# Acceptance

A client that does not hear back repeats its request, so `accept` has to be safe to repeat. The
row of an operation keeps the digest of the canonical text of the request it was made from. The
canonical text determines the request, since `json.loads` reads it back, and so, as long as the
digest does not collide, a repeated request is told from another one with the same identifier.

## Main definitions

* `AcceptCall` — one call of `accept`, with the ledger before and after it
* `Appends` — what the call that creates an operation adds
* `AcceptStep` — a step of the broker in which the calls for one operation are seen

## Main results

* `canonicalBytes_inj` — the canonical text determines the request
* `accept_previous` — what `accept` answers for an operation that is there
* `acceptance_idempotent` — the calls for one operation, over every run
-/

namespace HermesGateway.Broker

open BrokerStore

/-! ### The canonical text of a request -/

theorem OperationRequest.tidy_toJson (r : OperationRequest) : r.toJson.Tidy := by
  have hids : ∀ ids : List Uuid, Json.TidyElems (ids.map fun a => Json.str a.text) := by
    intro ids
    induction ids with
    | nil => trivial
    | cons a ids ih => exact ⟨trivial, ih⟩
  simpa [toJson, Json.Tidy, Json.TidyMembers] using hids r.artifactIds

theorem sortElems_strings (ids : List Uuid) :
    Json.sortElems (ids.map fun a => Json.str a.text) = ids.map fun a => Json.str a.text := by
  induction ids with
  | nil => rfl
  | cons a ids ih =>
    rw [List.map_cons, Json.sortElems, ih]
    rfl

theorem OperationRequest.member_toJson (r : OperationRequest) :
    r.toJson.get? "operation_id" = some (.str r.operationId.text) ∧
      r.toJson.get? "flow_id" = some (.str r.flowId.text) ∧
      r.toJson.get? "prompt" = some (.str r.prompt) ∧
      r.toJson.get? "artifact_ids" = some (.arr (r.artifactIds.map fun a => .str a.text)) :=
  ⟨rfl, rfl, rfl, rfl⟩

/-- **The canonical text determines the request**: its flow, its prompt, character by character,
and its artifacts, in their order. -/
theorem canonicalBytes_inj {r r' : OperationRequest} :
    canonicalBytes r.toJson = canonicalBytes r'.toJson ↔ r = r' := by
  refine ⟨fun h => ?_, fun h => by rw [h]⟩
  have hchars : r.toJson.canonical = r'.toJson.canonical :=
    String.ofList_injective (String.toByteArray_inj.mp h)
  have hsorted : r.toJson.sortKeys = r'.toJson.sortKeys := by
    have hread := Json.loads_dumps (Json.tidy_sortKeys r.tidy_toJson)
    rw [show r.toJson.sortKeys.dumps = r'.toJson.sortKeys.dumps from hchars,
      Json.loads_dumps (Json.tidy_sortKeys r'.tidy_toJson)] at hread
    exact (Option.some.inj hread).symm
  have hget : ∀ key, (r.toJson.get? key).map Json.sortKeys =
    (r'.toJson.get? key).map Json.sortKeys := by
    intro key
    rw [← Json.get?_sortKeys r.tidy_toJson, ← Json.get?_sortKeys r'.tidy_toJson, hsorted]
  have hop := hget "operation_id"
  have hflow := hget "flow_id"
  have hprompt := hget "prompt"
  have hids := hget "artifact_ids"
  simp only [(r.member_toJson).1, (r'.member_toJson).1, Option.map_some, Json.sortKeys,
    Option.some.injEq, Json.str.injEq, text_injective.eq_iff] at hop
  simp only [(r.member_toJson).2.1, (r'.member_toJson).2.1, Option.map_some, Json.sortKeys,
    Option.some.injEq, Json.str.injEq, text_injective.eq_iff] at hflow
  simp only [(r.member_toJson).2.2.1, (r'.member_toJson).2.2.1, Option.map_some, Json.sortKeys,
    Option.some.injEq, Json.str.injEq] at hprompt
  simp only [(r.member_toJson).2.2.2, (r'.member_toJson).2.2.2, Option.map_some, Json.sortKeys,
    sortElems_strings, Option.some.injEq, Json.arr.injEq] at hids
  have hids : r.artifactIds = r'.artifactIds := by
    refine List.map_injective_iff.mpr (fun a b hab => ?_) hids
    exact text_injective (Json.str.inj hab)
  obtain ⟨op, flow, prompt, ids⟩ := r
  obtain ⟨op', flow', prompt', ids'⟩ := r'
  rw [OperationRequest.mk.injEq]
  exact ⟨hop, hflow, hprompt, hids⟩

/-! ### Devices -/

/-- Every operation is that of a device that has a row. -/
def Housed (L : Ledger) : Prop :=
  ∀ r ∈ L.operations, r.deviceId ∈ L.devices.map DeviceRow.deviceId

section

variable {R : Time → Time → Prop} {P : Ledger → OperationRow → Edit → Prop} {L L' : Ledger}
  {ks : List Key}

/-- Rows of devices are never deleted. -/
theorem Move.devices (hmove : Move R P L ks L') :
    L.devices.map DeviceRow.deviceId <+: L'.devices.map DeviceRow.deviceId := by
  have modify : ∀ {f : DeviceRow → DeviceRow} {d : Device}, (∀ r, (f r).deviceId = r.deviceId) →
      L.devices.map DeviceRow.deviceId <+:
        (Table.modify DeviceRow.deviceId L.devices d f).map DeviceRow.deviceId := by
    intro f d hf
    rw [Table.modify, List.map_map]
    refine (List.map_congr_left fun r _ => ?_) ▸ List.prefix_refl _
    rw [Function.comp_apply]
    split_ifs
    · exact hf r
    · rfl
  cases hmove with
  | device =>
    rw [List.map_append]
    exact List.prefix_append _ _
  | insert => exact modify fun _ => rfl
  | @edit k e =>
    change _ <+: (Table.modify DeviceRow.deviceId (e.ledger k L).devices _ _).map _
    rw [Edit.devices_ledger]
    exact modify fun _ => rfl
  | purgeEvents => exact modify fun _ => rfl
  | receipt | dropArtifacts | putArtifact | poll | cancelClaim | purge => exact List.prefix_refl _

/-- An operation that moves leave was there, or its device was. -/
theorem Move.housed (hmove : Move R P L ks L') (h : Housed L) : Housed L' := by
  have hdevices := hmove.devices.subset
  have map : ∀ {f : OperationRow → OperationRow}, (∀ r, (f r).deviceId = r.deviceId) →
      ∀ r ∈ L.operations.map f, r.deviceId ∈ L'.devices.map DeviceRow.deviceId := by
    intro f hf r hr
    obtain ⟨r', hr', rfl⟩ := List.mem_map.mp hr
    rw [hf]
    exact hdevices (h r' hr')
  have modify : ∀ {f : OperationRow → OperationRow} {k : Key}, (∀ r, (f r).key = r.key) →
      ∀ r ∈ Table.modify OperationRow.key L.operations k f,
        r.deviceId ∈ L'.devices.map DeviceRow.deviceId := by
    intro f k hf
    refine map fun r => ?_
    split_ifs
    · exact congrArg Prod.fst (hf r)
    · rfl
  cases hmove with
  | device | purgeEvents => exact fun r hr => hdevices (h r hr)
  | receipt | dropArtifacts | putArtifact => exact h
  | @insert d request digest now _ _ _ _ dev _ hdev =>
    intro r hr
    rcases List.mem_append.mp hr with hr | hr
    · exact hdevices (h r hr)
    · rw [List.mem_singleton.mp hr]
      refine hdevices (List.mem_map.mpr ⟨dev, Table.mem_of_lookup hdev, ?_⟩)
      exact Table.key_of_lookup hdev
  | @edit k e =>
    change ∀ r ∈ (e.ledger k L).operations, _
    rw [Edit.operations_ledger]
    exact modify e.key_row
  | poll => exact modify (key_polledRow _)
  | cancelClaim => exact modify key_cancelClaimedRow
  | purge => exact map fun r => congrArg Prod.fst (key_purgedRow _ r)

theorem Housed.device (h : Housed L) {k : Key} {r : OperationRow} (hr : L.operation? k = some r) :
    ∃ dev, L.device? k.1 = some dev := by
  obtain ⟨dev, hdev, hid⟩ := List.mem_map.mp (h r (Table.mem_of_lookup hr))
  have hkey : r.deviceId = k.1 := congrArg Prod.fst (key_of_operation? hr)
  rw [← hkey, ← hid]
  exact Table.exists_lookup_of_mem hdev

end

theorem housed_of_reachable {disp : BrokerDispatcher} {B : Process}
    (h : Process.Reachable disp B) : Housed B.ledger := by
  obtain ⟨-, ks, hmoves⟩ := Process.moves_of_run Process.inv_initial h
  exact hmoves.invariant (fun hI hmove => hmove.housed hI) fun _ hr => absurd hr List.not_mem_nil

/-! ### One call -/

/-- The digest `accept` stores and compares. -/
def BrokerStore.digest (store : BrokerStore) (request : OperationRequest) : String :=
  store.sha256 (canonicalBytes request.toJson)

/-- The refusal of a request whose identifier is taken. -/
def idConflict : Failure :=
    brokerError .idConflict "operation ID already has a different request" 409

/-- What `accept` answers for an operation that is there: its snapshot, if the request is the same,
and a refusal otherwise. Nothing else is looked at. -/
theorem accept_previous {store : BrokerStore} {s : Session} {d : Device}
    {request : OperationRequest} {previous : OperationRow} {dev : DeviceRow}
    (hprev : s.ledger.operation? (d, request.operationId) = some previous)
    (hdev : s.ledger.device? d = some dev) (hrow : previous.Coherent) :
    store.accept d request s =
      if previous.digest = store.digest request then
        .ok ((render previous (s.clock 0) (s.clock 1), false), s.tick.tick)
      else .error idConflict := by
  have hread : readLedger s = .ok (s.ledger, s) := rfl
  have hdevice : device d s = .ok ((), s) := by
    rw [device_ok, Ledger.withDevice_of_some hdev]
  have hsnap :
    snapshot previous s = .ok (render previous (s.clock 0) (s.clock 1), s.tick.tick) := by
    have hexpiry : ¬ (previous.result.isSome = true ∧ previous.resultExpiresAt = none) := by
      rintro ⟨hsome, hnone⟩
      exact (hrow.result (Option.isSome_iff_ne_none.mp hsome)).2 hnone
    rw [snapshot, Tx.refuse, if_neg hexpiry]
    rfl
  rw [accept, Tx.bind_of_ok hdevice, Tx.bind_of_ok hread, hprev]
  change (Tx.refuse (previous.digest ≠ store.digest request) idConflict >>= fun _ =>
    snapshot previous >>= fun snap => pure (snap, false)) s = _
  by_cases hsame : previous.digest = store.digest request
  · have hpass : Tx.refuse (previous.digest ≠ store.digest request) idConflict s = .ok ((), s) :=
      Tx.refuse_eq_ok.mpr ⟨not_not.mpr hsame, rfl⟩
    rw [if_pos hsame, Tx.bind_of_ok hpass, Tx.bind_of_ok hsnap]
    rfl
  · rw [if_neg hsame, Tx.refuse, if_pos hsame]
    rfl

/-- One call of `accept`, with the ledger before and after it. -/
structure AcceptCall where
  request : OperationRequest
  clock : ℕ → Time
  before : Ledger
  outcome : Except Failure (Snapshot × Bool)
  after : Ledger

/-- Whether the call created the operation. -/
def AcceptCall.created (c : AcceptCall) : Bool :=
  match c.outcome with
  | .ok (_, created) => created
  | .error _ => false

/-- Call `accept`. A call that is refused, or fails, is rolled back. -/
def BrokerStore.acceptCall (store : BrokerStore) (d : Device) (request : OperationRequest)
    (s : Session) : AcceptCall where
  request := request
  clock := s.clock
  before := s.ledger
  outcome := (store.accept d request s).map Prod.fst
  after := ledgerAfter s.ledger (store.accept d request s)

/-- What creating an operation adds: one row in each of the four tables. -/
structure Appends (L : Ledger) (d : Device) (request : OperationRequest) (snap : Snapshot)
    (L' : Ledger) : Prop where
  operation : ∃ r, L'.operations = L.operations ++ [r] ∧ r.key = (d, request.operationId) ∧
    r.flowId = request.flowId ∧ r.state = .accepted
  payload : ∃ p, L'.payloads = L.payloads ++ [p] ∧ p.key = (d, request.operationId) ∧
    p.request = request
  outbox : ∃ b, L'.outbox = L.outbox ++ [b] ∧ b.key = (d, request.operationId) ∧ b.state = .pending
  event : ∃ e, L'.events = L.events ++ [e] ∧ e.key = (d, request.operationId) ∧ e.snapshot = snap
  rest : L'.artifacts = L.artifacts ∧ L'.receipts = L.receipts

section

variable {store : BrokerStore} {d : Device} {request : OperationRequest} {s s' : Session}

/-- A call that creates the operation appends its rows, and keeps the digest of the request. -/
theorem accept_created {snap : Snapshot}
    (h : store.accept d request s = .ok ((snap, true), s')) :
    s.ledger.operation? (d, request.operationId) = none ∧
      Appends s.ledger d request snap s'.ledger ∧
      ∃ r, s'.ledger.operation? (d, request.operationId) = some r ∧
        r.digest = store.digest request := by
  obtain ⟨devices, hdevices⟩ := s.ledger.withDevice_eq d
  rcases accept_eq_ok h with ⟨_, -, -, hret, -⟩ | ⟨hnew, -, -, now, dev, t₁, t₂, expires, -,
    hret, hledger⟩
  · cases hret
  obtain ⟨rfl, -⟩ := Prod.mk.inj hret
  rw [hdevices] at hledger
  refine ⟨hnew, ?_, ?_⟩
  · rw [hledger]
    exact ⟨⟨_, rfl, rfl, rfl, rfl⟩, ⟨_, rfl, rfl, rfl⟩, ⟨_, rfl, rfl, rfl⟩, ⟨_, rfl, rfl, rfl⟩,
      rfl, rfl⟩
  · rw [hledger]
    exact ⟨_, Table.lookup_insert_self (c := OperationRow.key)
      (r := acceptedRow d request (store.sha256 (canonicalBytes request.toJson)) now) hnew, rfl⟩

end

/-! ### Every run -/

/-- A step of the broker, with the calls of `accept` for the operation `op` of `d` in view. -/
inductive AcceptStep (disp : BrokerDispatcher) (d : Device) (op : Uuid) :
    Process → List AcceptCall → Process → Prop
  | call {B : Process} {request : OperationRequest} {clock : ℕ → Time} {uuids : ℕ → Uuid}
      (hop : request.operationId = op) :
      AcceptStep disp d op B [disp.store.acceptCall d request ⟨B.ledger, clock, uuids⟩]
        { B with ledger := (disp.store.acceptCall d request ⟨B.ledger, clock, uuids⟩).after }
  | other {B B' : Process} {act : Act} (h : Process.Step disp B act B')
      (hact : ∀ request reply, act = .serve d (.accept request) reply → request.operationId ≠ op) :
      AcceptStep disp d op B [] B'

/-- What must hold of the calls for one operation, in the order they were made. -/
structure Idempotent (d : Device) (op : Uuid) (calls : List AcceptCall) : Prop where
  once : calls.countP AcceptCall.created ≤ 1
  creates : ∀ c ∈ calls, ∀ snap, c.outcome = .ok (snap, true) →
    Appends c.before d c.request snap c.after
  unchanged : ∀ c ∈ calls, c.created = false → c.after = c.before
  repeats : calls.Pairwise fun c c' => c.created = true →
    (c'.request = c.request → ∃ r, c'.before.operation? (d, op) = some r ∧
      c'.outcome = .ok (render r (c'.clock 0) (c'.clock 1), false)) ∧
    (c'.request ≠ c.request → c'.outcome = .error idConflict)

section

variable {disp : BrokerDispatcher} {d : Device} {op : Uuid}

/-- A call that is not hidden is a step, or leaves everything as it was. -/
theorem AcceptStep.run {B B' : Process} {cs : List AcceptCall} (h : AcceptStep disp d op B cs B') :
    Process.Run disp B B' := by
  cases h with
  | other h => exact Relation.ReflTransGen.single ⟨_, h⟩
  | @call request clock uuids hop =>
    cases haccept : disp.store.accept d request ⟨B.ledger, clock, uuids⟩ with
    | error e =>
      rw [acceptCall, haccept]
      exact Relation.ReflTransGen.refl
    | ok x =>
      obtain ⟨r, s'⟩ := x
      have hserve : disp.store.serve d (.accept request) ⟨B.ledger, clock, uuids⟩ =
          .ok (.snapshot r.1, s') := Tx.map_eq_ok.mpr ⟨r, haccept, rfl⟩
      rw [acceptCall, haccept]
      exact Relation.ReflTransGen.single ⟨_, Process.Step.serve hserve⟩

/-- What is known of the calls so far: one that created the operation has left its digest. -/
structure Calls (disp : BrokerDispatcher) (d : Device) (op : Uuid) (calls : List AcceptCall)
    (B : Process) : Prop where
  reachable : Process.Reachable disp B
  requests : ∀ c ∈ calls, c.request.operationId = op
  creates : ∀ c ∈ calls, ∀ snap, c.outcome = .ok (snap, true) →
    Appends c.before d c.request snap c.after
  unchanged : ∀ c ∈ calls, c.created = false → c.after = c.before
  stored : ∀ c ∈ calls, c.created = true → ∃ r, B.ledger.operation? (d, op) = some r ∧
    r.digest = disp.store.digest c.request
  repeats : calls.Pairwise fun c c' => c.created = true →
    ∃ r, c'.before.operation? (d, op) = some r ∧
      c'.outcome = if disp.store.digest c.request = disp.store.digest c'.request then
        .ok (render r (c'.clock 0) (c'.clock 1), false) else .error idConflict

/-- The row an operation had keeps its digest. -/
theorem digest_of_run {B B' : Process} (hreach : Process.Reachable disp B)
    (hrun : Process.Run disp B B') {k : Key} {r : OperationRow}
    (hr : B.ledger.operation? k = some r) :
    ∃ r', B'.ledger.operation? k = some r' ∧ r'.digest = r.digest := by
  obtain ⟨hinv, -⟩ := Process.moves_of_run Process.inv_initial hreach
  obtain ⟨-, ks, hmoves⟩ := Process.moves_of_run hinv hrun
  obtain ⟨r', hr', hdesc⟩ := descends_of_trace hmoves hr
  exact ⟨r', hr', hdesc.digest⟩

/-- A new call, after those that were made. -/
theorem Calls.call {B : Process} {calls : List AcceptCall} (h : Calls disp d op calls B)
    {request : OperationRequest} (hop : request.operationId = op) (clock : ℕ → Time)
    (uuids : ℕ → Uuid) :
    Calls disp d op (calls ++ [disp.store.acceptCall d request ⟨B.ledger, clock, uuids⟩])
      { B with ledger := (disp.store.acceptCall d request ⟨B.ledger, clock, uuids⟩).after } := by
  subst hop
  have hrun : Process.Run disp B
      { B with ledger := (disp.store.acceptCall d request ⟨B.ledger, clock, uuids⟩).after } :=
    (AcceptStep.call rfl).run
  have hrow : ∀ r, B.ledger.operation? (d, request.operationId) = some r → r.Coherent := fun r hr =>
    (Process.life_of_reachable h.reachable (d, request.operationId)).coherent.1 r hr
  refine ⟨h.reachable.trans hrun, ?_, ?_, ?_, ?_, ?_⟩
  · intro c hc
    rcases List.mem_append.mp hc with hc | hc
    · exact h.requests c hc
    · rw [List.mem_singleton.mp hc]
      rfl
  · intro c hc snap hsnap
    rcases List.mem_append.mp hc with hc | hc
    · exact h.creates c hc snap hsnap
    · rw [List.mem_singleton.mp hc] at hsnap ⊢
      cases haccept : disp.store.accept d request ⟨B.ledger, clock, uuids⟩ with
      | error e => simp [acceptCall, haccept, Except.map] at hsnap
      | ok x =>
        obtain ⟨r, s'⟩ := x
        simp only [acceptCall, haccept, Except.map, Except.ok.injEq] at hsnap
        rw [show r = (snap, true) from hsnap] at haccept
        simpa only [acceptCall, haccept, ledgerAfter] using (accept_created haccept).2.1
  · intro c hc hcreated
    rcases List.mem_append.mp hc with hc | hc
    · exact h.unchanged c hc hcreated
    · rw [List.mem_singleton.mp hc] at hcreated ⊢
      cases haccept : disp.store.accept d request ⟨B.ledger, clock, uuids⟩ with
      | error e => simp only [acceptCall, haccept, ledgerAfter]
      | ok x =>
        obtain ⟨r, s'⟩ := x
        simp only [acceptCall, haccept, ledgerAfter]
        rcases accept_eq_ok haccept with ⟨previous, hprev, -, -, hledger⟩ | ⟨-, -, -, _, _, _, _, _,
          -, hret, -⟩
        · obtain ⟨dev, hdev⟩ := (housed_of_reachable h.reachable).device hprev
          rw [hledger, Ledger.withDevice_of_some hdev]
        · simp [AcceptCall.created, acceptCall, haccept, Except.map, hret] at hcreated
  · intro c hc hcreated
    rcases List.mem_append.mp hc with hc | hc
    · obtain ⟨r, hr, hdigest⟩ := h.stored c hc hcreated
      obtain ⟨r', hr', hsame⟩ := digest_of_run h.reachable hrun hr
      exact ⟨r', hr', hsame.trans hdigest⟩
    · rw [List.mem_singleton.mp hc] at hcreated ⊢
      cases haccept : disp.store.accept d request ⟨B.ledger, clock, uuids⟩ with
      | error e => simp [AcceptCall.created, acceptCall, haccept, Except.map] at hcreated
      | ok x =>
        obtain ⟨⟨snap, created⟩, s'⟩ := x
        simp only [AcceptCall.created, acceptCall, haccept, Except.map] at hcreated
        subst hcreated
        simpa only [acceptCall, haccept, ledgerAfter] using (accept_created haccept).2.2
  · rw [List.pairwise_append]
    refine ⟨h.repeats, List.pairwise_singleton _ _, fun c hc c' hc' hcreated => ?_⟩
    rw [List.mem_singleton.mp hc']
    obtain ⟨r, hr, hdigest⟩ := h.stored c hc hcreated
    obtain ⟨dev, hdev⟩ := (housed_of_reachable h.reachable).device hr
    refine ⟨r, hr, ?_⟩
    have hprev := @accept_previous disp.store ⟨B.ledger, clock, uuids⟩ _ _ _ _ hr hdev (hrow r hr)
    rw [hdigest] at hprev
    simp only [acceptCall, hprev]
    split_ifs <;> rfl

/-- One step of the broker keeps what is known of the calls. -/
theorem Calls.step {B B' : Process} {calls cs : List AcceptCall} (h : Calls disp d op calls B)
    (hstep : AcceptStep disp d op B cs B') : Calls disp d op (calls ++ cs) B' := by
  have hrun := hstep.run
  cases hstep with
  | call hop => exact h.call hop _ _
  | other _ _ =>
    rw [List.append_nil]
    refine { h with reachable := h.reachable.trans hrun, stored := fun c hc hcreated => ?_ }
    obtain ⟨r, hr, hdigest⟩ := h.stored c hc hcreated
    obtain ⟨r', hr', hsame⟩ := digest_of_run h.reachable hrun hr
    exact ⟨r', hr', hsame.trans hdigest⟩

theorem Calls.of_trace {B : Process} {calls : List AcceptCall}
    (h : Trace (AcceptStep disp d op) Process.initial calls B) : Calls disp d op calls B :=
  Trace.labels (I := Calls disp d op) (fun hI hstep => hI.step hstep) h
    ⟨Relation.ReflTransGen.refl, by simp, by simp, by simp, by simp, List.Pairwise.nil⟩

/-- If nothing that has the property follows something that has it, at most one thing has it. -/
theorem countP_le_one {α : Type*} {p : α → Bool} {xs : List α}
    (h : xs.Pairwise fun a b => p a = true → p b = false) : xs.countP p ≤ 1 := by
  induction xs with
  | nil => simp
  | cons x xs ih =>
    obtain ⟨hx, hxs⟩ := List.pairwise_cons.mp h
    by_cases hp : p x = true
    · have hnone : xs.countP p = 0 := by
        rw [List.countP_eq_zero]
        intro y hy
        rw [hx y hy hp]
        simp
      rw [List.countP_cons_of_pos hp, hnone]
    · rw [List.countP_cons_of_neg hp]
      exact ih hxs

/-- **Acceptance is idempotent.** The canonical text of a request determines it. And over every
run of the broker, of the calls of `accept` for one operation of one device, whatever comes
between them: at most one creates it, and adds one operation, one payload, one outbox row and one
event; after it a call with the same request is answered with the snapshot of the row as it is
then, and any other is refused as a conflict; and every call but the one that creates the
operation leaves the ledger unchanged. The digests of the requests are assumed not to collide. -/
theorem acceptance_idempotent (disp : BrokerDispatcher) (d : Device) (op : Uuid) :
    (∀ r r' : OperationRequest, canonicalBytes r.toJson = canonicalBytes r'.toJson ↔ r = r') ∧
      ∀ (calls : List AcceptCall) (B : Process),
        (∀ c ∈ calls, ∀ c' ∈ calls,
          disp.store.sha256 (canonicalBytes c.request.toJson) =
            disp.store.sha256 (canonicalBytes c'.request.toJson) →
          canonicalBytes c.request.toJson = canonicalBytes c'.request.toJson) →
        Trace (AcceptStep disp d op) Process.initial calls B → Idempotent d op calls := by
  refine ⟨fun r r' => canonicalBytes_inj, fun calls B hcollide htrace => ?_⟩
  have hcalls := Calls.of_trace htrace
  have hrepeats : calls.Pairwise fun c c' => c.created = true →
      (c'.request = c.request → ∃ r, c'.before.operation? (d, op) = some r ∧
        c'.outcome = .ok (render r (c'.clock 0) (c'.clock 1), false)) ∧
      (c'.request ≠ c.request → c'.outcome = .error idConflict) := by
    refine hcalls.repeats.imp_of_mem fun {c c'} hc hc' h hcreated => ?_
    obtain ⟨r, hr, hout⟩ := h hcreated
    refine ⟨fun hsame => ⟨r, hr, ?_⟩, fun hother => ?_⟩
    · rw [hout, if_pos (by rw [hsame])]
    · rw [hout, if_neg fun hdigest => hother ?_]
      exact (canonicalBytes_inj.mp (hcollide c hc c' hc' hdigest)).symm
  refine ⟨countP_le_one (hcalls.repeats.imp fun {c c'} h hcreated => ?_), hcalls.creates,
    hcalls.unchanged, hrepeats⟩
  obtain ⟨r, -, hout⟩ := h hcreated
  rw [AcceptCall.created, hout]
  split_ifs <;> rfl

theorem acceptance_idempotent_retry :
    ∃ (calls : List AcceptCall) (B : Process),
      Trace (AcceptStep ⟨⟨BrokerSettings.default, fun _ =>
        "7863648dd649987f48d18cb3709b24f2c46d87168bed0f1b5975454f7cdf1e67", fun _ => true⟩,
        fun _ => "", fun _ => none⟩ "laptop" 1) Process.initial calls B ∧
      calls.map AcceptCall.created = [true, false] ∧ Idempotent "laptop" 1 calls := by
  let disp : BrokerDispatcher := ⟨⟨BrokerSettings.default, fun _ =>
    "7863648dd649987f48d18cb3709b24f2c46d87168bed0f1b5975454f7cdf1e67", fun _ => true⟩,
    fun _ => "", fun _ => none⟩
  let first := disp.store.acceptCall "laptop" (sampleRequest 1 2)
    ⟨Ledger.empty, fun _ => 5, fun _ => 0⟩
  let again := disp.store.acceptCall "laptop" (sampleRequest 1 2)
    ⟨first.after, fun _ => 6, fun _ => 0⟩
  have hfirst : AcceptStep disp "laptop" 1 Process.initial [first]
      { Process.initial with ledger := first.after } := AcceptStep.call rfl
  have hagain : AcceptStep disp "laptop" 1 { Process.initial with ledger := first.after } [again]
      { Process.initial with ledger := again.after } :=
    AcceptStep.call (B := { Process.initial with ledger := first.after }) rfl
  have htrace : Trace (AcceptStep disp "laptop" 1) Process.initial [first, again]
      { Process.initial with ledger := again.after } := (Trace.single hfirst).snoc hagain
  refine ⟨[first, again], _, htrace, by rfl, (acceptance_idempotent disp "laptop" 1).2 _ _
    ?_ htrace⟩
  -- both calls have the same request
  intro c hc c' hc' _
  simp only [List.mem_cons, List.not_mem_nil, or_false] at hc hc'
  rcases hc with rfl | rfl <;> rcases hc' with rfl | rfl <;> rfl

end

end HermesGateway.Broker
