import HermesGateway.Broker.Store
import HermesGateway.Library.Trace

/-!
# What a transaction does to the ledger

Every committed transaction of the store is a sequence of *moves*: small changes of the ledger,
each with the guard the code has checked before making it. Invariants of the ledger are proved
once per move and hold of every transaction from then on; no proof about runs unfolds a method.

A move that appends an event shows the key of the operation it is about. Two parameters say what
a run is assumed to do beyond that: `R t₁ t₂` relates two clock readings of one transaction in
the order they were taken, and `P L r e` is what is known of an edit `e` of a row `r` of `L`.

Seen from one operation, a move is a `KeyStep`: it leaves the row alone, changes a column no
snapshot shows, or changes the row and publishes the snapshot of what it became. The life of an
operation is a trace of such steps, and its labels are the snapshots published for it.

## Main definitions

* `Edit` — a visible change of one operation: claimed, finished, given a handle, canceling
* `Move` — one change of the ledger
* `KeyStep`, `Life` — the same from the point of view of one operation
* `Ledger.published` — the snapshots ever published for an operation, in order

## Main results

* `Move.keyStep` — what a move does to one operation, and which snapshots it publishes for it
* `life_of_trace` — the row of an operation is reached by a life with the published snapshots
-/

namespace HermesGateway.Broker

open BrokerStore

/-! ### Edits -/

/-- A visible change of one operation. -/
inductive Edit
  | claim (claimedAt now : Time)
  | finish (state : OpState) (result : Option ResultBody) (code : Option ErrorCode)
      (message : Option String) (expires : Option Time) (fresh : Uuid) (now : Time)
  | handle (handle : String) (now : Time)
  | cancel (now : Time)

namespace Edit

/-- The row after the edit. -/
def row : Edit → OperationRow → OperationRow
  | claim _ now, r => claimedRow r now
  | finish state result code message expires fresh now, r =>
    finishedRow r state result code message expires fresh now
  | handle h now, r => handledRow r h now
  | cancel now, r => cancelingRow r now

/-- What the store has checked before it makes the edit. -/
def Allowed : Edit → OperationRow → Prop
  | claim _ _, r => r.state = .accepted
  | finish state result _ _ expires _ _, r =>
    ¬ r.state.Final ∧ state.Terminal ∧ expires.isSome = result.isSome
  | handle h _, r =>
    ¬ r.state.Final ∧ (r.remoteTaskId = none ∨ r.remoteTaskId = some "") ∧ h ≠ ""
  | cancel _, r => r.Active ∧ r.cancelRequested = false

/-- The ledger after the edit, before its event is appended. -/
def ledger (k : Key) : Edit → Ledger → Ledger
  | claim claimedAt now, L =>
    (L.updateOutbox k fun b =>
      { b with state := .claimed, claimedAt := some claimedAt }).updateOperation k
        fun r => claimedRow r now
  | finish state result code message expires fresh now, L =>
    ((L.updateOperation k fun r => finishedRow r state result code message expires fresh
      now).updateOutbox k fun b => { b with state := .done }).deletePayload k
  | handle h now, L => L.updateOperation k fun r => handledRow r h now
  | cancel now, L => L.updateOperation k fun r => cancelingRow r now

@[simp] theorem key_row (e : Edit) (r : OperationRow) : (e.row r).key = r.key := by
  cases e <;> rfl

theorem operations_ledger (e : Edit) (k : Key) (L : Ledger) :
    (e.ledger k L).operations = Table.modify OperationRow.key L.operations k e.row := by
  cases e <;> rfl

@[simp] theorem devices_ledger (e : Edit) (k : Key) (L : Ledger) :
    (e.ledger k L).devices = L.devices := by
  cases e <;> rfl

@[simp] theorem events_ledger (e : Edit) (k : Key) (L : Ledger) :
    (e.ledger k L).events = L.events := by
  cases e <;> rfl

@[simp] theorem history_ledger (e : Edit) (k : Key) (L : Ledger) :
    (e.ledger k L).history = L.history := by
  cases e <;> rfl

theorem operation?_ledger (e : Edit) (k k' : Key) (L : Ledger) :
    (e.ledger k L).operation? k' =
      if k' = k then (L.operation? k').map e.row else L.operation? k' := by
  rw [Ledger.operation?, operations_ledger, Table.lookup_modify fun r => e.key_row r]
  rfl

end Edit

/-! ### Moves -/

/-- What `_purge_events` leaves of the ledger when `n` is the last expired event of `d`. -/
def Ledger.dropEvents (L : Ledger) (d : Device) (n : ℕ) : Ledger :=
  { L with
    events := L.events.filter fun e => ¬ (e.deviceId = d ∧ e.sequence ≤ n)
    devices := Table.modify DeviceRow.deviceId L.devices d fun r =>
      { r with floor := max r.floor n } }

/-- One change of the ledger. The keys shown are those of the operations an event is appended
for. -/
inductive Move (R : Time → Time → Prop) (P : Ledger → OperationRow → Edit → Prop) :
    Ledger → List Key → Ledger → Prop
  /-- `_device` inserts the row of a device. -/
  | device {L : Ledger} {d : Device} (hnew : L.device? d = none) :
      Move R P L [] { L with devices := L.devices ++ [⟨d, 0, 0⟩] }
  /-- `accept` inserts an operation and appends its first event. -/
  | insert {L : Ledger} {d : Device} {request : OperationRequest} {digest : String}
      {now payloadExpires expires t₁ t₂ : Time} {dev : DeviceRow}
      (hnew : L.operation? (d, request.operationId) = none) (hdev : L.device? d = some dev)
      (hread : R t₁ t₂) :
      Move R P L [(d, request.operationId)]
        ((insertOperation L (acceptedRow d request digest now) request payloadExpires).appendEvent
          d (dev.sequence + 1) (render (acceptedRow d request digest now) t₁ t₂) expires)
  /-- An operation is edited and its event is appended. -/
  | edit {L : Ledger} {k : Key} {e : Edit} {r : OperationRow} {dev : DeviceRow}
      {expires t₁ t₂ : Time} (hrow : L.operation? k = some r) (hdev : L.device? k.1 = some dev)
      (hallowed : e.Allowed r) (hknown : P L r e) (hread : R t₁ t₂) :
      Move R P L [k]
        ((e.ledger k L).appendEvent k.1 (dev.sequence + 1) (render (e.row r) t₁ t₂) expires)
  /-- `reconcilable` marks a row as polled. -/
  | poll {L : Ledger} {k : Key} {now : Time} :
      Move R P L [] (L.updateOperation k (polledRow now))
  /-- `claim_cancel` hands a requested cancellation out. -/
  | cancelClaim {L : Ledger} {k : Key} {r : OperationRow} (hrow : L.operation? k = some r)
      (hwanted : r.cancelRequested = true ∧ r.cancelClaimed = false ∧ r.remoteTaskId ≠ none ∧
        r.Active) :
      Move R P L [] (L.updateOperation k cancelClaimedRow)
  /-- `_purge_events` deletes a prefix of a device's events. -/
  | purgeEvents {L : Ledger} {d : Device} {n : ℕ} (hlast : ∃ e ∈ L.events, e.deviceId = d ∧
        e.sequence = n) : Move R P L [] (L.dropEvents d n)
  /-- `receipt` inserts a receipt. -/
  | receipt {L : Ledger} {k : Key} {resultId : Uuid} {status : ReceiptStatus} {now : Time}
      {r : OperationRow} (hrow : L.operation? k = some r) (hresult : r.resultId = some resultId)
      (hnew : ∀ x ∈ L.receipts, x.key ≠ (k, resultId, status)) :
      Move R P L [] { L with receipts := L.receipts ++ [⟨k.1, k.2, resultId, status, now⟩] }
  /-- Expired artifacts of a device are deleted. -/
  | dropArtifacts {L : Ledger} {d : Device} {now : Time} :
      Move R P L []
        { L with
          artifacts := L.artifacts.filter fun a => ¬ (a.deviceId = d ∧ a.expiresAt ≤ now) }
  /-- `put_artifact` inserts an artifact. -/
  | putArtifact {L : Ledger} {row : ArtifactRow} (hsize : row.content.size = row.size) :
      Move R P L [] { L with artifacts := L.artifacts ++ [row] }
  /-- The last statements of `purge`. -/
  | purge {L : Ledger} {now : Time} (hread : R now now) :
      Move R P L []
        { L with
          payloads := L.payloads.filter fun p => now < p.expiresAt
          artifacts := L.artifacts.filter fun a => now < a.expiresAt
          operations := L.operations.map (purgedRow now) }

/-- A move with less known of its edits. -/
theorem Move.imp {R : Time → Time → Prop} {P P' : Ledger → OperationRow → Edit → Prop}
    {L L' : Ledger} {ks : List Key} (hP : ∀ L r e, P L r e → P' L r e) (h : Move R P L ks L') :
    Move R P' L ks L' := by
  cases h with
  | device hnew => exact .device hnew
  | insert hnew hdev hread => exact .insert hnew hdev hread
  | edit hrow hdev hallowed hknown hread => exact .edit hrow hdev hallowed (hP _ _ _ hknown) hread
  | poll => exact .poll
  | cancelClaim hrow hwanted => exact .cancelClaim hrow hwanted
  | purgeEvents hlast => exact .purgeEvents hlast
  | receipt hrow hresult hnew => exact .receipt hrow hresult hnew
  | dropArtifacts => exact .dropArtifacts
  | putArtifact hsize => exact .putArtifact hsize
  | purge hread => exact .purge hread

/-! ### The same, seen from one operation -/

/-- The snapshots ever published for an operation, in the order they were appended. -/
def Ledger.published (L : Ledger) (k : Key) : List Snapshot :=
  (L.history.filter fun e => e.key = k).map EventRow.snapshot

/-- What a move can do to the row of operation `k`, with the snapshots it publishes for it. -/
inductive KeyStep (R : Time → Time → Prop) (Q : OperationRow → Edit → Prop) (k : Key) :
    Option OperationRow → List Snapshot → Option OperationRow → Prop
  | same {o : Option OperationRow} : KeyStep R Q k o [] o
  | insert {request : OperationRequest} {digest : String} {now t₁ t₂ : Time}
      (hop : request.operationId = k.2) (hread : R t₁ t₂) :
      KeyStep R Q k none [render (acceptedRow k.1 request digest now) t₁ t₂]
        (some (acceptedRow k.1 request digest now))
  | edit {r : OperationRow} {e : Edit} {t₁ t₂ : Time} (hkey : r.key = k)
      (hallowed : e.Allowed r) (hknown : Q r e) (hread : R t₁ t₂) :
      KeyStep R Q k (some r) [render (e.row r) t₁ t₂] (some (e.row r))
  | poll {r : OperationRow} {now : Time} :
      KeyStep R Q k (some r) [] (some (polledRow now r))
  | cancelClaim {r : OperationRow} (hwanted : r.cancelRequested = true ∧ r.cancelClaimed = false ∧
        r.remoteTaskId ≠ none ∧ r.Active) :
      KeyStep R Q k (some r) [] (some (cancelClaimedRow r))
  | purge {r : OperationRow} {now : Time} (hread : R now now) :
      KeyStep R Q k (some r) [] (some (purgedRow now r))

/-- The life of operation `k`: from no row at all, by the steps it took. -/
def Life (R : Time → Time → Prop) (Q : OperationRow → Edit → Prop) (k : Key)
    (snapshots : List Snapshot) (o : Option OperationRow) : Prop :=
  Trace (KeyStep R Q k) none snapshots o

@[simp] theorem operationId_render (r : OperationRow) (t₁ t₂ : Time) :
    (render r t₁ t₂).operationId = r.operationId := rfl

@[simp] theorem key_polledRow (now : Time) (r : OperationRow) : (polledRow now r).key = r.key := rfl

@[simp] theorem key_cancelClaimedRow (r : OperationRow) : (cancelClaimedRow r).key = r.key := rfl

/-- `purge` changes the result of a row and nothing else. -/
theorem purgedRow_eq (t : Time) (r : OperationRow) :
    ∃ x, purgedRow t r = { r with result := x } := by
  unfold purgedRow
  split
  · split_ifs
    · exact ⟨none, rfl⟩
    · exact ⟨r.result, rfl⟩
  · exact ⟨r.result, rfl⟩

@[simp] theorem state_purgedRow (t : Time) (r : OperationRow) :
    (purgedRow t r).state = r.state := by
  obtain ⟨x, hx⟩ := purgedRow_eq t r
  rw [hx]

@[simp] theorem remoteTaskId_purgedRow (t : Time) (r : OperationRow) :
    (purgedRow t r).remoteTaskId = r.remoteTaskId := by
  obtain ⟨x, hx⟩ := purgedRow_eq t r
  rw [hx]

@[simp] theorem key_purgedRow (now : Time) (r : OperationRow) : (purgedRow now r).key = r.key := by
  obtain ⟨x, hx⟩ := purgedRow_eq now r
  rw [hx]
  rfl

section Moves

variable {R : Time → Time → Prop} {P : Ledger → OperationRow → Edit → Prop}
  {Q : OperationRow → Edit → Prop} {L L' : Ledger} {ks : List Key}

theorem key_of_operation? {k : Key} {r : OperationRow} (h : L.operation? k = some r) : r.key = k :=
  Table.key_of_lookup h

@[simp] theorem operation?_appendEvent (k : Key) (d : Device) (n : ℕ) (s : Snapshot) (t : Time) :
    (L.appendEvent d n s t).operation? k = L.operation? k := rfl

theorem published_appendEvent (k : Key) (d : Device) (n : ℕ) (s : Snapshot) (t : Time) :
    (L.appendEvent d n s t).published k =
      L.published k ++ if (d, s.operationId) = k then [s] else [] := by
  simp only [Ledger.published, Ledger.appendEvent, List.filter_append, List.map_append]
  congr 1
  by_cases hk : (d, s.operationId) = k
  · simp [EventRow.key, hk]
  · simp [EventRow.key, hk]

/-- Operation `k` after an update of operation `k'` that keeps the key. -/
theorem operation?_updateOperation {f : OperationRow → OperationRow} (hf : ∀ r, (f r).key = r.key)
    (k k' : Key) : (L.updateOperation k' f).operation? k =
      if k = k' then (L.operation? k).map f else L.operation? k := by
  rw [Ledger.operation?, Ledger.updateOperation, Table.lookup_modify hf]
  rfl

/-- A quiet update of one row is a step of that operation and of no other. -/
theorem keyStep_updateOperation {f : OperationRow → OperationRow} (hf : ∀ r, (f r).key = r.key)
    {k k' : Key} (hstep : ∀ r, L.operation? k' = some r → KeyStep R Q k' (some r) [] (some (f r))) :
    KeyStep R Q k (L.operation? k) [] ((L.updateOperation k' f).operation? k) := by
  rw [operation?_updateOperation hf]
  split_ifs with hk
  · subst hk
    cases hr : L.operation? k with
    | none => exact KeyStep.same
    | some r => exact hstep r hr
  · exact KeyStep.same

/-- **What a move does to one operation.** It is a step of the operation's life, and the
snapshots the step publishes are those appended to its history: one if the move shows its key,
none otherwise. -/
theorem Move.keyStep (hQ : ∀ L r e, P L r e → Q r e) (h : Move R P L ks L') (k : Key) :
    ∃ ss, KeyStep R Q k (L.operation? k) ss (L'.operation? k) ∧
      L'.published k = L.published k ++ ss ∧ ss.length = ks.count k := by
  cases h with
  | device | receipt | dropArtifacts | putArtifact | purgeEvents =>
    exact ⟨[], KeyStep.same, by simp [Ledger.published, Ledger.dropEvents], rfl⟩
  | @insert d request digest now payloadExpires expires t₁ t₂ dev hnew hdev hread =>
    have hpub := published_appendEvent (L := insertOperation L (acceptedRow d request digest now)
      request payloadExpires) k d (dev.sequence + 1)
        (render (acceptedRow d request digest now) t₁ t₂)
      expires
    rw [hpub, operation?_appendEvent]
    change ∃ ss, KeyStep R Q k _ ss (Table.lookup OperationRow.key
      (L.operations ++ [acceptedRow d request digest now]) k) ∧ _
    by_cases hk : (d, request.operationId) = k
    · subst hk
      have hself := Table.lookup_insert_self (c := OperationRow.key)
        (r := acceptedRow d request digest now) hnew
      refine ⟨[render (acceptedRow d request digest now) t₁ t₂], ?_, ?_, by simp⟩
      · rw [hnew]
        exact hself ▸ KeyStep.insert rfl hread
      · rw [if_pos (by rfl)]
        rfl
    · refine ⟨[], ?_, ?_, by simp [hk]⟩
      · rw [Table.lookup_insert_of_ne (r := acceptedRow d request digest now) hk]
        exact KeyStep.same
      · rw [if_neg (by simpa [acceptedRow] using hk)]
        rfl
  | @edit k' e r dev expires t₁ t₂ hrow hdev hallowed hknown hread =>
    have hkey := key_of_operation? hrow
    have hid : (k'.1, (render (e.row r) t₁ t₂).operationId) = k' := by
      have := e.key_row r
      rw [hkey] at this
      rw [operationId_render, ← this]
      rfl
    rw [published_appendEvent, operation?_appendEvent, Edit.operation?_ledger, hid]
    by_cases hk : k = k'
    · subst hk
      refine ⟨[render (e.row r) t₁ t₂], ?_, ?_, by simp⟩
      · rw [if_pos rfl, hrow]
        exact KeyStep.edit hkey hallowed (hQ L r e hknown) hread
      · rw [if_pos rfl]
        simp [Ledger.published]
    · refine ⟨[], ?_, ?_, by simp [Ne.symm hk]⟩
      · rw [if_neg hk]
        exact KeyStep.same
      · rw [if_neg (Ne.symm hk)]
        simp [Ledger.published]
  | poll =>
    exact ⟨[], keyStep_updateOperation (key_polledRow _) fun _ _ => KeyStep.poll,
      by simp [Ledger.published, Ledger.updateOperation], rfl⟩
  | cancelClaim hrow hwanted =>
    refine ⟨[], keyStep_updateOperation key_cancelClaimedRow fun r hr => ?_,
      by simp [Ledger.published, Ledger.updateOperation], rfl⟩
    obtain rfl := Option.some.inj (hrow.symm.trans hr)
    exact KeyStep.cancelClaim hwanted
  | @purge now hread =>
    refine ⟨[], ?_, by simp [Ledger.published], rfl⟩
    have hmap := Table.lookup_map (c := OperationRow.key) (key_purgedRow now) L.operations k
    change KeyStep R Q k (L.operation? k) [] (Table.lookup OperationRow.key
      (L.operations.map (purgedRow now)) k)
    rw [hmap]
    cases hr : L.operation? k with
    | none =>
      rw [Ledger.operation?] at hr
      rw [hr]
      exact KeyStep.same
    | some r =>
      rw [Ledger.operation?] at hr
      rw [hr]
      exact KeyStep.purge hread

/-- Over a sequence of moves, the row of an operation takes a sequence of its own steps. -/
theorem keyTrace_of_trace (hQ : ∀ L r e, P L r e → Q r e) (h : Trace (Move R P) L ks L') (k : Key) :
    ∃ ss, Trace (KeyStep R Q k) (L.operation? k) ss (L'.operation? k) ∧
      L'.published k = L.published k ++ ss ∧ ss.length = ks.count k := by
  induction h with
  | nil => exact ⟨[], Trace.nil, by simp, rfl⟩
  | snoc _ hmove ih =>
    obtain ⟨ss, htrace, hpub, hlen⟩ := ih
    obtain ⟨ss', hstep, hpub', hlen'⟩ := hmove.keyStep hQ k
    exact ⟨ss ++ ss', htrace.snoc hstep, by rw [hpub', hpub, List.append_assoc],
      by rw [List.length_append, List.count_append, hlen, hlen']⟩

/-- **The row of an operation is reached by a life**, and the snapshots of that life are those
published for the operation. -/
theorem life_of_trace (hQ : ∀ L r e, P L r e → Q r e) (h : Trace (Move R P) Ledger.empty ks L)
    (k : Key) : Life R Q k (L.published k) (L.operation? k) := by
  obtain ⟨ss, htrace, hpub, -⟩ := keyTrace_of_trace hQ h k
  rw [hpub]
  exact htrace

end Moves

end HermesGateway.Broker
