import HermesGateway.Snapshot
import HermesGateway.Library.Table
import HermesGateway.Library.Transaction

/-!
# The broker's ledger

The tables of the PostgreSQL schema, and the reads and writes the store's transactions are made
of. A table is the list of its rows in insertion order. Encrypted columns hold their plaintext:
every value is decrypted with the key it was encrypted with, and what `json.loads` returns for
`canonical(value)` is the value again.

A transaction runs in a `Session`: the ledger together with the readings `utcnow()` is going to
return and the values `uuid4()` is going to return. Nothing is assumed about either; a result
that needs a clock that does not go back says so.

`Ledger.history` is a ghost column: every event row ever inserted, which no transaction reads.

## Main definitions

* `OperationRow`, `EventRow`, `Ledger` — the tables
* `Session`, `utcnow`, `uuid4` — what a transaction runs in
* `render` — the snapshot of a row, as a function of the two clock readings `_snapshot` takes
-/

namespace HermesGateway.Broker

/-! ### Settings -/

/-- The broker settings the store and the dispatcher read, with the bounds their fields carry. -/
structure BrokerSettings where
  payloadTtlSeconds : ℕ
  artifactTtlSeconds : ℕ
  eventTtlSeconds : ℕ
  resultTtlSeconds : ℕ
  maxArtifactBytes : ℕ
  deviceQuotaBytes : ℕ
  maxPendingPerDevice : ℕ
  maxResultBytes : ℕ
  maxConcurrentStreams : ℕ
  payloadTtl_pos : 1 ≤ payloadTtlSeconds
  artifactTtl_pos : 1 ≤ artifactTtlSeconds
  eventTtl_pos : 1 ≤ eventTtlSeconds
  resultTtl_pos : 1 ≤ resultTtlSeconds
  maxArtifactBytes_pos : 1 ≤ maxArtifactBytes
  maxArtifactBytes_le : maxArtifactBytes ≤ artifactByteLimit
  maxPendingPerDevice_pos : 1 ≤ maxPendingPerDevice
  maxConcurrentStreams_pos : 1 ≤ maxConcurrentStreams

/-- The defaults of the settings. -/
def BrokerSettings.default : BrokerSettings where
  payloadTtlSeconds := 86400
  artifactTtlSeconds := 86400
  eventTtlSeconds := 604800
  resultTtlSeconds := 604800
  maxArtifactBytes := 10485760
  deviceQuotaBytes := 104857600
  maxPendingPerDevice := 100
  maxResultBytes := 1048576
  maxConcurrentStreams := 4
  payloadTtl_pos := by decide
  artifactTtl_pos := by decide
  eventTtl_pos := by decide
  resultTtl_pos := by decide
  maxArtifactBytes_pos := by decide
  maxArtifactBytes_le := by decide
  maxPendingPerDevice_pos := by decide
  maxConcurrentStreams_pos := by decide

/-! ### Requests -/

/-- A validated `OperationRequest`. -/
structure OperationRequest where
  operationId : Uuid
  flowId : Uuid
  prompt : String
  artifactIds : List Uuid
deriving DecidableEq

/-- `model_dump(mode="json")`. -/
def OperationRequest.toJson (r : OperationRequest) : Json :=
  .obj [("operation_id", .str r.operationId.text), ("flow_id", .str r.flowId.text),
    ("prompt", .str r.prompt), ("artifact_ids", .arr (r.artifactIds.map fun a => .str a.text))]

/-- `canonical(value)` as bytes. -/
def canonicalBytes (v : Json) : ByteArray := (String.ofList v.canonical).toUTF8

/-- The number of bytes of a text in UTF-8. -/
def utf8Length (cs : List Char) : ℕ := (cs.map fun c => c.utf8Size).sum

/-! ### Tables -/

/-- The primary key of an operation: its device and its identifier. -/
abbrev Key := Device × Uuid

/-- A row of `broker_v06_devices`. -/
structure DeviceRow where
  deviceId : Device
  sequence : ℕ
  floor : ℕ
deriving DecidableEq

/-- A row of `broker_v06_operations`. -/
structure OperationRow where
  deviceId : Device
  operationId : Uuid
  flowId : Uuid
  digest : String
  state : OpState
  resultId : Option Uuid
  result : Option ResultBody
  resultExpiresAt : Option Time
  errorCode : Option ErrorCode
  errorMessage : Option String
  remoteTaskId : Option String
  polledAt : Option Time
  createdAt : Time
  updatedAt : Time
  cancelClaimed : Bool
  cancelRequested : Bool
deriving DecidableEq

/-- The primary key of the row. -/
def OperationRow.key (r : OperationRow) : Key := (r.deviceId, r.operationId)

/-- `state IN ('running','outcome_unknown')`. -/
def OperationRow.Active (r : OperationRow) : Prop :=
  r.state = .running ∨ r.state = .outcomeUnknown

instance (r : OperationRow) : Decidable r.Active := inferInstanceAs (Decidable (_ ∨ _))

/-- A row of `broker_v06_payloads`. -/
structure PayloadRow where
  deviceId : Device
  operationId : Uuid
  request : OperationRequest
  expiresAt : Time
deriving DecidableEq

/-- The primary key of the row. -/
def PayloadRow.key (r : PayloadRow) : Key := (r.deviceId, r.operationId)

/-- The states of an outbox row. -/
inductive OutboxState
  | pending
  | claimed
  | done
deriving DecidableEq, Repr

/-- A row of `broker_v06_outbox`. -/
structure OutboxRow where
  deviceId : Device
  operationId : Uuid
  state : OutboxState
  claimedAt : Option Time
deriving DecidableEq

/-- The primary key of the row. -/
def OutboxRow.key (r : OutboxRow) : Key := (r.deviceId, r.operationId)

/-- A row of `broker_v06_events`. -/
structure EventRow where
  deviceId : Device
  sequence : ℕ
  snapshot : Snapshot
  expiresAt : Time
deriving DecidableEq

/-- The operation an event is about. -/
def EventRow.key (e : EventRow) : Key := (e.deviceId, e.snapshot.operationId)

/-- A row of `broker_v06_artifacts`. -/
structure ArtifactRow where
  deviceId : Device
  artifactId : Uuid
  sha256 : String
  size : Fin (artifactByteLimit + 1)
  contentType : String
  content : ByteArray
  expiresAt : Time
deriving DecidableEq

/-- The primary key of the row. -/
def ArtifactRow.key (r : ArtifactRow) : Key := (r.deviceId, r.artifactId)

/-- `_descriptor(row)`. -/
def ArtifactRow.descriptor (r : ArtifactRow) : Descriptor :=
  ⟨r.artifactId, r.sha256, r.size, r.contentType, r.expiresAt⟩

/-- The statuses a receipt may have. -/
inductive ReceiptStatus
  | stored
  | delivered
  | deliveryOutcomeUnknown
deriving DecidableEq, Repr

/-- A row of `broker_v06_receipts`. -/
structure ReceiptRow where
  deviceId : Device
  operationId : Uuid
  resultId : Uuid
  status : ReceiptStatus
  createdAt : Time
deriving DecidableEq

/-- The primary key of the row. -/
def ReceiptRow.key (r : ReceiptRow) : Key × Uuid × ReceiptStatus :=
  ((r.deviceId, r.operationId), r.resultId, r.status)

/-- The whole ledger, and the ghost history of its events. -/
structure Ledger where
  devices : List DeviceRow
  operations : List OperationRow
  payloads : List PayloadRow
  outbox : List OutboxRow
  events : List EventRow
  artifacts : List ArtifactRow
  receipts : List ReceiptRow
  history : List EventRow
deriving DecidableEq

/-- The tables `CREATE TABLE` leaves behind. -/
def Ledger.empty : Ledger := ⟨[], [], [], [], [], [], [], []⟩

/-- The row of an operation. -/
def Ledger.operation? (L : Ledger) (k : Key) : Option OperationRow :=
  Table.lookup OperationRow.key L.operations k

/-- The row of a device. -/
def Ledger.device? (L : Ledger) (d : Device) : Option DeviceRow :=
  Table.lookup DeviceRow.deviceId L.devices d

/-- `UPDATE broker_v06_operations SET … WHERE device_id=… AND operation_id=…`. -/
def Ledger.updateOperation (L : Ledger) (k : Key) (f : OperationRow → OperationRow) : Ledger :=
  { L with operations := Table.modify OperationRow.key L.operations k f }

/-- `UPDATE broker_v06_outbox SET … WHERE device_id=… AND operation_id=…`. -/
def Ledger.updateOutbox (L : Ledger) (k : Key) (f : OutboxRow → OutboxRow) : Ledger :=
  { L with outbox := Table.modify OutboxRow.key L.outbox k f }

/-- `DELETE FROM broker_v06_payloads WHERE device_id=… AND operation_id=…`. -/
def Ledger.deletePayload (L : Ledger) (k : Key) : Ledger :=
  { L with payloads := L.payloads.filter fun p => p.key ≠ k }

/-- `UPDATE … SET sequence=sequence+1` for a device, and the event row with the new number. -/
def Ledger.appendEvent (L : Ledger) (d : Device) (sequence : ℕ) (snapshot : Snapshot)
    (expiresAt : Time) : Ledger :=
  { L with
    devices := Table.modify DeviceRow.deviceId L.devices d fun r => { r with sequence := sequence }
    events := L.events ++ [⟨d, sequence, snapshot, expiresAt⟩]
    history := L.history ++ [⟨d, sequence, snapshot, expiresAt⟩] }

/-! ### Failures -/

/-- `BrokerError`. The only details an error of the store carries are `resume_after`. -/
structure BrokerError where
  code : ErrorCode
  message : String
  status : ℕ
  resumeAfter : Option ℕ
deriving DecidableEq

/-- What ends a transaction: a refusal, a database failure, or any other exception. -/
inductive Failure
  | broker (error : BrokerError)
  | database
  | other
deriving DecidableEq

/-- A refusal without details. -/
def brokerError (code : ErrorCode) (message : String) (status : ℕ) : Failure :=
  .broker ⟨code, message, status, none⟩

/-! ### Sessions -/

/-- What a transaction runs in: the ledger, the coming clock readings and the coming UUIDs. -/
structure Session where
  ledger : Ledger
  clock : ℕ → Time
  uuids : ℕ → Uuid

/-- A transaction of the store. -/
abbrev StoreTx := Tx Session Failure

/-- `utcnow()`. -/
def utcnow : StoreTx Time :=
  modifyGet fun s => (s.clock 0, { s with clock := fun n => s.clock (n + 1) })

/-- `uuid.uuid4()`. -/
def uuid4 : StoreTx Uuid :=
  modifyGet fun s => (s.uuids 0, { s with uuids := fun n => s.uuids (n + 1) })

/-- What the ledger holds. -/
def readLedger : StoreTx Ledger := modifyGet fun s => (s.ledger, s)

/-- Change the ledger. -/
def writeLedger (f : Ledger → Ledger) : StoreTx Unit :=
  modify fun s => { s with ledger := f s.ledger }

/-! ### Snapshots -/

/-- The `error` member before retention is looked at. -/
def OperationRow.baseError (r : OperationRow) : Option SnapshotError :=
  r.errorCode.map fun code => ⟨code, r.errorMessage, none⟩

/-- The `error` member once the result has expired. -/
def expiredError : SnapshotError :=
  ⟨.resultExpired, some "result retention period has expired", none⟩

/-- The `result` and `error` members while the result is retained. -/
def heldResult (r : OperationRow) (body : ResultBody) :
    Option ResultBody × Option SnapshotError :=
  match r.baseError, body with
  | some error, .errorDetails details => (none, some { error with details := some details })
  | error, body => (some body, error)

/-- The `result` and `error` members of a snapshot: `t₁` is the reading the retained result is
compared with, `t₂` the one the expiry branch takes. A result without an expiry does not occur
and is compared with nothing; `snapshot` fails on it. -/
def renderResult (r : OperationRow) (t₁ t₂ : Time) :
    Option ResultBody × Option SnapshotError :=
  match r.result, r.resultExpiresAt with
  | some body, some expires =>
    if t₁ < expires then heldResult r body
    else if expires ≤ t₂ then (none, some expiredError)
    else (none, r.baseError)
  | none, some expires =>
    if expires ≤ t₂ then (none, some expiredError) else (none, r.baseError)
  | _, none => (none, r.baseError)

/-- `_snapshot(row)` at the clock readings `t₁` and `t₂`. -/
def render (r : OperationRow) (t₁ t₂ : Time) : Snapshot where
  operationId := r.operationId
  flowId := r.flowId
  state := r.state
  resultId := r.resultId
  result := (renderResult r t₁ t₂).1
  error := (renderResult r t₁ t₂).2
  remoteTaskId := r.remoteTaskId
  createdAt := r.createdAt
  updatedAt := r.updatedAt

/-- `_snapshot(row)`. Both readings are drawn from the clock; a branch that does not look at one
leaves it unused. Comparing a missing expiry with an instant is a `TypeError`. -/
def snapshot (r : OperationRow) : StoreTx Snapshot := do
  Tx.refuse (r.result.isSome ∧ r.resultExpiresAt = none) .other
  let t₁ ← utcnow
  let t₂ ← utcnow
  return render r t₁ t₂

end HermesGateway.Broker
