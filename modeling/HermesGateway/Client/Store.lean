import HermesGateway.Snapshot
import HermesGateway.Library.Lines
import HermesGateway.Library.Number
import HermesGateway.Library.Table
import HermesGateway.Library.Transaction

/-!
# The client's store

`ClientStore`, method by method, over the tables of its SQLite schema. A method runs between two
awaits of the one event loop, so each of them is one transaction. A snapshot is kept as the JSON
value its stored text denotes, with the members in key order; payloads are kept in the clear.

Two values are compared as Python compares them: `dict`s whatever the order of their members, and
numbers and truth values by what they stand for.

## Main definitions

* `ClientRow`, `Tables` — the tables
* `ClientStore.create`, `acceptSnapshot`, `view`, `claimDelivery` and the others — the methods
* `ClientStore.startup` — the repair `__init__` makes
-/

namespace HermesGateway.Client

/-! ### Tables -/

/-- The settings the store reads; durations in microseconds. -/
structure ClientSettings where
  retention : ℕ
  payloadTtl : ℕ
  maxPending : ℕ
  retention_pos : 0 < retention
  payloadTtl_pos : 0 < payloadTtl
  maxPending_pos : 0 < maxPending

/-- The defaults of the settings. -/
def ClientSettings.default : ClientSettings where
  retention := seconds (7 * 86400)
  payloadTtl := seconds 86400
  maxPending := 256
  retention_pos := by decide
  payloadTtl_pos := by decide
  maxPending_pos := by decide

/-- The identity of a native tool call. -/
structure NativeOrigin where
  threadId : Uuid
  turnId : Uuid
  callId : String
deriving DecidableEq

/-- The values of `submission_state`. -/
inductive SubmissionState
  | pending
  | accepted
  | rejected
  | outcomeUnknown
  | payloadKeyUnavailable
deriving DecidableEq, Repr

/-- The values of `delivery_state`. -/
inductive DeliveryState
  | inlinePending
  | ready
  | enqueueing
  | queued
  | unsupported
  | deliveryOutcomeUnknown
  | inlineReturned
deriving DecidableEq, Repr

/-- The values of `cancel_state`. -/
inductive CancelState
  | sending
  | requested
  | outcomeUnknown
deriving DecidableEq, Repr

/-- The command a payload holds, with the artifact identifiers as they were given. -/
structure Payload where
  operationId : Uuid
  flowId : Uuid
  prompt : String
  artifactIds : List String
deriving DecidableEq

/-- A row of `client_operations`. -/
structure ClientRow where
  operationId : Uuid
  flowId : Uuid
  origin : NativeOrigin
  digest : String
  payload : Option Payload
  payloadExpires : Time
  snapshot : Option Json
  submissionState : SubmissionState
  deliveryState : DeliveryState
  deliveryId : Option Uuid
  queueId : Option String
  inlineDeadline : Time
  cancelState : Option CancelState
  conflict : Bool
  created : Time
  updated : Time
  expires : Time
  expired : Bool
deriving DecidableEq

/-- The statuses of a receipt. -/
inductive ReceiptStatus
  | stored
  | delivered
  | deliveryOutcomeUnknown
deriving DecidableEq, Repr

/-- A row of `client_receipts`. -/
structure ReceiptRow where
  operationId : Uuid
  resultId : String
  status : ReceiptStatus
  sent : Bool
deriving DecidableEq

/-- The primary key of a receipt. -/
def ReceiptRow.key (r : ReceiptRow) : Uuid × String × ReceiptStatus :=
  (r.operationId, r.resultId, r.status)

/-- The tables of one state directory. -/
structure Tables where
  flows : List (Uuid × Uuid)
  operations : List ClientRow
  cursor : ℕ
  receipts : List ReceiptRow
deriving DecidableEq

/-- The tables `__init__` creates. -/
def Tables.empty : Tables := ⟨[], [], 0, []⟩

/-- The row of an operation. -/
def Tables.operation? (T : Tables) (op : Uuid) : Option ClientRow :=
  Table.lookup ClientRow.operationId T.operations op

/-- `UPDATE client_operations SET … WHERE operation_id=…`. -/
def Tables.update (T : Tables) (op : Uuid) (f : ClientRow → ClientRow) : Tables :=
  { T with operations := Table.modify ClientRow.operationId T.operations op f }

/-- `UPDATE client_cursor SET seq=max(seq,…)`. -/
def Tables.raise (T : Tables) (seq : ℕ) : Tables := { T with cursor := max T.cursor seq }

/-- `_receipt`: `INSERT OR IGNORE`. -/
def Tables.receipt (T : Tables) (op : Uuid) (resultId : String) (status : ReceiptStatus) : Tables :=
  if ∃ r ∈ T.receipts, r.key = (op, resultId, status) then T
  else { T with receipts := T.receipts ++ [⟨op, resultId, status, false⟩] }

/-! ### Sessions -/

/-- What ends a method: `ValueError`, `KeyError`, `TypeError`, `OverflowError`, `RecursionError`, or
an error of the database. -/
inductive Failure
  | value (message : String)
  | key
  | type
  | overflow
  | recursion
  | integrity
deriving DecidableEq

/-- What a method runs in: the tables, the coming clock readings and the coming UUIDs. -/
structure Session where
  tables : Tables
  clock : ℕ → Time
  uuids : ℕ → Uuid

/-- A method of the store. -/
abbrev ClientTx := Tx Session Failure

/-- `time.time()`. -/
def time : ClientTx Time :=
  modifyGet fun s => (s.clock 0, { s with clock := fun n => s.clock (n + 1) })

/-- `uuid4()`. -/
def uuid4 : ClientTx Uuid :=
  modifyGet fun s => (s.uuids 0, { s with uuids := fun n => s.uuids (n + 1) })

/-- What the tables hold. -/
def readTables : ClientTx Tables := modifyGet fun s => (s.tables, s)

/-- Change the tables. -/
def writeTables (f : Tables → Tables) : ClientTx Unit :=
  modify fun s => { s with tables := f s.tables }

/-! ### Reading snapshots -/

/-- The member, or `None`. -/
def member (key : String) (v : Json) : Json := (v.get? key).getD .null

/-- `a == b`. -/
def same (a b : Json) : Bool := a.equals b

/-- The state a snapshot names, if it is one of `STATES`. -/
def stateOf (v : Json) : Option OpState := (member "state" v).str?.bind OpState.ofText?

/-- `bool(value)`. -/
def truthy : Json → Bool
  | .null => false
  | .bool b => b
  | .int n => n ≠ 0
  | .float lexeme => Json.Number.ofLexeme lexeme ≠ .finite 0
  | .str s => s ≠ ""
  | .arr xs => !xs.isEmpty
  | .obj kvs => !kvs.isEmpty

/-- `native_uuid(value, name)`. -/
def native (v : Json) (name : String) : ClientTx Uuid :=
  match v.str? with
  | none => throw (.value ("missing " ++ name ++ " in native MCP metadata"))
  | some s =>
    match nativeUuid s with
    | none => throw (.value ("invalid " ++ name ++ " in native MCP metadata"))
    | some u => return u

/-! ### Methods -/

/-- The store: its settings, and the digest function it is linked with. -/
structure ClientStore where
  settings : ClientSettings
  /-- `hashlib.sha256(content).hexdigest()` -/
  sha256 : ByteArray → String

namespace ClientStore

variable (store : ClientStore)

/-- `row`. -/
def row (op : Uuid) (origin : Option NativeOrigin) : ClientTx ClientRow := do
  match (← readTables).operation? op with
  | none => throw .key
  | some r =>
    Tx.refuse (∃ o, origin = some o ∧ r.origin.threadId ≠ o.threadId) .key
    return r

/-- Whether an operation counts against `max_pending`. -/
def Outstanding (r : ClientRow) : Prop :=
  (r.submissionState = .pending ∨ r.submissionState = .accepted) ∧ r.expired = false ∧
    ∀ v, r.snapshot = some v → ∀ state, stateOf v = some state → ¬ state.Final

instance (r : ClientRow) : Decidable (Outstanding r) :=
  match h : r.snapshot with
  | none => decidable_of_iff ((r.submissionState = .pending ∨ r.submissionState = .accepted) ∧
      r.expired = false) (by simp [Outstanding, h])
  | some v =>
    match h' : stateOf v with
    | none => decidable_of_iff ((r.submissionState = .pending ∨ r.submissionState = .accepted) ∧
        r.expired = false) (by simp [Outstanding, h, h'])
    | some state => decidable_of_iff ((r.submissionState = .pending ∨
        r.submissionState = .accepted) ∧ r.expired = false ∧ ¬ state.Final)
        (by simp [Outstanding, h, h'])

/-- The JSON the digest of a command is taken of. -/
def commandJson (prompt : String) (artifactIds : List String) : Json :=
  .obj [("prompt", .str prompt), ("artifact_ids", .arr (artifactIds.map Json.str))]

/-- The row `create` inserts. -/
def createdRow (op flow : Uuid) (origin : NativeOrigin) (digest prompt : String)
    (artifactIds : List String) (wait : ℕ) (now : Time) : ClientRow where
  operationId := op
  flowId := flow
  origin := origin
  digest := digest
  payload := some ⟨op, flow, prompt, artifactIds⟩
  payloadExpires := now + store.settings.payloadTtl
  snapshot := none
  submissionState := .pending
  deliveryState := .inlinePending
  deliveryId := none
  queueId := none
  inlineDeadline := now + wait
  cancelState := none
  conflict := false
  created := now
  updated := now
  expires := now + store.settings.retention
  expired := false

/-- The flow of a thread, which is inserted when it has none. -/
def flowOf (thread : Uuid) : ClientTx Uuid := do
  let fresh ← uuid4
  let T ← readTables
  match T.flows.lookup thread with
  | some flow => return flow
  | none =>
    Tx.refuse (fresh ∈ T.flows.map Prod.snd) .type
    writeTables fun T => { T with flows := T.flows ++ [(thread, fresh)] }
    return fresh

/-- `create`. -/
def create (origin : NativeOrigin) (prompt : String) (artifactIds : List String) (wait : ℕ) :
    ClientTx Uuid := do
  Tx.refuse (prompt.toList.all isSpace ∨ 262144 < prompt.utf8ByteSize)
    (.value "prompt must contain 1..262144 UTF-8 bytes")
  Tx.refuse (32 < artifactIds.length) (.value "at most 32 artifacts are permitted")
  artifactIds.forM fun a => do
    let _ ← native (.str a) "artifact_id"
  let digest := store.sha256 (String.ofList (commandJson prompt artifactIds).canonical).toUTF8
  let T ← readTables
  match T.operations.find? fun r => r.origin = origin with
  | some existing =>
    Tx.refuse (existing.digest ≠ digest)
      (.value "native tool call identity was reused with a different command")
    return existing.operationId
  | none =>
    Tx.refuse (store.settings.maxPending ≤ T.operations.countP fun r => decide (Outstanding r))
      (.value "client pending operation limit reached")
    let now ← time
    let op ← uuid4
    let flow ← flowOf origin.threadId
    Tx.refuse ((T.operation? op).isSome) .integrity
    writeTables fun T => { T with operations := T.operations ++
      [store.createdRow op flow origin digest prompt artifactIds wait now] }
    return op

/-- `payload`. -/
def payload (op : Uuid) : ClientTx (Option Payload) := do
  let r ← row op none
  match r.payload with
  | none => return none
  | some p =>
    let now ← time
    if r.payloadExpires ≤ now then return none else return some p

/-- `ids`. -/
def ids (pending : Bool) : ClientTx (List Uuid) := do
  let T ← readTables
  return (T.operations.filter fun r => r.expired = false ∧
    (pending = true → r.submissionState = .pending)).map ClientRow.operationId

/-- `advance`. -/
def advance (seq : ℤ) : ClientTx Unit := do
  Tx.refuse (seq < 0) (.value "invalid event cursor")
  writeTables fun T => T.raise seq.toNat

/-- The members a snapshot must have besides its identity and state. -/
def required : List String :=
  ["result_id", "result", "error", "remote_task_id", "created_at", "updated_at"]

/-- A result identifier that is not `None` is a UUID. -/
def checkResultId (v : Json) : ClientTx Unit :=
  if member "result_id" v = .null then pure ()
  else do
    let _ ← native (member "result_id" v) "result_id"

/-- The checks `accept_snapshot` makes before it opens its transaction. -/
def checkSnapshot (v : Json) (seq : Option ℤ) : ClientTx (Uuid × Uuid) := do
  let op ← native (member "operation_id" v) "operation_id"
  let flow ← native (member "flow_id" v) "flow_id"
  match stateOf v with
  | none =>
    match member "state" v with
    | .arr _ | .obj _ => throw .type
    | _ => throw (.value "invalid broker operation state")
  | some state =>
    Tx.refuse (∃ key ∈ required, v.get? key = none) (.value "incomplete broker snapshot")
    checkResultId v
    Tx.refuse (state.Terminal ∧ member "result_id" v = .null)
      (.value "terminal broker snapshot requires stable result_id")
    Tx.refuse (∃ n, seq = some n ∧ n < 0) (.value "invalid event cursor")
    return (op, flow)

/-- Whether the stored snapshot is terminal. -/
def Stale (previous : Option Json) : Prop :=
  ∃ p, previous = some p ∧ ∃ state, stateOf p = some state ∧ state.Terminal

/-- `exact_resolution`: an unknown outcome is resolved under the same handle and result
identifier. -/
def ExactResolution (previous : Option Json) (v : Json) : Prop :=
  ∃ p, previous = some p ∧ stateOf p = some .outcomeUnknown ∧
    (∃ state, stateOf v = some state ∧ state.Final) ∧
    truthy (member "remote_task_id" p) = true ∧
    same (member "remote_task_id" p) (member "remote_task_id" v) = true ∧
    same (member "result_id" p) (member "result_id" v) = true

/-- Whether one of the compared members differs. -/
def Differs (previous : Option Json) (v : Json) : Prop :=
  ∃ p, previous = some p ∧ ∃ key ∈ ["state", "result_id", "result", "error"],
    same (member key p) (member key v) = false

instance (previous : Option Json) : Decidable (Stale previous) :=
  match previous with
  | none => isFalse (by simp [Stale])
  | some p =>
    match h : stateOf p with
    | none => isFalse (by simp [Stale, h])
    | some state => decidable_of_iff state.Terminal (by simp [Stale, h])

instance (previous : Option Json) (v : Json) : Decidable (ExactResolution previous v) :=
  match previous with
  | none => isFalse (by simp [ExactResolution])
  | some p =>
    match h : stateOf v with
    | none => isFalse (by simp [ExactResolution, h])
    | some state => decidable_of_iff (stateOf p = some .outcomeUnknown ∧ state.Final ∧
        truthy (member "remote_task_id" p) = true ∧
        same (member "remote_task_id" p) (member "remote_task_id" v) = true ∧
        same (member "result_id" p) (member "result_id" v) = true)
        (by simp [ExactResolution, h])

instance (previous : Option Json) (v : Json) : Decidable (Differs previous v) :=
  match previous with
  | none => isFalse (by simp [Differs])
  | some p => decidable_of_iff (∃ key ∈ ["state", "result_id", "result", "error"],
      same (member key p) (member key v) = false) (by simp [Differs])

/-- Whether the snapshot names a terminal state. -/
def TerminalSnapshot (v : Json) : Prop := ∃ state, stateOf v = some state ∧ state.Terminal

instance (v : Json) : Decidable (TerminalSnapshot v) :=
  match h : stateOf v with
  | none => isFalse (by simp [TerminalSnapshot, h])
  | some state => decidable_of_iff state.Terminal (by simp [TerminalSnapshot, h])

/-- The row `accept_snapshot` leaves when it stores the snapshot. -/
def storedRow (r : ClientRow) (v : Json) (updated expires : Time) : ClientRow :=
  { r with
    snapshot := some v.sortKeys
    submissionState := .accepted
    payload := none
    updated := updated
    expires := expires }

/-- Whether `accept_snapshot` reports a conflict. -/
def Conflicts (previous : Option Json) (v : Json) : Prop :=
  Stale previous ∧ ¬ ExactResolution previous v ∧ TerminalSnapshot v ∧ Differs previous v

instance (previous : Option Json) (v : Json) : Decidable (Conflicts previous v) :=
  inferInstanceAs (Decidable (_ ∧ _))

/-- Whether `accept_snapshot` stores a snapshot it reports no conflict for. -/
def Replaces (previous : Option Json) (v : Json) : Prop :=
  ¬ Stale previous ∨ ExactResolution previous v

instance (previous : Option Json) (v : Json) : Decidable (Replaces previous v) :=
  inferInstanceAs (Decidable (_ ∨ _))

/-- The receipt of a stored result. -/
def storedReceipt (op : Uuid) (v : Json) (T : Tables) : Tables :=
  match member "result_id" v with
  | .str id => if id ≠ "" then T.receipt op id .stored else T
  | _ => T

/-- The `UPDATE` that stores a snapshot, and its receipt. -/
def storeSnapshot (r : ClientRow) (v : Json) : ClientTx Unit := do
  let updated ← time
  let now ← time
  writeTables fun T => T.update r.operationId fun r =>
    storedRow r v updated (now + store.settings.retention)
  writeTables (storedReceipt r.operationId v)

/-- The part of `accept_snapshot` that looks at the row. -/
def mergeSnapshot (r : ClientRow) (v : Json) : ClientTx Unit :=
  if Conflicts r.snapshot v then
    writeTables fun T => T.update r.operationId fun r => { r with conflict := true }
  else if Replaces r.snapshot v then store.storeSnapshot r v
  else pure ()

/-- A snapshot is merged into a row that is known and unexpired. -/
def applySnapshot (flow : Uuid) (v : Json) : Option ClientRow → ClientTx Unit
  | none => pure ()
  | some r =>
    if r.expired = true then pure ()
    else do
      Tx.refuse (flow ≠ r.flowId) (.value "broker flow identity disagrees")
      store.mergeSnapshot r v

/-- The cursor moves with a snapshot that came with a sequence number. -/
def moveCursor : Option ℤ → ClientTx Unit
  | none => pure ()
  | some n => writeTables fun T => T.raise n.toNat

/-- `accept_snapshot`. -/
def acceptSnapshot (v : Json) (seq : Option ℤ) : ClientTx Unit := do
  let (op, flow) ← checkSnapshot v seq
  let T ← readTables
  store.applySnapshot flow v (T.operation? op)
  moveCursor seq

/-- The snapshot `view` shows of an operation that has none. -/
def placeholder (r : ClientRow) : Json :=
  .obj [("operation_id", .str r.operationId.text), ("flow_id", .str r.flowId.text),
    ("state", .str "outcome_unknown"), ("result_id", .null), ("result", .null), ("error", .null),
    ("remote_task_id", .null)]

/-- What `view` returns. -/
structure View where
  snapshot : Json
  submissionState : SubmissionState
  deliveryState : DeliveryState
  queueSubmissionId : Option String
  snapshotConflict : Bool
  resultExpired : Bool
  cancelState : Option CancelState
deriving DecidableEq

/-- The view of a row. -/
def viewOf (r : ClientRow) (snapshot : Json) : View :=
  ⟨snapshot, r.submissionState, r.deliveryState, r.queueId, r.conflict, r.expired, r.cancelState⟩

/-- Whether a snapshot is a definitive result that can be handed on. -/
def Deliverable (v : Json) : Prop :=
  truthy (member "result_id" v) = true ∧ ∃ state, stateOf v = some state ∧ state.Final

instance (v : Json) : Decidable (Deliverable v) :=
  match h : stateOf v with
  | none => isFalse (by simp [Deliverable, h])
  | some state => decidable_of_iff (truthy (member "result_id" v) = true ∧ state.Final)
      (by simp [Deliverable, h])

/-- `_receipt` of a snapshot's result identifier. The column takes no `None`, and such a row is
ignored. -/
def receiptOf (op : Uuid) (v : Json) (status : ReceiptStatus) (T : Tables) : Tables :=
  match (member "result_id" v).str? with
  | none => T
  | some id => T.receipt op id status

/-- `view`. -/
def view (op : Uuid) (origin : NativeOrigin) (consume : Bool) : ClientTx View := do
  let r ← row op (some origin)
  let snapshot := r.snapshot.getD (placeholder r)
  if consume = true ∧ Deliverable snapshot ∧ r.expired = false then
    if r.deliveryState ∈ [.inlinePending, .ready, .unsupported] then
      writeTables fun T => T.update op fun r => { r with deliveryState := .inlineReturned }
      writeTables (receiptOf op snapshot .delivered)
      return viewOf { r with deliveryState := .inlineReturned } snapshot
    else
      writeTables (receiptOf op snapshot .delivered)
      return viewOf r snapshot
  else return viewOf r snapshot

/-- `release_inline`. -/
def releaseInline (op : Uuid) : ClientTx Unit :=
  writeTables fun T => T.update op fun r =>
    if r.deliveryState = .inlinePending then { r with inlineDeadline := 0, deliveryState := .ready }
    else r

/-- `claim_delivery`. -/
def claimDelivery (op : Uuid) : ClientTx (Option (ClientRow × Json)) := do
  let r ← row op none
  if r.expired = true ∨ r.deliveryState ≠ .ready then return none
  else
    let now ← time
    match r.snapshot with
    | none => return none
    | some snapshot =>
      if now < r.inlineDeadline ∨ ¬ Deliverable snapshot then return none
      else
        let id ← uuid4
        writeTables fun T => T.update op fun r =>
          { r with deliveryState := .enqueueing, deliveryId := some id }
        return some ({ r with deliveryId := some id }, snapshot)

/-- The receipt `finish_delivery` writes of an unknown outcome. -/
def unknownReceipt (op : Uuid) : ClientTx Unit := do
  let r ← row op none
  match r.snapshot with
  | none => throw .type
  | some snapshot => writeTables (receiptOf op snapshot .deliveryOutcomeUnknown)

/-- `finish_delivery`. -/
def finishDelivery (op : Uuid) (status : DeliveryState) (queueId : Option String) :
    ClientTx Unit := do
  writeTables fun T => T.update op fun r => { r with deliveryState := status, queueId := queueId }
  if status = .deliveryOutcomeUnknown then unknownReceipt op else pure ()

/-- `mark_submission`. -/
def markSubmission (op : Uuid) (state : SubmissionState) : ClientTx Unit :=
  writeTables fun T => T.update op fun r => { r with submissionState := state }

/-- `cancel_state`. -/
def cancelState (op : Uuid) (state : CancelState) : ClientTx Unit :=
  writeTables fun T => T.update op fun r => { r with cancelState := some state }

/-- `receipt_sent`. -/
def receiptSent (receipt : ReceiptRow) : ClientTx Unit :=
  writeTables fun T => { T with
    receipts :=
      Table.modify ReceiptRow.key T.receipts receipt.key fun r => { r with sent := true } }

/-- A member of an object set to `null`. -/
def blank (key : String) : Json → Json
  | .obj kvs => .obj (Json.setKey key .null kvs)
  | v => v

/-- What `prune` leaves of a row. -/
def prunedRow (now : Time) (r : ClientRow) : ClientRow :=
  let r := if r.payloadExpires ≤ now then { r with payload := none } else r
  match r.snapshot with
  | none => r
  | some v =>
    if r.expires ≤ now ∧ r.expired = false ∧ ∃ state, stateOf v = some state ∧ state.Final then
      { r with
        snapshot := some (blank "error" (blank "result" v)).sortKeys
        expired := true
        payload := none }
    else r

/-- `prune`. -/
def prune : ClientTx Unit := do
  let now ← time
  writeTables fun T => { T with operations := T.operations.map (prunedRow now) }

/-- What `__init__` leaves of a row: a delivery that was under way has an unknown outcome, an
inline wait is over, and so is a cancellation that was being sent. -/
def repairedRow (r : ClientRow) : ClientRow :=
  let r := if r.deliveryState = .enqueueing then
    { r with deliveryState := .deliveryOutcomeUnknown } else r
  let r := if r.deliveryState = .inlinePending then
    { r with inlineDeadline := 0, deliveryState := .ready } else r
  if r.cancelState = some .sending then { r with cancelState := some .outcomeUnknown } else r

/-- The receipts `__init__` makes sure of. -/
def unknownReceipts (T : Tables) : List (Uuid × String) :=
  T.operations.filterMap fun r =>
    match r.deliveryState, r.snapshot with
    | .deliveryOutcomeUnknown, some v => (member "result_id" v).str?.map fun id =>
        (r.operationId, id)
    | _, _ => none

/-- The repair `__init__` makes. -/
def startup : ClientTx Unit := do
  writeTables fun T => { T with operations := T.operations.map repairedRow }
  writeTables fun T => (unknownReceipts T).foldl
    (fun T x => T.receipt x.1 x.2 .deliveryOutcomeUnknown) T

/-- `ingest`. -/
def ingest (v : Json) (seq : Option ℤ) (expected : Option Uuid) : ClientTx Unit := do
  Tx.refuse
    (v.isObj = false ∨ expected.any (fun op => member "operation_id" v ≠ .str op.text) = true)
    (.value "broker returned a different operation identity")
  store.acceptSnapshot v seq

end ClientStore

end HermesGateway.Client
