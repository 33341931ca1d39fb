import HermesGateway.Broker.Ledger
import Mathlib.Data.List.MinMax
import Mathlib.Data.List.Sort
import Mathlib.Data.Prod.Lex

/-!
# The broker's store

`BrokerStore`, method by method. Each public method is one transaction; a private one is part of
the transaction that calls it. The advisory lock is held by the one dispatcher there is, so the
methods that ask for it find it.

## Main definitions

* `BrokerStore.event` — `_event`: number, store and return the snapshot of an operation
* `BrokerStore.accept`, `claim`, `finish`, `saveHandle`, `recover`, `cancelIntent`,
  `claimCancel`, `reconcilable`, `events`, `purge` and the others — the transactions
* `Transaction`, `BrokerStore.perform` — any of them
-/

namespace HermesGateway.Broker

/-- The store: its settings, the digest function it is linked with, and the texts UTF-8 has bytes
for. Python's strings may hold lone surrogates, which the characters of the model have no room for,
so which texts stand for such strings is left open. -/
structure BrokerStore where
  settings : BrokerSettings
  /-- `hashlib.sha256(content).hexdigest()` -/
  sha256 : ByteArray → String
  /-- Whether `text.encode()` returns; on a lone surrogate it raises `UnicodeEncodeError`. -/
  encodable : String → Bool

namespace BrokerStore

variable (store : BrokerStore)

/-! ### Parts of transactions -/

/-- `_device`: the device's row exists afterwards, and is locked. -/
def device (d : Device) : StoreTx Unit :=
  writeLedger fun L =>
    match L.device? d with
    | some _ => L
    | none => { L with devices := L.devices ++ [⟨d, 0, 0⟩] }

/-- `_row`. -/
def row (k : Key) : StoreTx OperationRow := do
  match (← readLedger).operation? k with
  | some row => return row
  | none => throw (brokerError .notFound "operation not found" 404)

/-- The first number that `bigint` cannot hold. -/
def bigintLimit : ℕ := 2 ^ 63

/-- `_event`. -/
def event (k : Key) : StoreTx Snapshot := do
  let snapshot ← snapshot (← row k)
  match (← readLedger).device? k.1 with
  | none => throw .other
  | some device =>
    Tx.refuse (bigintLimit ≤ device.sequence + 1) .database
    let now ← utcnow
    let ttl := min store.settings.eventTtlSeconds store.settings.resultTtlSeconds
    writeLedger fun L => L.appendEvent k.1 (device.sequence + 1) snapshot (now + seconds ttl)
    return snapshot

/-- `_artifact`, and `artifact`, which is the same in a transaction of its own. -/
def artifact (d : Device) (artifact : Uuid) : StoreTx (Descriptor × ByteArray) := do
  let now ← utcnow
  match (← readLedger).artifacts.find? fun r => r.key = (d, artifact) ∧ now < r.expiresAt with
  | none => throw (brokerError .notFound "artifact not found or expired" 404)
  | some row =>
    Tx.refuse (row.content.size ≠ row.size ∨ store.sha256 row.content ≠ row.sha256)
      (brokerError .artifactCorrupt "stored artifact integrity check failed" 503)
    return (row.descriptor, row.content)

/-- `content_type.split(";", 1)[0].strip().lower()`, on the printable ASCII a stored content type
is made of. -/
def mediaType (contentType : String) : String :=
  let head := contentType.toList.takeWhile (· ≠ ';')
  let blankless := (head.dropWhile (· = ' ')).reverse.dropWhile (· = ' ')
  String.ofList (blankless.reverse.map Char.toLower)

/-- The loop of `accept` over the input artifacts: each must be UTF-8 text, and their sizes are
added up. -/
def inputBytes (d : Device) : List Uuid → StoreTx ℕ
  | [] => return 0
  | a :: rest => do
    let (descriptor, content) ← store.artifact d a
    Tx.refuse (mediaType descriptor.contentType ≠ "text/plain")
      (brokerError .unsupportedArtifact "Hermes operation inputs support UTF-8 text/plain only" 422)
    Tx.refuse (content.validateUTF8 = false)
      (brokerError .unsupportedArtifact "input text artifact must contain valid UTF-8" 422)
    return content.size + (← inputBytes d rest)

/-- The row `_finish` writes. -/
def finishedRow (r : OperationRow) (state : OpState) (result : Option ResultBody)
    (code : Option ErrorCode) (message : Option String) (expires : Option Time) (fresh : Uuid)
    (now : Time) : OperationRow :=
  { r with
    state := state
    resultId := r.resultId <|> some fresh
    result := result
    resultExpiresAt := expires
    errorCode := code
    errorMessage := message
    updatedAt := now }

/-- `_finish`. -/
def finishOperation (k : Key) (state : OpState) (result : Option ResultBody)
    (code : Option ErrorCode) (message : Option String) : StoreTx Snapshot := do
  let r ← row k
  if r.state.Final then snapshot r
  else
    let stored ← utcnow
    let expires := result.map fun _ => stored + seconds store.settings.resultTtlSeconds
    let fresh ← uuid4
    let now ← utcnow
    writeLedger fun L =>
      ((L.updateOperation k fun r => finishedRow r state result code message expires fresh
        now).updateOutbox k fun b => { b with state := .done }).deletePayload k
    store.event k

/-- `_purge_events`: a prefix of the device's events, up to the last one that has expired. -/
def purgeEvents (d : Device) : StoreTx Unit := do
  let now ← utcnow
  writeLedger fun L =>
    match ((L.events.filter fun e => e.deviceId = d ∧ e.expiresAt ≤ now).map
        EventRow.sequence).max? with
    | none => L
    | some n =>
      { L with
        events := L.events.filter fun e => ¬ (e.deviceId = d ∧ e.sequence ≤ n)
        devices := Table.modify DeviceRow.deviceId L.devices d fun r =>
          { r with floor := max r.floor n } }

/-! ### Acceptance -/

/-- The row, payload and outbox row that `accept` inserts. -/
def acceptedRow (d : Device) (request : OperationRequest) (digest : String) (now : Time) :
    OperationRow where
  deviceId := d
  operationId := request.operationId
  flowId := request.flowId
  digest := digest
  state := .accepted
  resultId := none
  result := none
  resultExpiresAt := none
  errorCode := none
  errorMessage := none
  remoteTaskId := none
  polledAt := none
  createdAt := now
  updatedAt := now
  cancelClaimed := false
  cancelRequested := false

/-- The operations of a device that count against its admission limit. -/
def pending (L : Ledger) (d : Device) : ℕ :=
  L.operations.countP fun r => r.deviceId = d ∧ (r.state = .accepted ∨ r.Active)

/-- The inserts of `accept`. -/
def insertOperation (L : Ledger) (r : OperationRow) (request : OperationRequest)
    (payloadExpires : Time) : Ledger :=
  { L with
    operations := L.operations ++ [r]
    payloads := L.payloads ++ [⟨r.deviceId, r.operationId, request, payloadExpires⟩]
    outbox := L.outbox ++ [⟨r.deviceId, r.operationId, .pending, none⟩] }

/-- `accept`. -/
def accept (d : Device) (request : OperationRequest) : StoreTx (Snapshot × Bool) := do
  let digest := store.sha256 (canonicalBytes request.toJson)
  device d
  match (← readLedger).operation? (d, request.operationId) with
  | some previous =>
    Tx.refuse (previous.digest ≠ digest)
      (brokerError .idConflict "operation ID already has a different request" 409)
    return (← snapshot previous, false)
  | none =>
    Tx.refuse (store.settings.maxPendingPerDevice ≤ pending (← readLedger) d)
      (brokerError .admissionFull "device pending operation limit reached" 429)
    Tx.refuse (¬ request.artifactIds.Nodup)
      (brokerError .invalidArtifacts "duplicate input artifact IDs are not allowed" 400)
    let bytes ← store.inputBytes d request.artifactIds
    Tx.refuse (store.settings.maxArtifactBytes < utf8Length request.prompt.toList + bytes)
      (brokerError .artifactsTooLarge
        "combined prompt and input artifacts exceed configured size limit" 413)
    let now ← utcnow
    writeLedger fun L => insertOperation L (acceptedRow d request digest now) request
      (now + seconds store.settings.payloadTtlSeconds)
    return (← store.event (d, request.operationId), true)

/-- `get`. -/
def get (k : Key) : StoreTx Snapshot := do
  snapshot (← row k)

/-! ### Dispatch -/

/-- What `claim` returns: the request, and the attachments it resolved. -/
structure Claim where
  deviceId : Device
  request : OperationRequest
  attachments : List (Descriptor × ByteArray)
deriving DecidableEq

/-- The operation a claim is about. -/
def Claim.key (c : Claim) : Key := (c.deviceId, c.request.operationId)

/-- The rows the `SELECT` of `claim` chooses from: accepted, pending in the outbox, and no
operation of the same flow running or of unknown outcome. -/
def candidates (L : Ledger) : List OperationRow :=
  L.operations.filter fun o => o.state = .accepted ∧
    (∃ b ∈ L.outbox, b.key = o.key ∧ b.state = .pending) ∧
    ¬ ∃ active ∈ L.operations,
      active.deviceId = o.deviceId ∧ active.flowId = o.flowId ∧ active.Active

/-- `ORDER BY o.created_at,o.operation_id LIMIT 1`. -/
def candidate (L : Ledger) : Option OperationRow :=
  (candidates L).argmin fun o => toLex (o.createdAt, o.operationId)

/-- `_artifact` inside `try`: nothing when it raises a `BrokerError`, which is after it has read the
clock. -/
def attachment (d : Device) (a : Uuid) : StoreTx (Option (Descriptor × ByteArray)) := fun s =>
  match store.artifact d a s with
  | .ok (found, s') => .ok (some found, s')
  | .error (.broker _) => (do let _ ← utcnow; return none : StoreTx _) s
  | .error e => .error e

/-- The attachments of a claimed request, or nothing when one of them cannot be had. -/
def attachments (d : Device) : List Uuid → StoreTx (Option (List (Descriptor × ByteArray)))
  | [] => return some []
  | a :: rest => do
    match ← store.attachment d a with
    | none => return none
    | some found => return (← attachments d rest).map (found :: ·)

/-- The row `claim` writes. -/
def claimedRow (r : OperationRow) (now : Time) : OperationRow :=
  { r with state := .running, updatedAt := now }

/-- `claim`. -/
def claim : StoreTx (Option Claim) := do
  match candidate (← readLedger) with
  | none => return none
  | some chosen =>
    let k := chosen.key
    device k.1
    let r ← row k
    if r.state ≠ .accepted then return none
    else
      let now ← utcnow
      let payload := Table.lookup PayloadRow.key (← readLedger).payloads k
      match payload.filter fun p => now < p.expiresAt with
      | none =>
        let _ ← store.finishOperation k .failed none (some .payloadExpired)
          (some "dispatch payload expired")
        return none
      | some payload =>
        match ← store.attachments k.1 payload.request.artifactIds with
        | none =>
          let _ ← store.finishOperation k .failed none (some .artifactExpired)
            (some "input artifact unavailable")
          return none
        | some attachments =>
          let claimedAt ← utcnow
          let now ← utcnow
          writeLedger fun L =>
            (L.updateOutbox k fun b =>
              { b with state := .claimed, claimedAt := some claimedAt }).updateOperation k
                fun r => claimedRow r now
          let _ ← store.event k
          return some ⟨k.1, payload.request, attachments⟩

/-- Whether `canonical` has bytes for a result: all of it but the text of an output is ASCII. -/
def encodes : ResultBody → Bool
  | .output text _ => store.encodable text
  | .errorDetails _ => true

/-- `finish`. A state outside `TERMINAL` is a `ValueError`; a result that cannot be encoded raises
`UnicodeEncodeError` when it is measured. -/
def finish (k : Key) (state : OpState) (result : Option ResultBody) (code : Option ErrorCode)
    (message : Option String) : StoreTx Snapshot := do
  Tx.refuse (¬ state.Terminal) .other
  Tx.refuse (result.any (fun body => !store.encodes body) = true) .other
  device k.1
  if ∃ body, result = some body ∧ store.settings.maxResultBytes < utf8Length body.toJson.canonical
  then
    store.finishOperation k .failed none (some .resultTooLarge)
      (some "peer result exceeds configured limit")
  else store.finishOperation k state result code message

/-- The row `save_handle` writes. -/
def handledRow (r : OperationRow) (handle : String) (now : Time) : OperationRow :=
  { r with remoteTaskId := some handle, updatedAt := now }

/-- A text PostgreSQL takes: one with a NUL in it is a `DataError` of the driver. -/
def Storable (text : String) : Prop := Char.ofNat 0 ∉ text.toList

instance (text : String) : Decidable (Storable text) := inferInstanceAs (Decidable (_ ∉ _))

/-- `save_handle`. The handle is bound to the `UPDATE`, which refuses one with a NUL in it, or with
no bytes. -/
def saveHandle (k : Key) (handle : String) : StoreTx Unit := do
  Tx.refuse (handle = "" ∨ 512 < handle.length)
    (brokerError .invalidPeerHandle "peer returned an invalid task handle" 502)
  device k.1
  let r ← row k
  Tx.refuse (r.remoteTaskId ≠ none ∧ r.remoteTaskId ≠ some "" ∧ r.remoteTaskId ≠ some handle)
    (brokerError .peerHandleConflict "peer changed task handle" 502)
  if r.remoteTaskId = some handle ∨ r.state.Final then return ()
  else
    let now ← utcnow
    Tx.refuse (¬ Storable handle) .database
    Tx.refuse (store.encodable handle = false) .other
    writeLedger fun L => L.updateOperation k fun r => handledRow r handle now
    let _ ← store.event k

/-- `recover`: an operation whose dispatch was claimed by an earlier process is not sent again. -/
def recover : StoreTx Unit := do
  let running := (← readLedger).operations.filter fun r => r.state = .running
  (running.map OperationRow.key).forM fun k => do
    device k.1
    let _ ← store.finishOperation k .outcomeUnknown none (some .restartUnknown)
      (some "dispatcher restarted after dispatch was claimed; no resend")

/-- The order of `reconcilable`: never polled first, then by the last poll, then by the last
update. -/
def pollOrder (r : OperationRow) : ℕ ×ₗ ℕ :=
  toLex ((r.polledAt.map (· + 1)).getD 0, r.updatedAt)

/-- The rows the `SELECT` of `reconcilable` returns. -/
def unresolved (L : Ledger) : List OperationRow :=
  ((L.operations.filter fun r => r.Active ∧ r.remoteTaskId ≠ none).insertionSort
    fun a b => pollOrder a ≤ pollOrder b).take 20

/-- The row `reconcilable` writes. -/
def polledRow (now : Time) (r : OperationRow) : OperationRow := { r with polledAt := some now }

/-- `reconcilable`. The rows returned are those selected, before `polled_at` is set. -/
def reconcilable : StoreTx (List OperationRow) := do
  let rows := unresolved (← readLedger)
  (rows.map OperationRow.key).forM fun k => do
    let now ← utcnow
    writeLedger fun L => L.updateOperation k (polledRow now)
  return rows

/-! ### Cancellation -/

/-- The row `cancel_intent` writes for an operation that may be executing. -/
def cancelingRow (r : OperationRow) (now : Time) : OperationRow :=
  { r with
    cancelRequested := true
    errorCode := some .cancelUnconfirmed
    errorMessage := some "cancellation is best effort; underlying execution may continue"
    updatedAt := now }

/-- `cancel_intent`. -/
def cancelIntent (k : Key) : StoreTx (Snapshot × Option String) := do
  device k.1
  let r ← row k
  if r.state = .accepted then return (← store.finishOperation k .canceled none none none, none)
  else if r.state.Final ∨ r.cancelRequested = true then return (← snapshot r, none)
  else
    let now ← utcnow
    writeLedger fun L => L.updateOperation k fun r => cancelingRow r now
    return (← store.event k, r.remoteTaskId)

/-- The row `claim_cancel` writes. -/
def cancelClaimedRow (r : OperationRow) : OperationRow := { r with cancelClaimed := true }

/-- `claim_cancel`: a requested cancellation is handed out once. -/
def claimCancel : StoreTx (Option (Key × String)) := do
  let L ← readLedger
  let wanted := L.operations.filter fun r =>
    r.cancelRequested = true ∧ r.cancelClaimed = false ∧ r.remoteTaskId ≠ none ∧ r.Active
  match wanted.argmin OperationRow.updatedAt with
  | none => return none
  | some chosen =>
    device chosen.deviceId
    let current ← row chosen.key
    if current.state.Final then return none
    else
      match current.remoteTaskId with
      | none => return none
      | some handle =>
        writeLedger fun L => L.updateOperation chosen.key cancelClaimedRow
        return some (chosen.key, handle)

/-! ### Events, receipts, artifacts, retention -/

/-- `events`. A refusal undoes the purge with the rest of the transaction. -/
def events (d : Device) (after limit : ℕ) : StoreTx (List (ℕ × Snapshot)) := do
  device d
  purgeEvents d
  let L ← readLedger
  match L.device? d with
  | none => throw .other
  | some row =>
    Tx.refuse (after < row.floor) (.broker ⟨.retentionGap,
      "event cursor expired; recover known operations with GET", 410, some row.sequence⟩)
    Tx.refuse (row.sequence < after)
      (brokerError .invalidCursor "event cursor is ahead of this device" 409)
    let rows := (L.events.filter fun e => e.deviceId = d ∧ after < e.sequence).insertionSort
      fun a b => a.sequence ≤ b.sequence
    return (rows.take limit).map fun e => (e.sequence, e.snapshot)

/-- `receipt`. -/
def receipt (k : Key) (resultId : Uuid) (status : ReceiptStatus) : StoreTx Unit := do
  device k.1
  let r ← row k
  Tx.refuse (r.resultId ≠ some resultId)
    (brokerError .resultConflict "receipt does not match the operation result" 409)
  let now ← utcnow
  writeLedger fun L =>
    if ∃ x ∈ L.receipts, x.key = (k, resultId, status) then L
    else { L with receipts := L.receipts ++ [⟨k.1, k.2, resultId, status, now⟩] }

/-- The bytes of a device's stored artifacts, expired ones included. -/
def storedBytes (L : Ledger) (d : Device) : ℕ :=
  ((L.artifacts.filter fun a => a.deviceId = d).map fun a => a.size.val).sum

/-- `put_artifact`. -/
def putArtifact (d : Device) (content : ByteArray) (digest contentType : String) :
    StoreTx Descriptor := do
  if h : content.size ≤ store.settings.maxArtifactBytes then
    Tx.refuse (store.sha256 content ≠ digest)
      (brokerError .digestMismatch "artifact digest does not match bytes" 422)
    Tx.refuse (128 < contentType.length ∨ ∃ c ∈ contentType.toList, ¬ Json.Printable c)
      (brokerError .invalidContentType "invalid artifact content type" 400)
    device d
    let now ← utcnow
    writeLedger fun L =>
      { L with artifacts := L.artifacts.filter fun a => ¬ (a.deviceId = d ∧ a.expiresAt ≤ now) }
    Tx.refuse (store.settings.deviceQuotaBytes < storedBytes (← readLedger) d + content.size)
      (brokerError .artifactQuota "device artifact quota exceeded" 429)
    let id ← uuid4
    let stored ← utcnow
    Tx.refuse (∃ a ∈ (← readLedger).artifacts, a.key = (d, id)) .database
    let size : Fin (artifactByteLimit + 1) :=
      ⟨content.size, Nat.lt_succ_of_le (h.trans store.settings.maxArtifactBytes_le)⟩
    let row : ArtifactRow := ⟨d, id, digest, size, contentType, content,
      stored + seconds store.settings.artifactTtlSeconds⟩
    writeLedger fun L => { L with artifacts := L.artifacts ++ [row] }
    return row.descriptor
  else throw (brokerError .artifactTooLarge "artifact exceeds configured size limit" 413)

/-- The row `purge` leaves of an operation: an expired result is erased. -/
def purgedRow (now : Time) (r : OperationRow) : OperationRow :=
  match r.resultExpiresAt with
  | some expires => if expires ≤ now then { r with result := none } else r
  | none => r

/-- `purge`. -/
def purge : StoreTx Unit := do
  let devices := (← readLedger).devices.map DeviceRow.deviceId
  devices.forM fun d => do
    device d
    purgeEvents d
  let now ← utcnow
  writeLedger fun L =>
    { L with
      payloads := L.payloads.filter fun p => now < p.expiresAt
      artifacts := L.artifacts.filter fun a => now < a.expiresAt
      operations := L.operations.map (purgedRow now) }

end BrokerStore

/-! ### Any transaction -/

/-- A call of a public method. -/
inductive Transaction
  | accept (d : Device) (request : OperationRequest)
  | get (k : Key)
  | claim
  | finish (k : Key) (state : OpState) (result : Option ResultBody) (code : Option ErrorCode)
      (message : Option String)
  | saveHandle (k : Key) (handle : String)
  | recover
  | reconcilable
  | cancelIntent (k : Key)
  | claimCancel
  | events (d : Device) (after limit : ℕ)
  | receipt (k : Key) (resultId : Uuid) (status : ReceiptStatus)
  | putArtifact (d : Device) (content : ByteArray) (digest contentType : String)
  | artifact (d : Device) (artifact : Uuid)
  | purge

/-- Run the method, and drop what it returns. -/
def BrokerStore.perform (store : BrokerStore) : Transaction → StoreTx Unit
  | .accept d request => do let _ ← store.accept d request
  | .get k => do let _ ← BrokerStore.get k
  | .claim => do let _ ← store.claim
  | .finish k state result code message => do
    let _ ← store.finish k state result code message
  | .saveHandle k handle => store.saveHandle k handle
  | .recover => store.recover
  | .reconcilable => do let _ ← BrokerStore.reconcilable
  | .cancelIntent k => do let _ ← store.cancelIntent k
  | .claimCancel => do let _ ← BrokerStore.claimCancel
  | .events d after limit => do let _ ← BrokerStore.events d after limit
  | .receipt k resultId status => BrokerStore.receipt k resultId status
  | .putArtifact d content digest contentType => do
    let _ ← store.putArtifact d content digest contentType
  | .artifact d artifact => do let _ ← store.artifact d artifact
  | .purge => BrokerStore.purge

end HermesGateway.Broker
