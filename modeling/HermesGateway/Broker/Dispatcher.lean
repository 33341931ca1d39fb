import HermesGateway.Broker.Store
import HermesGateway.Library.Base64

/-!
# The broker's dispatcher

`BrokerDispatcher` and the HTTP handlers as one transition system over the ledger.

The store's methods run in worker threads while the event loop goes on, so a coroutine is modelled
by the calls it makes: `Prog` is what is left of one, suspended at its next call. A task is a
coroutine with the peer call it was created for. When a task is cancelled at such a call, by the
deadline of a submission or by shutdown, the thread is not: the call becomes an orphan, which may
still commit at any later time of the process, or never.

The order of the statements of `step` is not kept: each of them may be taken at any time. What the
peer answers, when requests arrive, what fails and when the process dies are arbitrary.

## Main definitions

* `TaskResult`, `BrokerDispatcher.peerErrorDetails` — what the peer reports, and what is kept of
  a refusal
* `Prog`, `BrokerDispatcher.observe` — coroutines and the observation of a result
* `Task`, `TaskStep` — a task and its transitions
* `Process`, `Process.Step` — the broker: requests, dispatch, cancellation, shutdown, restart
-/

namespace HermesGateway.Broker

open BrokerStore

/-! ### Results of the peer -/

/-- `A2ATaskResult`. -/
structure TaskResult where
  taskId : String
  contextId : String
  state : String
  text : String
  artifacts : List Json
  raw : Json
deriving DecidableEq

/-- Membership in `FINAL | {"rejected", "input_required"}`. -/
def settles (state : String) : Bool :=
  state ∈ ["completed", "failed", "canceled", "rejected", "input_required"]

/-- The dispatcher: its store, and the two functions of the standard library that are left
abstract, `str(value)` of a value that is no string and `datetime.fromisoformat(text).isoformat()`
of a text that denotes an instant with an offset. -/
structure BrokerDispatcher where
  store : BrokerStore
  strOf : Json → String
  reformat : String → Option String

/-! ### Diagnostics -/

/-- `DIAGNOSTICS_URI`. -/
def diagnosticsUri : String :=
  "https://github.com/phamviet86/hermes-a2a-gateway/extensions/diagnostics/v1"

/-- The reason a text denotes, if it is one of `REASONS`. -/
def PeerReason.ofText? (s : String) : Option PeerReason :=
  [PeerReason.contextRateLimited, .contextTurnLimit, .inputRequired, .peerRejected].find?
    fun reason => reason.text = s

/-- The action a text denotes, if it is one of `ACTIONS`. -/
def PeerAction.ofText? (s : String) : Option PeerAction :=
  [PeerAction.waitThenSubmitNew, .inspectOperation, .contactOperator, .provideInput].find?
    fun action => action.text = s

/-- The full match of `text` with the turn-limit message of a peer without diagnostics. -/
def legacyTurnLimit (contextId text : String) : Bool :=
  let head := ("Anti-loop protection: context " ++ contextId ++ " exceeded ").toList
  let rest := text.toList.drop head.length
  let digits := rest.takeWhile fun c => '0' ≤ c ∧ c ≤ '9'
  let tail := " turns. Start a new context or increase A2A_MAX_PINGPONG_TURNS.".toList
  head.isPrefixOf text.toList && !digits.isEmpty && digits.head? != some '0' &&
    rest.drop digits.length == tail

namespace BrokerDispatcher

variable (disp : BrokerDispatcher)

/-- `peer_error_details`. -/
def peerErrorDetails (task : TaskResult) : PeerDetails :=
  let input := task.state = "input_required"
  let details : PeerDetails :=
    { reason := if input then .inputRequired else .peerRejected
      peerState := task.state
      recommendedAction := if input then .provideInput else .contactOperator
      executionStarted := none
      retryAfterSeconds := none
      retryAt := none }
  let value := ((task.raw.get? "metadata").bind fun m => m.get? diagnosticsUri)
  match value, value.bind fun v => ((v.get? "reason").bind Json.str?).bind PeerReason.ofText? with
  | some value, some reason =>
    { reason := reason
      peerState := task.state
      recommendedAction :=
        (((value.get? "recommended_action").bind Json.str?).bind PeerAction.ofText?).getD
          details.recommendedAction
      executionStarted :=
        match value.get? "execution_started" with
        | some (.bool b) => some b
        | _ => none
      retryAfterSeconds :=
        match value.get? "retry_after_seconds" with
        | some (.int n) => if h : 0 ≤ n ∧ n ≤ 86400 then some ⟨n.toNat, by omega⟩ else none
        | _ => none
      retryAt :=
        ((value.get? "retry_at").bind Json.str?).bind fun instant =>
          if instant.length ≤ 40 then disp.reformat instant else none }
  | _, _ =>
    if task.state = "rejected" ∧ task.text.length ≤ 1024 ∧
        legacyTurnLimit task.contextId task.text = true then
      { details with reason := .contextTurnLimit }
    else details

/-! ### Coroutines -/

end BrokerDispatcher

/-- What is left of a coroutine of one operation: it has ended, or it has raised, or it waits for
a call of the store. -/
inductive Prog
  | done
  | raise (failure : Failure)
  | saveHandle (handle : String) (next : Prog)
  | get (next : Snapshot → Prog)
  | putArtifact (content : ByteArray) (digest contentType : String) (next : Descriptor → Prog)
  | finish (state : OpState) (result : Option ResultBody) (code : Option ErrorCode)
      (message : Option String) (next : Prog)

namespace BrokerDispatcher

variable (disp : BrokerDispatcher)

/-- The transaction a coroutine of operation `k` waits for, and how it goes on. -/
def call (k : Key) : Prog → Option (StoreTx Prog)
  | .done | .raise _ => none
  | .saveHandle handle next => some do
    disp.store.saveHandle k handle
    return next
  | .get next => some do
    return next (← BrokerStore.get k)
  | .putArtifact content digest contentType next => some do
    return next (← disp.store.putArtifact k.1 content digest contentType)
  | .finish state result code message next => some do
    let _ ← disp.store.finish k state result code message
    return next

/-- The parts `artifact.get("parts", [])` iterates over; `none` where the iteration fails. -/
def partsOf (artifact : Json) : List (Option Json) :=
  match artifact.get? "parts" with
  | none => []
  | some (.arr parts) => parts.map some
  | some (.obj members) => members.map fun m => some (.str m.1)
  | some (.str s) => s.toList.map fun c => some (.str (String.singleton c))
  | some _ => [none]

/-- The media type of a part. -/
def partType (part : Json) : String :=
  match part.get? "mediaType" with
  | none => "application/octet-stream"
  | some (.str s) => s
  | some value => disp.strOf value

/-- What the loop of `_observe` does with a part: nothing, raise an error, or store its content. -/
inductive PartAction
  | skip
  | fail (e : Failure)
  | store (content : ByteArray) (contentType : String)

/-- The body of the loop up to the call of the store; `none` stands for `parts` that cannot be
iterated over. -/
def partAction : Option Json → PartAction
  | none => .fail .other
  | some part =>
    if part.isObj = false then .skip
    else if (part.get? "url").isSome then
      .fail (brokerError .unsupportedPeerArtifact "peer URL artifacts are not supported" 502)
    else
      match part.get? "raw" with
      | none => .skip
      | some (.str raw) =>
        if (disp.store.settings.maxArtifactBytes + 2) / 3 * 4 < raw.length then
          .fail (brokerError .artifactTooLarge "peer artifact exceeds configured limit" 502)
        else
          match Base64.decode raw with
          | none =>
              .fail (brokerError .invalidPeerArtifact "peer artifact has invalid encoding" 502)
          | some content => .store content (disp.partType part)
      | some _ => .fail (brokerError .artifactTooLarge "peer artifact exceeds configured limit" 502)

/-- The loop of `_observe` over the parts of the artifacts: each raw part is stored, and the
descriptors are handed on. -/
def storeParts : List (Option Json) → List Descriptor → (List Descriptor → Prog) → Prog
  | [], descriptors, next => next descriptors
  | part :: rest, descriptors, next =>
    match disp.partAction part with
    | .skip => storeParts rest descriptors next
    | .fail e => .raise e
    | .store content contentType =>
      .putArtifact content (disp.store.sha256 content) contentType
        fun d => storeParts rest (descriptors ++ [d]) next

/-- `_observe`. -/
def observe (task : TaskResult) : Prog :=
  .saveHandle task.taskId <|
    if settles task.state = false then .done
    else
      .get fun current =>
        if current.state.Final then .done
        else if task.state = "rejected" ∨ task.state = "input_required" then
          .finish .failed (some (.errorDetails (disp.peerErrorDetails task)))
            (some (if task.state = "input_required" then .peerRequiresInput else .peerRejected))
            (some "peer could not complete the operation") .done
        else
          disp.storeParts (task.artifacts.flatMap partsOf) [] fun descriptors =>
            match OpState.ofText? task.state with
            | some state => .finish state (some (.output task.text descriptors)) none none .done
            | none => .raise .other

/-- `_unknown`. -/
def unknown : Prog :=
  .finish .outcomeUnknown none (some .submissionUnknown)
    (some "submission may have started; no automatic resend") .done

/-! ### Tasks -/

end BrokerDispatcher

open BrokerDispatcher

/-- The coroutine a task runs: `_submit`, `_reconcile` or `_cancel`. -/
inductive Job
  | submit
  | reconcile (handle : String)
  | cancel (handle : String)
deriving DecidableEq

/-- Where a task is: not yet started, waiting for the peer, waiting for the observation lock with
a result, observing one, in the code after the end of the stream, or in an exception handler. -/
inductive Phase
  | created
  | waiting
  | queued (result : TaskResult)
  | observing (terminal : Bool) (prog : Prog)
  | ending (prog : Prog)
  | settling (prog : Prog)

/-- A task of the dispatcher. -/
structure Task where
  key : Key
  job : Job
  phase : Phase

/-- A call to Hermes. -/
inductive Rpc
  | sendStreamingMessage (key : Key)
  | getTask (key : Key) (handle : String)
  | cancelTask (key : Key) (handle : String)
deriving DecidableEq

/-- The call a job makes to the peer. -/
def Job.rpc (k : Key) : Job → Rpc
  | submit => .sendStreamingMessage k
  | reconcile handle => .getTask k handle
  | cancel handle => .cancelTask k handle

/-- The error codes with which an observed result fails the operation: those of the stream
handler. The handler of `_reconcile` leaves out the last. -/
def artifactCodes : List ErrorCode :=
  [.artifactTooLarge, .artifactQuota, .unsupportedPeerArtifact, .invalidPeerArtifact,
    .resultTooLarge]

/-- The exception handlers of the three coroutines. `terminal` is `terminal_seen`. -/
def Job.handler (terminal : Bool) : Job → Failure → Prog
  | submit, .database => .done
  | submit, .broker e =>
    if terminal = true ∧ e.code ∈ artifactCodes then
      .finish .failed none (some e.code) (some e.message) .done
    else unknown
  | submit, .other => unknown
  | reconcile _, .broker e =>
    if e.code ∈ artifactCodes.dropLast then
      .finish .failed none (some e.code) (some e.message) .done
    else .done
  | reconcile _, .database | reconcile _, .other => .done
  | cancel _, _ => .done

/-- Whether the job goes on with a result the peer returned. A stream skips a result without a
task identifier; the others end on a result of another task. -/
def Job.accepts (result : TaskResult) : Job → Bool
  | submit => result.taskId ≠ ""
  | reconcile handle | cancel handle => result.taskId = handle

/-- Whether the task holds the observation lock. -/
def Task.Observing (t : Task) : Prop := ∃ terminal prog, t.phase = .observing terminal prog

/-- What a transition of one task does: the label says which call it commits. -/
inductive TaskStep (disp : BrokerDispatcher) (others : List Task) (L : Ledger) (t : Task) :
    Option Prog → Ledger → List Task → List (Key × Prog) → List Rpc → Prop
  /-- The body starts and calls the peer. -/
  | start (hphase : t.phase = .created) :
      TaskStep disp others L t none L [{ t with phase := .waiting }] [] [t.job.rpc t.key]
  /-- The peer call, or the stream, raises. -/
  | fail {e : Failure} (hphase : t.phase = .waiting) :
      TaskStep disp others L t none L [{ t with phase := .settling (t.job.handler false e) }] [] []
  /-- The stream ends. -/
  | eof (hphase : t.phase = .waiting) (hjob : t.job = .submit) :
      TaskStep disp others L t none L [{ t with phase := .ending unknown }] [] []
  /-- The peer returns a result the job goes on with. -/
  | receive {result : TaskResult} (hphase : t.phase = .waiting)
      (haccepts : t.job.accepts result = true) :
      TaskStep disp others L t none L [{ t with phase := .queued result }] [] []
  /-- The peer returns a result of another task, which ends all but a stream. -/
  | dismiss (hphase : t.phase = .waiting) (hjob : t.job ≠ .submit) :
      TaskStep disp others L t none L [] [] []
  /-- The observation lock is taken. -/
  | lock {result : TaskResult} (hphase : t.phase = .queued result)
      (hfree : ∀ t' ∈ others, ¬ t'.Observing) :
      TaskStep disp others L t none L
        [{ t with phase := .observing (settles result.state) (disp.observe result) }] [] []
  /-- A call commits, and the coroutine goes on. -/
  | commit {terminal : Bool} {p p' : Prog} {tx : StoreTx Prog} {clock : ℕ → Time}
      {uuids : ℕ → Uuid} {s' : Session} (hphase : t.phase = .observing terminal p)
      (hcall : disp.call t.key p = some tx) (htx : tx ⟨L, clock, uuids⟩ = .ok (p', s')) :
      TaskStep disp others L t (some p) s'.ledger [{ t with phase := .observing terminal p' }] [] []
  /-- A call after the end of the stream commits. -/
  | commitEnding {p p' : Prog} {tx : StoreTx Prog} {clock : ℕ → Time} {uuids : ℕ → Uuid}
      {s' : Session} (hphase : t.phase = .ending p) (hcall : disp.call t.key p = some tx)
      (htx : tx ⟨L, clock, uuids⟩ = .ok (p', s')) :
      TaskStep disp others L t (some p) s'.ledger [{ t with phase := .ending p' }] [] []
  /-- A call of the handler commits. -/
  | settle {p p' : Prog} {tx : StoreTx Prog} {clock : ℕ → Time} {uuids : ℕ → Uuid} {s' : Session}
      (hphase : t.phase = .settling p) (hcall : disp.call t.key p = some tx)
      (htx : tx ⟨L, clock, uuids⟩ = .ok (p', s')) :
      TaskStep disp others L t (some p) s'.ledger [{ t with phase := .settling p' }] [] []
  /-- A call is refused or fails, or the database does. -/
  | refuse {terminal : Bool} {p : Prog} {tx : StoreTx Prog} {clock : ℕ → Time} {uuids : ℕ → Uuid}
      {e : Failure} (hphase : t.phase = .observing terminal p)
      (hcall : disp.call t.key p = some tx)
      (htx : tx ⟨L, clock, uuids⟩ = .error e ∨ e = .database) :
      TaskStep disp others L t none L [{ t with phase := .observing terminal (.raise e) }] [] []
  /-- A call after the end of the stream fails, which the handlers see too. -/
  | refuseEnding {p : Prog} {tx : StoreTx Prog} {clock : ℕ → Time} {uuids : ℕ → Uuid} {e : Failure}
      (hphase : t.phase = .ending p) (hcall : disp.call t.key p = some tx)
      (htx : tx ⟨L, clock, uuids⟩ = .error e ∨ e = .database) :
      TaskStep disp others L t none L
        [{ t with phase := .settling (t.job.handler false e) }] [] []
  /-- A call of the handler is refused or fails: the exception leaves the task. -/
  | abort {p : Prog} {tx : StoreTx Prog} (hphase : t.phase = .settling p)
      (hcall : disp.call t.key p = some tx) : TaskStep disp others L t none L [] [] []
  /-- An observation ends: a stream goes on unless the result was terminal. -/
  | observed {terminal : Bool} (hphase : t.phase = .observing terminal .done) :
      TaskStep disp others L t none L
        (if t.job = .submit ∧ terminal = false then [{ t with phase := .waiting }] else []) [] []
  /-- An observation raises, and the handler takes over. -/
  | handle {terminal : Bool} {e : Failure} (hphase : t.phase = .observing terminal (.raise e)) :
      TaskStep disp others L t none L
        [{ t with phase := .settling (t.job.handler terminal e) }] [] []
  /-- The task ends. -/
  | finish {p : Prog} (hphase : t.phase = .ending p ∨ t.phase = .settling p)
      (hcall : disp.call t.key p = none) :
      TaskStep disp others L t none L [] [] []
  /-- The deadline of a submission passes while it waits for the peer or for the lock. -/
  | deadline (hjob : t.job = .submit)
      (hphase : t.phase = .waiting ∨ ∃ result, t.phase = .queued result) :
      TaskStep disp others L t none L [{ t with phase := .settling unknown }] [] []
  /-- The deadline passes during a call, which goes on without the task. -/
  | deadlineInCall {terminal : Bool} {p : Prog} (hjob : t.job = .submit)
      (hphase : t.phase = .observing terminal p) :
      TaskStep disp others L t none L [{ t with phase := .settling unknown }] [(t.key, p)] []

/-! ### The process -/

/-- What a shutdown leaves of a task: a stream that has started still records its unknown
outcome; everything else is gone. -/
def Task.canceled (t : Task) : List Task :=
  match t.job, t.phase with
  | .submit, .waiting | .submit, .queued _ | .submit, .observing _ _ | .submit, .ending _ =>
    [{ t with phase := .settling unknown }]
  | _, _ => []

/-- The call a shutdown takes a task away from. -/
def Task.abandoned (t : Task) : List (Key × Prog) :=
  match t.phase with
  | .observing _ p | .ending p | .settling p => [(t.key, p)]
  | _ => []

/-- What `aclose` does for each stream once its tasks are gone. -/
def sweep : Prog := .get fun snapshot => if snapshot.state = .running then unknown else .done

/-- A request of an authenticated device. -/
inductive Request
  | accept (request : OperationRequest)
  | get (operation : Uuid)
  | cancel (operation : Uuid)
  | events (after : ℕ)
  | receipt (operation resultId : Uuid) (status : ReceiptStatus)
  | upload (content : ByteArray) (digest contentType : String)
  | download (artifact : Uuid)

/-- The body of a successful response. -/
inductive Reply
  | snapshot (s : Snapshot)
  | events (frames : List (ℕ × Snapshot))
  | descriptor (d : Descriptor)
  | content (d : Descriptor) (bytes : ByteArray)
  | ok

/-- The handlers. -/
def BrokerStore.serve (store : BrokerStore) (d : Device) : Request → StoreTx Reply
  | .accept request => return .snapshot (← store.accept d request).1
  | .get operation => return .snapshot (← BrokerStore.get (d, operation))
  | .cancel operation => return .snapshot (← store.cancelIntent (d, operation)).1
  | .events after => return .events (← BrokerStore.events d after 100)
  | .receipt operation resultId status => do
    BrokerStore.receipt (d, operation) resultId status
    return .ok
  | .upload content digest contentType =>
    return .descriptor (← store.putArtifact d content digest contentType)
  | .download artifact => do
    let (descriptor, bytes) ← store.artifact d artifact
    return .content descriptor bytes

/-- The broker process: its ledger and the dispatcher's tasks, with the calls that outlive their
tasks. `streams` are the keys of `_streams`, and `closing` holds those that `aclose` still has to
look at. Two ghost fields record the calls made to Hermes and the operations `claim` returned. -/
structure Process where
  ledger : Ledger
  tasks : List Task
  streams : List Key
  orphans : List (Key × Prog)
  closing : Option (List Key)
  rpcs : List Rpc
  claims : List Key

namespace Process

/-- The broker before its first request. -/
def initial : Process := ⟨Ledger.empty, [], [], [], none, [], []⟩

/-- The number of tasks of one kind. -/
def count (B : Process) (p : Job → Bool) : ℕ := B.tasks.countP fun t => p t.job

end Process

/-- What a step of the broker commits. -/
inductive Act
  | serve (d : Device) (request : Request) (reply : Reply)
  | call (k : Key) (p : Prog)
  | claimed (k : Key)
  | dispatcher
  | restart
  | silent

/-- Whether the job is that of a read. -/
def Job.isReconcile : Job → Bool
  | reconcile _ => true
  | _ => false

/-- Whether the job is that of a cancellation. -/
def Job.isCancel : Job → Bool
  | cancel _ => true
  | _ => false

/-- The loop of `step` over the rows `reconcilable` returned: an operation with a task is left
alone, and no more reads are started than the limit allows. -/
def startReads (limit : ℕ) : List OperationRow → List Task → List Task
  | [], tasks => tasks
  | r :: rest, tasks =>
    if ∃ t ∈ tasks, t.key = r.key then startReads limit rest tasks
    else
      match r.remoteTaskId with
      | none => startReads limit rest tasks
      | some handle =>
        let tasks' := tasks ++ [⟨r.key, .reconcile handle, .created⟩]
        if limit ≤ tasks'.countP (fun t => t.job.isReconcile) then tasks'
        else startReads limit rest tasks'

/-- One step of the broker. The dispatcher's own calls of the store run in threads too: when the
loop is cancelled during one, the call commits and nothing is made of what it returned. That is
`heard = false`. -/
inductive Process.Step (disp : BrokerDispatcher) : Process → Act → Process → Prop
  /-- A request is served. -/
  | serve {B : Process} {d : Device} {request : Request} {reply : Reply} {clock : ℕ → Time}
      {uuids : ℕ → Uuid} {s' : Session}
      (h : disp.store.serve d request ⟨B.ledger, clock, uuids⟩ = .ok (reply, s')) :
      Process.Step disp B (.serve d request reply) { B with ledger := s'.ledger }
  /-- `step` purges. -/
  | purge {B : Process} {clock : ℕ → Time} {uuids : ℕ → Uuid} {s' : Session}
      (h : BrokerStore.purge ⟨B.ledger, clock, uuids⟩ = .ok ((), s')) :
      Process.Step disp B .dispatcher { B with ledger := s'.ledger }
  /-- `step` drops a stream that has ended. -/
  | reap {B : Process} {before after : List Key} {k : Key}
      (hmem : B.streams = before ++ k :: after)
      (hended : ∀ t ∈ B.tasks, t.job = .submit → t.key ≠ k) :
      Process.Step disp B .silent { B with streams := before ++ after }
  /-- `step` asks for a cancellation to hand out. -/
  | claimCancel {B : Process} {heard : Bool} {c : Option (Key × String)} {clock : ℕ → Time}
      {uuids : ℕ → Uuid} {s' : Session} (hopen : heard = true → B.closing = none)
      (hlimit : B.count Job.isCancel < disp.store.settings.maxConcurrentStreams)
      (h : BrokerStore.claimCancel ⟨B.ledger, clock, uuids⟩ = .ok (c, s')) :
      Process.Step disp B .dispatcher
        { B with
          ledger := s'.ledger
          tasks := B.tasks ++
            if heard then (c.map fun c => ⟨c.1, .cancel c.2, .created⟩).toList else [] }
  /-- `step` starts reads of unresolved operations. -/
  | reconcile {B : Process} {heard : Bool} {rows : List OperationRow} {clock : ℕ → Time}
      {uuids : ℕ → Uuid} {s' : Session} (hopen : heard = true → B.closing = none)
      (hlimit : B.count Job.isReconcile < disp.store.settings.maxConcurrentStreams)
      (h : BrokerStore.reconcilable ⟨B.ledger, clock, uuids⟩ = .ok (rows, s')) :
      Process.Step disp B .dispatcher
        { B with
          ledger := s'.ledger
          tasks := startReads disp.store.settings.maxConcurrentStreams
            (if heard then rows else []) B.tasks }
  /-- `step` finds nothing to dispatch, or fails an operation that can no longer be. -/
  | unclaimed {B : Process} {clock : ℕ → Time} {uuids : ℕ → Uuid} {s' : Session}
      (hlimit : B.streams.length < disp.store.settings.maxConcurrentStreams)
      (h : disp.store.claim ⟨B.ledger, clock, uuids⟩ = .ok (none, s')) :
      Process.Step disp B .dispatcher { B with ledger := s'.ledger }
  /-- `step` claims an operation and creates the task that submits it. -/
  | claim {B : Process} {heard : Bool} {c : Claim} {clock : ℕ → Time} {uuids : ℕ → Uuid}
      {s' : Session} (hopen : heard = true → B.closing = none)
      (hlimit : B.streams.length < disp.store.settings.maxConcurrentStreams)
      (h : disp.store.claim ⟨B.ledger, clock, uuids⟩ = .ok (some c, s')) :
      Process.Step disp B (.claimed c.key)
        { B with
          ledger := s'.ledger
          tasks := B.tasks ++ if heard then [⟨c.key, .submit, .created⟩] else []
          streams := B.streams ++ if heard then [c.key] else []
          claims := B.claims ++ [c.key] }
  /-- A task makes a transition. -/
  | task {B : Process} {before after new : List Task} {t : Task} {p : Option Prog} {L' : Ledger}
      {orphans : List (Key × Prog)} {rpcs : List Rpc} (hmem : B.tasks = before ++ t :: after)
      (h : TaskStep disp (before ++ after) B.ledger t p L' new orphans rpcs) :
      Process.Step disp B ((p.map (Act.call t.key)).getD .silent)
        { B with
          ledger := L'
          tasks := before ++ new ++ after
          orphans := B.orphans ++ orphans
          rpcs := B.rpcs ++ rpcs }
  /-- A call that outlived its task commits. -/
  | orphan {B : Process} {before after : List (Key × Prog)} {k : Key} {p p' : Prog}
      {tx : StoreTx Prog} {clock : ℕ → Time} {uuids : ℕ → Uuid} {s' : Session}
      (hmem : B.orphans = before ++ (k, p) :: after) (hcall : disp.call k p = some tx)
      (h : tx ⟨B.ledger, clock, uuids⟩ = .ok (p', s')) :
      Process.Step disp B (.call k p)
        { B with
          ledger := s'.ledger
          orphans := before ++ after }
  /-- A call that outlived its task fails, or was never started. -/
  | forget {B : Process} {before after : List (Key × Prog)} {x : Key × Prog}
      (hmem : B.orphans = before ++ x :: after) :
      Process.Step disp B .silent { B with orphans := before ++ after }
  /-- `aclose` cancels every task. -/
  | shutdown {B : Process} (hopen : B.closing = none) :
      Process.Step disp B .silent
        { B with
          tasks := B.tasks.flatMap Task.canceled
          orphans := B.orphans ++ B.tasks.flatMap Task.abandoned
          closing := some B.streams }
  /-- `aclose` looks at the next stream, once the tasks are gone. -/
  | sweep {B : Process} {k : Key} {rest : List Key} (hclosing : B.closing = some (k :: rest))
      (hgone : B.tasks = []) :
      Process.Step disp B .silent
        { B with
          tasks := [⟨k, .submit, .settling HermesGateway.Broker.sweep⟩]
          closing := some rest }
  /-- The process dies, at any time, and a new one takes the lock and recovers. -/
  | restart {B : Process} {clock : ℕ → Time} {uuids : ℕ → Uuid} {s' : Session}
      (h : disp.store.recover ⟨B.ledger, clock, uuids⟩ = .ok ((), s')) :
      Process.Step disp B .restart
        { B with
          ledger := s'.ledger
          tasks := []
          streams := []
          orphans := []
          closing := none }

namespace Process

/-- Runs of the broker. -/
abbrev Run (disp : BrokerDispatcher) : Process → Process → Prop :=
  Relation.ReflTransGen fun B B' => ∃ act, Process.Step disp B act B'

/-- A state the broker can reach from empty tables. -/
abbrev Reachable (disp : BrokerDispatcher) (B : Process) : Prop := Run disp initial B

end Process

end HermesGateway.Broker
