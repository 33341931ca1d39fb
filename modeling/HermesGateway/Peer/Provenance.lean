import HermesGateway.Broker.Provenance
import HermesGateway.Broker.Storage
import HermesGateway.Peer.Stream

/-!
# Where completions come from

A message reports what the task in it is about: its identifier, and the state `parse_task` reads
from its status. Every completed operation has a handle for which a completion was reported, in an
event of its stream or in a reply to a call made for it. The end of a stream, an artifact update or
a status that is no object reports none.

What `parse_task` takes for a completion is a state whose text stands for one, and also a task
without a state: a message that is no task has none, and is a whole answer. A task or a status
update that leaves it out is read in the same way.

## Main definitions

* `Message.Reports` — what a message reports
* `Explicit`, `Stateless` — the two ways a task counts as completed

## Main results

* `completed_provenance` — where a completion comes from, in every run
* `stateless_completed` — a status update without a state completes an operation
-/

namespace HermesGateway.Peer

open Broker BrokerDispatcher BrokerStore

/-! ### Reading a message -/

/-- The task a message is about. -/
def Message.task? (client : A2AClient) (m : Message) : Option Json :=
  match m.job with
  | .submit => (client.eventTask m.content).bind fun task => (unwrapTask task).toOption
  | .reconcile _ | .cancel _ => (unwrapTask m.content).toOption

/-- The message reports a state of the task with this identifier. -/
def Message.Reports (client : A2AClient) (m : Message) (id state : String) : Prop :=
  ∃ task status, m.task? client = some task ∧ client.statusOf task = .ok status ∧
    client.taskIdOf task = id ∧ client.stateOf (client.stateText status) = state

/-- The status of the task has a state that stands for a completion. -/
def Explicit (client : A2AClient) (task : Json) : Prop :=
  ∃ status s, task.get? "status" = some (.obj status) ∧
    (Json.obj status).get? "state" = some (.str s) ∧ client.stateOf s = "completed"

/-- The task has no status, or its status no state. -/
def Stateless (client : A2AClient) (task : Json) : Prop :=
  client.member? task "status" = none ∨ ∃ status, task.get? "status" = some (.obj status) ∧
    client.member? (.obj status) "state" = none

/-- The message is a reply, or an event with a task or a status update. -/
def Message.Definite (m : Message) : Prop :=
  m.job = .submit → (m.content.get? "task").any Json.isObj = true ∨
    (m.content.get? "statusUpdate").any Json.isObj = true

section

variable {client : A2AClient}

theorem parseTask_eq_ok {content : Json} {fallback : String} {result : TaskResult}
    (h : client.parseTask content fallback = .ok result) : ∃ task status,
      unwrapTask content = .ok task ∧ client.statusOf task = .ok status ∧
      client.taskIdOf task = result.taskId ∧
      client.stateOf (client.stateText status) = result.state := by
  obtain ⟨task, htask, h⟩ := Except.bind_eq_ok.mp h
  obtain ⟨status, hstatus, h⟩ := Except.bind_eq_ok.mp h
  obtain ⟨artifacts, -, h⟩ := Except.bind_eq_ok.mp h
  obtain ⟨text, -, h⟩ := Except.bind_eq_ok.mp h
  obtain rfl := Except.ok.inj h
  exact ⟨task, status, htask, hstatus, rfl, rfl⟩

theorem gathered_eq_ok {peer : HermesBrokerPeer} {parsed result : TaskResult}
    {retained : List Json} (h : peer.gathered parsed retained = .ok result) :
    parsed.taskId = result.taskId ∧ parsed.state = result.state := by
  rw [HermesBrokerPeer.gathered_of_fits (HermesBrokerPeer.fits_of_gathered h)] at h
  obtain ⟨text, -, h⟩ := Except.bind_eq_ok.mp h
  obtain rfl := Except.ok.inj h
  exact ⟨rfl, rfl⟩

/-- A result that a stream yields is what its event reports, for a task with an identifier. -/
theorem next_eq_ok {peer : HermesBrokerPeer} {context : String} {st st' : StreamState}
    {event : Json} {result : TaskResult}
    (h : peer.next context st event = .ok (some (result, st'))) :
    result.taskId ≠ "" ∧ ∃ task parsed, peer.client.eventTask event = some task ∧
      peer.client.parseTask task context = .ok parsed ∧
      parsed.taskId = result.taskId ∧ parsed.state = result.state := by
  obtain ⟨found, hfound, h⟩ := Except.bind_eq_ok.mp h
  cases found with
  | none => cases h
  | some parsed =>
    dsimp only at h
    split_ifs at h with hhandle
    obtain ⟨artifacts, -, h⟩ := Except.bind_eq_ok.mp h
    obtain ⟨gathered, hgathered, h⟩ := Except.bind_eq_ok.mp h
    obtain ⟨rfl, -⟩ := Prod.mk.inj (Option.some.inj (Except.ok.inj h))
    obtain ⟨hid, hstate⟩ := gathered_eq_ok hgathered
    refine ⟨hid ▸ fun hempty => hhandle (.inl hempty), ?_⟩
    unfold A2AClient.parseStreamEvent at hfound
    cases htask : peer.client.eventTask event with
    | none =>
      rw [htask] at hfound
      cases hfound
    | some task =>
      rw [htask] at hfound
      obtain ⟨parsed', hparse, hfound⟩ := Except.bind_eq_ok.mp hfound
      obtain rfl := Option.some.inj (Except.ok.inj hfound)
      exact ⟨task, parsed', rfl, hparse, hid, hstate⟩

/-- A task that goes on with a result has received a message that reports it. -/
theorem reports_of_deliver {peer : HermesBrokerPeer} {flow : Uuid} {t t' : Task} {st : StreamState}
    {message : Json} {result : TaskResult} (hphase : t.phase = .waiting)
    {st' : StreamState} {new : List Task} (h : peer.deliver flow t st message = (new, st'))
    (ht' : t' ∈ new) (hqueued : t'.phase = .queued result) :
    t'.key = t.key ∧
      (⟨t.key, t.job, message⟩ : Message).Reports peer.client result.taskId result.state := by
  obtain ⟨k, job, phase⟩ := t
  obtain rfl : phase = .waiting := hphase
  have one : ∀ {phase : Phase}, t' ∈ [(⟨k, job, phase⟩ : Task)] →
      t'.key = k ∧ phase = .queued result := by
    intro phase hmem
    rw [List.mem_singleton.mp hmem] at hqueued ⊢
    exact ⟨rfl, hqueued⟩
  unfold HermesBrokerPeer.deliver at h
  cases job with
  | submit =>
    dsimp only at h
    split at h <;> obtain ⟨rfl, -⟩ := Prod.mk.inj h
    · cases (one ht').2
    · cases (one ht').2
    · rename_i result' st' hnext
      obtain ⟨hkey, heq⟩ := one ht'
      obtain rfl := Phase.queued.inj heq
      obtain ⟨-, event, parsed, hevent, hparsed, hid, hstate⟩ := next_eq_ok hnext
      obtain ⟨task, status, htask, hstatus, htaskId, htaskState⟩ := parseTask_eq_ok hparsed
      refine ⟨hkey, task, status, ?_, hstatus, htaskId.trans hid, htaskState.trans hstate⟩
      simp [Message.task?, hevent, htask, Except.toOption]
  | reconcile handle | cancel handle =>
    dsimp only at h
    split at h <;> obtain ⟨rfl, -⟩ := Prod.mk.inj h
    · cases (one ht').2
    · rename_i result' hparsed
      split_ifs at ht'
      · obtain ⟨hkey, heq⟩ := one ht'
        obtain rfl := Phase.queued.inj heq
        obtain ⟨task, status, htask, hstatus, htaskId, htaskState⟩ := parseTask_eq_ok hparsed
        refine ⟨hkey, task, status, ?_, hstatus, htaskId, htaskState⟩
        simp [Message.task?, htask, Except.toOption]
      · exact absurd ht' List.not_mem_nil

/-- A message that arrives is a transition of the task it is for, or is passed over. -/
theorem taskStep_deliver {disp : BrokerDispatcher} {peer : HermesBrokerPeer} {flow : Uuid}
    {t : Task} {st st' : StreamState} {message : Json} {others new : List Task} {L : Ledger}
    (hphase : t.phase = .waiting) (h : peer.deliver flow t st message = (new, st')) :
    new = [t] ∨ TaskStep disp others L t none L new [] [] := by
  obtain ⟨k, job, phase⟩ := t
  obtain rfl : phase = .waiting := hphase
  unfold HermesBrokerPeer.deliver at h
  cases job with
  | submit =>
    dsimp only at h
    split at h <;> obtain ⟨rfl, -⟩ := Prod.mk.inj h
    · exact .inr (.fail rfl)
    · exact .inl rfl
    · rename_i hnext
      exact .inr (.receive rfl (decide_eq_true (next_eq_ok hnext).1))
  | reconcile handle | cancel handle =>
    dsimp only at h
    split at h <;> obtain ⟨rfl, -⟩ := Prod.mk.inj h
    · exact .inr (.fail rfl)
    · split_ifs with haccepts
      · exact .inr (.receive rfl haccepts)
      · exact .inr (.dismiss rfl (by simp))

/-- The task made up for an artifact update is at work. -/
theorem working_of_artifactUpdate {event task : Json}
    (htask : (event.get? "task").any Json.isObj = false)
    (hstatus : (event.get? "statusUpdate").any Json.isObj = false)
    (h : client.eventTask event = some task) : unwrapTask task = .ok task ∧
      client.statusOf task = .ok (.obj [("state", .str "TASK_STATE_WORKING")]) := by
  unfold A2AClient.eventTask at h
  split at h
  · rename_i heq
    rw [heq] at htask
    cases htask
  · rename_i heq _
    rw [heq] at hstatus
    cases hstatus
  · obtain rfl := Option.some.inj h
    exact ⟨rfl, rfl⟩
  · cases h

/-- The two ways a status counts as that of a completed task. -/
theorem explicit_or_stateless {task status : Json}
    (hstr : ∀ v : Json, v.str? = none → client.stateOf (client.strOf v) ≠ "completed")
    (hstatus : client.statusOf task = .ok status)
    (hstate : client.stateOf (client.stateText status) = "completed") :
    Explicit client task ∨ Stateless client task := by
  unfold A2AClient.statusOf at hstatus
  split at hstatus
  · rename_i hnone
    exact .inr (.inl hnone)
  · rename_i ms hsome
    obtain rfl := Except.ok.inj hstatus
    have hget : task.get? "status" = some (.obj ms) := (Option.filter_eq_some_iff.mp hsome).1
    unfold A2AClient.stateText at hstate
    cases hmember : client.member? (.obj ms) "state" with
    | none => exact .inr (.inr ⟨ms, hget, hmember⟩)
    | some v =>
      rw [hmember] at hstate
      have hgetState := (Option.filter_eq_some_iff.mp hmember).1
      cases v with
      | str s => exact .inl ⟨ms, s, hget, hgetState, hstate⟩
      | null | bool | int | float | arr | obj => exact absurd hstate (hstr _ rfl)
  · cases hstatus

/-- A message that reports a completion reports a task or a status update, which has a state that
stands for it, or none. -/
theorem definite_of_reports {m : Message} {id : String}
    (hstr : ∀ v : Json, v.str? = none → client.stateOf (client.strOf v) ≠ "completed")
    (h : m.Reports client id "completed") : m.Definite ∧ ∃ task, m.task? client = some task ∧
      client.taskIdOf task = id ∧ (Explicit client task ∨ Stateless client task) := by
  obtain ⟨task, status, htask, hstatus, hid, hstate⟩ := h
  refine ⟨fun hjob => ?_, task, htask, hid, explicit_or_stateless hstr hstatus hstate⟩
  by_contra hnot
  rw [not_or, Bool.not_eq_true, Bool.not_eq_true] at hnot
  simp only [Message.task?, hjob] at htask
  obtain ⟨made, hevent, hunwrap⟩ := Option.bind_eq_some_iff.mp htask
  obtain ⟨hmade, hworking⟩ := working_of_artifactUpdate hnot.1 hnot.2 hevent
  rw [hmade] at hunwrap
  obtain rfl := Option.some.inj hunwrap
  rw [hworking] at hstatus
  obtain rfl := Except.ok.inj hstatus
  exact absurd hstate (show "working" ≠ "completed" by decide)

end

/-! ### Runs -/

namespace Wire

variable {disp : BrokerDispatcher} {peer : HermesBrokerPeer} {W W' : Wire}

/-- **The steps of the wire are steps of the broker.** -/
theorem Step.process (h : Wire.Step disp peer W W') :
    W'.broker = W.broker ∨ ∃ act, Process.Step disp W.broker act W'.broker := by
  cases h with
  | @deliver before after new t r message st hmem hphase hrow hdeliver =>
    have hstep := @taskStep_deliver disp _ _ _ _ _ _ (before ++ after) _ W.broker.ledger
      hphase hdeliver
    rcases hstep with rfl | hstep
    · left
      dsimp only
      rw [List.append_assoc, List.singleton_append, ← hmem]
    · have hnext := Process.Step.task hmem hstep
      simp only [List.append_nil] at hnext
      exact .inr ⟨_, hnext⟩
  | quiet h => exact .inr ⟨_, h⟩

/-- A result that waits to be observed was there before, or has just been received. -/
theorem Step.queued (h : Wire.Step disp peer W W') : (∀ m ∈ W.received, m ∈ W'.received) ∧
    ∀ t ∈ W'.broker.tasks, ∀ result, t.phase = .queued result → t ∈ W.broker.tasks ∨
      ∃ m ∈ W'.received, m.key = t.key ∧ m.Reports peer.client result.taskId result.state := by
  cases h with
  | @deliver before after new t r message st hmem hphase hrow hdeliver =>
    refine ⟨fun m hm => List.mem_append_left _ hm, fun t' ht' result hqueued => ?_⟩
    rcases List.mem_append.mp ht' with hin | hin
    · rcases List.mem_append.mp hin with hin | hin
      · exact .inl (by simp [hmem, hin])
      · obtain ⟨hkey, hreports⟩ := reports_of_deliver hphase hdeliver hin hqueued
        exact .inr ⟨_, List.mem_append_right _ (List.mem_singleton_self _), hkey.symm, hreports⟩
    · exact .inl (by simp [hmem, hin])
  | quiet h hquiet =>
    exact ⟨fun _ hm => hm, fun t ht result hphase => .inl (hquiet t ht result hphase)⟩

/-- What the messages received so far report of an operation. -/
def Reported (client : A2AClient) (W : Wire) (k : Key) (id : String) : Prop :=
  ∃ m ∈ W.received, m.key = k ∧ m.Reports client id "completed"

/-- **One step of the wire** keeps every completion backed by what has been received. -/
theorem Step.backed (hinv : W.broker.Inv) (h : W.broker.Backed (Reported peer.client W))
    (hstep : Wire.Step disp peer W W') : W'.broker.Backed (Reported peer.client W') := by
  obtain ⟨hsub, hqueued⟩ := hstep.queued
  have hold : W.broker.Backed (Reported peer.client W') :=
    h.mono fun k id ⟨m, hm, hreports⟩ => ⟨m, hsub m hm, hreports⟩
  rcases hstep.process with hsame | ⟨act, hnext⟩
  · rw [hsame]
    exact hold
  refine hnext.backed hinv hold fun t ht result hphase hstate => ?_
  rcases hqueued t ht result hphase with hbefore | ⟨m, hm, hkey, hreports⟩
  · have hback := hold.tasks t hbefore
    rw [hphase] at hback
    exact hback hstate
  · exact ⟨m, hm, hkey, hstate ▸ hreports⟩

/-- Runs keep the invariants of the broker and of its completions. -/
theorem backed_of_run (h : Reachable disp peer W) :
    W.broker.Inv ∧ W.broker.Backed (Reported peer.client W) := by
  induction h with
  | refl => exact ⟨Process.inv_initial, Process.backed_initial⟩
  | tail _ hstep ih =>
    refine ⟨?_, hstep.backed ih.1 ih.2⟩
    rcases hstep.process with hsame | ⟨act, hnext⟩
    · rw [hsame]
      exact ih.1
    · exact (hnext.disciplined ih.1).2

end Wire

/-- **Where completions come from.** In every run, whatever the peer sends, a completed operation
has a handle, and some event of its stream or reply to a call made for it was about a task with
that identifier, which had a state that stands for a completion, or none at all. An event was one
with a task or a status update. -/
theorem completed_provenance {disp : BrokerDispatcher} {peer : HermesBrokerPeer} {W : Wire}
    (hstr : ∀ v : Json, v.str? = none →
      peer.client.stateOf (peer.client.strOf v) ≠ "completed")
    (hreach : Wire.Reachable disp peer W) {k : Key} {r : OperationRow}
    (hr : W.broker.ledger.operation? k = some r) (hstate : r.state = .completed) :
    ∃ handle, r.remoteTaskId = some handle ∧ ∃ m ∈ W.received, m.key = k ∧ m.Definite ∧
      ∃ task, m.task? peer.client = some task ∧ peer.client.taskIdOf task = handle ∧
        (Explicit peer.client task ∨ Stateless peer.client task) := by
  obtain ⟨-, hback⟩ := Wire.backed_of_run hreach
  obtain ⟨handle, hhandle, -, m, hm, hkey, hreports⟩ := hback.completed k r hr hstate
  obtain ⟨hdefinite, htask⟩ := definite_of_reports hstr hreports
  exact ⟨handle, hhandle, m, hm, hkey, hdefinite, htask⟩

/-! ### A status update that is all a stream sends -/

/-- A client with plain functions in place of those of the standard library. -/
def A2AClient.plain : A2AClient where
  strOf _ := "None"
  dumps _ := "null"
  lower s := String.ofList (s.toList.map Char.toLower)
  nonzero _ := true

/-- The default peer, which maps every flow to one conversation. -/
def HermesBrokerPeer.plain : HermesBrokerPeer :=
  ⟨A2AClient.plain, 16777216, fun _ => true, fun _ => 0⟩

/-- A status update for the task `t`. -/
def statusUpdate (ms : List (String × Json)) : Json :=
  .obj [("statusUpdate", .obj (("taskId", .str "t") :: ms))]

/-- A completed result without artifacts. -/
def updateResult (status : List (String × Json)) : TaskResult :=
  ⟨"t", HermesBrokerPeer.plain.peerContext "laptop" blankRequest.flowId.text, "completed", "", [],
    .obj [("id", .str "t"), ("contextId", .null), ("status", .obj status), ("metadata", .obj [])]⟩

/-- The task that waits for the stream of the one request. -/
def streamTask : Task := ⟨("laptop", 1), .submit, .waiting⟩

/-- A status update that reads as a completion completes the operation. -/
theorem exists_completed {event : Json} {status : List (String × Json)}
    (h : HermesBrokerPeer.plain.deliver blankRequest.flowId streamTask StreamState.initial event =
      ([⟨("laptop", 1), .submit, .queued (updateResult status)⟩], ⟨[], some "t"⟩)) :
    ∃ W r, Wire.Reachable BrokerDispatcher.default HermesBrokerPeer.plain W ∧
      W.received = [⟨("laptop", 1), .submit, event⟩] ∧
      W.broker.ledger.operation? ("laptop", 1) = some r ∧ r.state = .completed := by
  let disp := BrokerDispatcher.default
  let peer := HermesBrokerPeer.plain
  let L := claimedLedger disp.store
  let rpcs : List Rpc := [.sendStreamingMessage ("laptop", 1)]
  have quiet : ∀ {W : Wire} {act : Act} {L : Ledger} {phase : Phase} {rpcs : List Rpc},
      (∀ result, phase ≠ .queued result) → Process.Step disp W.broker act (soleTask L phase rpcs) →
      Wire.Step disp peer W { W with broker := soleTask L phase rpcs } := by
    intro W act L phase rpcs hphase hstep
    refine .quiet hstep fun t ht result hqueued => ?_
    rw [List.mem_singleton.mp ht] at hqueued
    exact absurd hqueued (hphase result)
  have hrun : Wire.Reachable disp peer
      { Wire.initial with broker := soleTask L .waiting rpcs } :=
    ((Relation.ReflTransGen.single (.quiet (step_accept disp) fun _ ht =>
      absurd ht List.not_mem_nil)).tail (quiet (by simp) (step_claim disp))).tail
        (quiet (by simp) (step_start disp L))
  have hdeliver := @Wire.Step.deliver disp peer
    { Wire.initial with broker := soleTask L .waiting rpcs } [] [] _ streamTask
    (claimedRow (blankRow disp.store) 0) event _ rfl rfl rfl h
  obtain ⟨next, hobserve, hnext⟩ := @observe_of_terminal disp (updateResult status)
    (show settles "completed" = true by decide)
    (show ¬ ("completed" = "rejected" ∨ "completed" = "input_required") by decide)
  have hid : "t" ≠ "" := by decide
  have hsave := saveHandle_claimedLedger disp.store hid (show "t".length ≤ 512 by decide)
    (show Storable "t" by decide) rfl
  have hunsettled := unsettled_handledLedger disp.store "t"
  obtain ⟨current, s₂, hget, hfinal, hsame⟩ := exists_get hunsettled
  have hlock := @step_lock disp L (updateResult status)
  rw [hobserve] at hlock
  have hcommit₁ := step_commit disp (p := .saveHandle "t" (.get next)) rfl
    (Tx.map_eq_ok.mpr ⟨(), hsave, rfl⟩)
  have hcommit₂ := step_commit disp (p := .get next) rfl
    (Tx.map_eq_ok.mpr ⟨current, hget, rfl⟩)
  rw [hnext current hfinal, hsame] at hcommit₂
  obtain ⟨⟨r, hr, hopen, hdated⟩, hroom⟩ := hunsettled
  obtain ⟨snap, s₃, hfinish⟩ := Tx.exists_ok (m := disp.store.finish ("laptop", 1) .completed
    (some (.output "" [])) none none)
    (s := ⟨handledLedger disp.store "t", fun _ => 0, fun _ => 0⟩) fun e herr =>
      absurd (finish_eq_error hr hdated (by decide)
        (fun body hbody => Option.some.inj hbody ▸ rfl) herr).2 (not_le_of_gt hroom)
  have hcommit₃ := step_commit disp
    (p := .finish .completed (some (.output "" [])) none none .done) rfl
    (Tx.map_eq_ok.mpr ⟨snap, hfinish, rfl⟩)
  obtain ⟨expires, fresh, now, ⟨hrow, -⟩ | ⟨-, body, hbody, hlarge⟩⟩ :=
    (finish_eq_ok hr hfinish).2 hopen
  · refine ⟨_, _, ((((hrun.tail hdeliver).tail (quiet (by simp) hlock)).tail
      (quiet (by simp) hcommit₁)).tail (quiet (by simp) hcommit₂)).tail
      (quiet (by simp) hcommit₃), rfl, hrow, rfl⟩
  · obtain rfl := Option.some.inj hbody
    exact absurd hlarge (by decide)

theorem completed_provenance_update :
    ∃ W r, Wire.Reachable BrokerDispatcher.default HermesBrokerPeer.plain W ∧
      W.broker.ledger.operation? ("laptop", 1) = some r ∧ r.state = .completed ∧
      ∃ handle, r.remoteTaskId = some handle ∧ ∃ m ∈ W.received, m.key = ("laptop", 1) ∧
        m.Definite ∧ ∃ task, m.task? A2AClient.plain = some task ∧
          A2AClient.plain.taskIdOf task = handle ∧
          (Explicit A2AClient.plain task ∨ Stateless A2AClient.plain task) := by
  have hdeliver : HermesBrokerPeer.plain.deliver blankRequest.flowId streamTask
      StreamState.initial
        (statusUpdate [("status", .obj [("state", .str "TASK_STATE_COMPLETED")])]) =
        ([⟨("laptop", 1), .submit,
          .queued (updateResult [("state", .str "TASK_STATE_COMPLETED")])⟩],
          ⟨[], some "t"⟩) := rfl
  have hstr : A2AClient.plain.stateOf "None" ≠ "completed" := by decide
  obtain ⟨W, r, hreach, -, hr, hstate⟩ := exists_completed hdeliver
  exact ⟨W, r, hreach, hr, hstate, @completed_provenance BrokerDispatcher.default
    HermesBrokerPeer.plain W (fun _ _ => hstr) hreach ("laptop", 1) r hr hstate⟩

/-- **A status update without a status** completes the operation, and no message had a state. -/
theorem stateless_completed :
    ∃ W r, Wire.Reachable BrokerDispatcher.default HermesBrokerPeer.plain W ∧
      W.broker.ledger.operation? ("laptop", 1) = some r ∧ r.state = .completed ∧
      ∀ m ∈ W.received, ∀ task, m.task? A2AClient.plain = some task →
        ¬ Explicit A2AClient.plain task := by
  have hdeliver : HermesBrokerPeer.plain.deliver blankRequest.flowId streamTask
      StreamState.initial (statusUpdate []) =
        ([⟨("laptop", 1), .submit, .queued (updateResult [])⟩], ⟨[], some "t"⟩) := rfl
  obtain ⟨W, r, hreach, hreceived, hr, hstate⟩ := exists_completed hdeliver
  refine ⟨W, r, hreach, hr, hstate, fun m hm task htask => ?_⟩
  rw [hreceived, List.mem_singleton] at hm
  subst hm
  obtain rfl := Option.some.inj htask
  rintro ⟨status, s, hstatus, hs, -⟩
  obtain rfl := Json.obj.inj (Option.some.inj hstatus)
  cases hs

end HermesGateway.Peer
