import HermesGateway.Broker.Shown
import HermesGateway.Client.Merge
import HermesGateway.Client.Rows

/-!
# The final result reaches the client

A client that ingests every event of an operation, in order, is to end up with the definitive
snapshot. It stores the first snapshot of an unknown outcome it sees and from then on only a
definitive one under the same handle. So it matters what the broker has published before: an unknown
outcome without a handle cannot be resolved any more.

The broker saves the handle before it records an outcome, except for a call of `save_handle` that
was left behind by the deadline of a submission or by shutdown and commits after the unknown outcome
was recorded. Without such a call (`Process.PunctualRun`) the final result is never lost; with one
it is.

## Main results

* `awaits_ingest`, `keeps_ingest` — one event
* `final_result_kept` — all events of an operation, in order
* `final_result_lost` — a run that loses the result
-/

namespace HermesGateway.System

open Broker Client ClientStore

/-! ### One event -/

section

variable {store : ClientStore} {σ σ' : Client.Session} {op : Uuid} {r : ClientRow}
  {row : OperationRow} {s p : Snapshot}

/-- The client has no definitive snapshot yet: what it has stored is not terminal, or is an unknown
outcome that was shown. -/
def Awaits (row : OperationRow) (r : ClientRow) : Prop :=
  ¬ Stale r.snapshot ∨
    ∃ p, r.snapshot = some (stored p) ∧ p.state = .outcomeUnknown ∧ Broker.Shown False row p

theorem ne_none_of_terminal (h : Broker.Shown False row s) : s.state.Terminal → s.resultId ≠ none :=
  h.resolved.mp

/-- An unknown outcome is resolved exactly by a definitive snapshot, if the handle was saved
before. -/
theorem exactResolution_of_shown (hp : Broker.Shown False row p) (hs : Broker.Shown False row s)
    (hunknown : p.state = .outcomeUnknown) (hfinal : s.state.Final) :
    ExactResolution (some (stored p)) s.toJson := by
  obtain ⟨hstate, hhandle⟩ := hs.settled hfinal
  have hrow : row.remoteTaskId ≠ none := by
    obtain hrow | ⟨-, hrow⟩ := hp.confirmed hunknown
    · rw [hstate] at hrow
      rw [hrow] at hfinal
      exact absurd hfinal (by decide)
    · exact hrow
  have hsame : row.remoteTaskId = p.remoteTaskId := hp.punctual hunknown id
  have hid : p.resultId = s.resultId := by
    have hp' := hp.resultId (hp.resolved.mp (.inr hunknown))
    exact hp'.symm.trans (hs.resultId (hs.resolved.mp (.inl hfinal)))
  exact (exactResolution_iff s p).mpr
    ⟨hunknown, hfinal, hsame ▸ hrow, hp.nonempty, hsame.symm.trans hhandle, hid⟩

/-- The row after an event of its operation. -/
theorem operation?_ingest {seq : Option ℤ} (hop : s.operationId = op)
    (hr : σ.tables.operation? op = some r) (hexpired : r.expired = false)
    (h : store.ingest s.toJson seq none σ = .ok ((), σ')) :
    ∃ updated expires, σ'.tables.operation? op = some (merged r s.toJson updated expires) := by
  obtain ⟨op', hop', -, -, -, -, u, e, hrows⟩ := acceptSnapshot_eq_ok (ingest_eq_ok h).2
  rw [operationOf_toJson, hop] at hop'
  obtain rfl := Option.some.inj hop'
  refine ⟨u, e, ?_⟩
  rw [hrows op, if_pos rfl, hr, Option.map_some, if_neg (by simp [hexpired])]

/-- An event that is not definitive leaves the client waiting. -/
theorem awaits_merged {u e : Time} (hs : Broker.Shown False row s) (hlive : ¬ s.state.Final)
    (h : Awaits row r) : Awaits row (merged r s.toJson u e) := by
  obtain hfresh | ⟨p, hsnapshot, hunknown, hp⟩ := h
  · have hnot : ¬ Conflicts r.snapshot s.toJson := fun hc => hfresh hc.1
    rw [merged, if_neg hnot, if_pos (show Replaces r.snapshot s.toJson from .inl hfresh)]
    by_cases hterminal : s.state.Terminal
    · exact .inr ⟨s, rfl, hterminal.resolve_left hlive, hs⟩
    · exact .inl ((stale_iff s).not.mpr hterminal)
  · have hexact : ¬ ExactResolution r.snapshot s.toJson := by
      rw [hsnapshot, exactResolution_iff]
      exact fun hexact => hlive hexact.2.1
    have hstale : Stale r.snapshot := by
      rw [hsnapshot, stale_iff]
      exact .inr hunknown
    refine .inr ⟨p, ?_, hunknown, hp⟩
    unfold merged
    split_ifs with hconflict hreplace
    · exact hsnapshot
    · exact absurd hreplace (not_or.mpr ⟨not_not.mpr hstale, hexact⟩)
    · exact hsnapshot

/-- A definitive event is stored. -/
theorem snapshot_merged {u e : Time} (hs : Broker.Shown False row s) (hfinal : s.state.Final)
    (h : Awaits row r) : (merged r s.toJson u e).snapshot = some (stored s) := by
  obtain hfresh | ⟨p, hsnapshot, hunknown, hp⟩ := h
  · have hnot : ¬ Conflicts r.snapshot s.toJson := fun hc => hfresh hc.1
    rw [merged, if_neg hnot, if_pos (show Replaces r.snapshot s.toJson from .inl hfresh)]
    rfl
  · have hexact : ExactResolution r.snapshot s.toJson := by
      rw [hsnapshot]
      exact exactResolution_of_shown hp hs hunknown hfinal
    have hnot : ¬ Conflicts r.snapshot s.toJson := fun hc => hc.2.1 hexact
    rw [merged, if_neg hnot, if_pos (show Replaces r.snapshot s.toJson from .inr hexact)]
    rfl

/-- A definitive snapshot is never replaced. -/
theorem keeps_merged {v : Json} {u e : Time} (hfinal : p.state.Final)
    (h : r.snapshot = some (stored p)) : (merged r v u e).snapshot = some (stored p) := by
  have hstale : Stale r.snapshot := by
    rw [h, stale_iff]
    exact .inl hfinal
  have hexact : ¬ ExactResolution r.snapshot v := by
    rintro ⟨p', hp', hunknown, -⟩
    rw [h] at hp'
    obtain rfl := Option.some.inj hp'
    rw [stateOf_stored] at hunknown
    rw [Option.some.inj hunknown] at hfinal
    exact absurd hfinal (by decide)
  unfold merged
  split_ifs with hconflict hreplace
  · exact h
  · exact absurd hreplace (not_or.mpr ⟨not_not.mpr hstale, hexact⟩)
  · exact h

end

/-! ### All events -/

/-- The client ingests events in order. -/
def ingestAll (store : ClientStore) (events : List EventRow) : ClientTx Unit :=
  events.forM fun e => store.ingest e.snapshot.toJson (some e.sequence) none

section

variable {store : ClientStore} {σ : Client.Session} {op : Uuid} {r : ClientRow} {row : OperationRow}

/-- One event is ingested. -/
theorem ingest_event {e : EventRow} (hs : Broker.Shown False row e.snapshot)
    (hop : row.operationId = op) (hr : σ.tables.operation? op = some r)
    (hflow : r.flowId = row.flowId) (hexpired : r.expired = false) :
    ∃ σ' u t, store.ingest e.snapshot.toJson (some e.sequence) none σ = .ok ((), σ') ∧
      σ'.tables.operation? op = some (merged r e.snapshot.toJson u t) := by
  have hid : e.snapshot.operationId = op := hs.operationId.trans hop
  have hseq : ∀ n : ℤ, some (e.sequence : ℤ) = some n → 0 ≤ n := by
    intro n hn
    rw [← Option.some.inj hn]
    exact Int.natCast_nonneg _
  have hflow' : ∀ r', σ.tables.operation? e.snapshot.operationId = some r' →
      r'.flowId = e.snapshot.flowId := by
    intro r' hr'
    rw [hid, hr] at hr'
    rw [← Option.some.inj hr', hflow, hs.flowId]
  obtain ⟨σ', hingest⟩ := @Reads.ingest store σ _ _ (reads_toJson e.snapshot)
    (ne_none_of_terminal hs) _ hseq hflow'
  obtain ⟨u, t, hrow⟩ := operation?_ingest hid hr hexpired hingest
  exact ⟨σ', u, t, hingest, hrow⟩

/-- All events but the last leave the client waiting, and the last is stored, unless it was
before. -/
theorem ingestAll_events {last : EventRow} (hfinal : last.snapshot.state.Final)
    (hop : row.operationId = op) :
    ∀ {init : List EventRow} {σ : Client.Session} {r : ClientRow},
      (∀ e ∈ init ++ [last], Broker.Shown False row e.snapshot) →
      (∀ e ∈ init, ¬ e.snapshot.state.Final) → σ.tables.operation? op = some r →
      r.flowId = row.flowId → r.expired = false →
      Awaits row r ∨ r.snapshot = some (stored last.snapshot) →
      ∃ σ' r', ingestAll store (init ++ [last]) σ = .ok ((), σ') ∧
        σ'.tables.operation? op = some r' ∧ r'.snapshot = some (stored last.snapshot) := by
  intro init
  induction init with
  | nil =>
    intro σ r hshown _ hr hflow hexpired hsnapshot
    have hs := hshown last List.mem_cons_self
    obtain ⟨σ', u, t, hingest, hrow⟩ := @ingest_event store _ _ _ _ _ hs hop hr hflow hexpired
    refine ⟨σ', _, ?_, hrow, hsnapshot.elim (snapshot_merged hs hfinal) (keeps_merged hfinal)⟩
    change ((store.ingest _ _ _) >>= fun _ => pure ()) σ = _
    rw [Tx.bind_of_ok hingest]
    rfl
  | cons e init ih =>
    intro σ r hshown hlive hr hflow hexpired hsnapshot
    have hs := hshown e List.mem_cons_self
    obtain ⟨σ₁, u, t, hingest, hrow⟩ := @ingest_event store _ _ _ _ _ hs hop hr hflow hexpired
    obtain ⟨σ', r', hrest, hrow', hsnapshot'⟩ :=
      ih (fun e' he' => hshown e' (List.mem_cons_of_mem e he'))
        (fun e' he' => hlive e' (List.mem_cons_of_mem e he')) hrow
        ((merged_columns ..).2.1.trans hflow) ((merged_columns ..).2.2.1.trans hexpired)
        (hsnapshot.imp (awaits_merged hs (hlive e List.mem_cons_self)) (keeps_merged hfinal))
    refine ⟨σ', r', ?_, hrow', hsnapshot'⟩
    change ((store.ingest _ _ _) >>= fun _ => ingestAll store (init ++ [last])) σ = _
    rw [Tx.bind_of_ok hingest, hrest]

end

/-! ### Every run -/

section

variable {disp : BrokerDispatcher} {store : ClientStore} {B : Process} {d : Device} {op : Uuid}
  {last : EventRow} {σ : Client.Session} {r : ClientRow}

/-- The events of an operation, after a run in which no handle came late. -/
theorem events_of_punctualRun (hrun : Process.PunctualRun disp Process.initial B) {k : Key}
    {init : List EventRow} (hevents : B.ledger.eventsFor k = init ++ [last]) :
    (∃ row, row.key = k ∧ ∀ e ∈ init ++ [last], Broker.Shown False row e.snapshot) ∧
      ∀ e ∈ init, ¬ e.snapshot.state.Final := by
  obtain ⟨-, ks, hmoves⟩ := Process.moves_of_punctualRun Process.inv_initial hrun
  have hk := honest_empty.of_trace hmoves k
  have hreach : Process.Reachable disp B := Process.run_of_punctualRun hrun
  have hcourse := (Process.life_of_reachable hreach k).course
  have hpublished : B.ledger.published k = (init ++ [last]).map EventRow.snapshot := by
    rw [← hevents]
    rfl
  rw [hpublished] at hk hcourse
  cases hrow : B.ledger.operation? k with
  | none =>
    rw [hrow] at hk
    exact absurd hk (by simp)
  | some row =>
    rw [hrow] at hk hcourse
    refine ⟨⟨row, key_of_operation? hrow, fun e he => hk.2 _ (List.mem_map_of_mem he)⟩, ?_⟩
    intro e he hefinal
    obtain ⟨before, after, rfl⟩ := List.append_of_mem he
    have hnil := (hcourse.definitive (before.map EventRow.snapshot) e.snapshot
      ((after ++ [last]).map EventRow.snapshot) (by simp) hefinal).1
    exact absurd hnil (by simp)

/-- **The final result is kept.** In every run of the broker that saves no first handle for an
operation of unknown outcome, and for every operation whose last event is definitive: a client that
knows the operation, with no terminal snapshot of it or with that of an event, and ingests its
events in order, has stored the last snapshot in the end. -/
theorem final_result_kept (hrun : Process.PunctualRun disp Process.initial B)
    (hlast : (B.ledger.eventsFor (d, op)).getLast? = some last)
    (hfinal : last.snapshot.state.Final) (hr : σ.tables.operation? op = some r)
    (hflow : r.flowId = last.snapshot.flowId) (hexpired : r.expired = false)
    (hsnapshot : ¬ Stale r.snapshot ∨
      ∃ e ∈ B.ledger.eventsFor (d, op), r.snapshot = some (stored e.snapshot)) :
    ∃ σ' r', ingestAll store (B.ledger.eventsFor (d, op)) σ = .ok ((), σ') ∧
      σ'.tables.operation? op = some r' ∧ r'.snapshot = some (stored last.snapshot) := by
  obtain ⟨init, hevents⟩ := List.getLast?_eq_some_iff.mp hlast
  obtain ⟨⟨row, hkey, hshown⟩, hlive⟩ := events_of_punctualRun hrun hevents
  have hflow' : r.flowId = row.flowId := hflow.trans (hshown last (by simp)).flowId
  rw [hevents] at hsnapshot ⊢
  refine ingestAll_events hfinal (congrArg Prod.snd hkey) hshown hlive hr hflow' hexpired ?_
  obtain hfresh | ⟨e, he, hstored⟩ := hsnapshot
  · exact .inl (.inl hfresh)
  rcases List.mem_append.mp he with hinit | hlast
  · by_cases hterminal : e.snapshot.state.Terminal
    · exact .inl (.inr ⟨_, hstored, hterminal.resolve_left (hlive e hinit), hshown e he⟩)
    · refine .inl (.inl ?_)
      rw [hstored, stale_iff]
      exact hterminal
  · rw [List.mem_singleton.mp hlast] at hstored
    exact .inr hstored

end

/-! ### A run that keeps the result -/

/-- Whether the call a coroutine waits for commits, with an outcome of which `f` holds. -/
def commits (disp : BrokerDispatcher) (k : Key) (p : Prog) (s : Broker.Session)
    (f : Prog → Broker.Session → Bool) : Bool :=
  match disp.call k p with
  | none => false
  | some tx => Tx.succeeds (tx s) f

theorem exists_of_commits {disp : BrokerDispatcher} {k : Key} {p : Prog} {s : Broker.Session}
    {f : Prog → Broker.Session → Bool} (h : commits disp k p s f = true) :
    ∃ tx p' s', disp.call k p = some tx ∧ tx s = .ok (p', s') ∧ f p' s' = true := by
  unfold commits at h
  cases hcall : disp.call k p with
  | none => simp [hcall] at h
  | some tx =>
    rw [hcall] at h
    obtain ⟨p', s', htx, hf⟩ := Tx.exists_of_succeeds h
    exact ⟨tx, p', s', rfl, htx, hf⟩

section

variable {disp : BrokerDispatcher} {B₀ B : Process} {t : Task} {p : Option Prog} {L' : Ledger}
  {new : List Task} {orphans : List (Key × Prog)} {rpcs : List Rpc}

/-- The only task makes a transition. -/
theorem step_task (ht : B.tasks = [t])
    (hstep : TaskStep disp [] B.ledger t p L' new orphans rpcs) :
    Process.Step disp B ((p.map (Act.call t.key)).getD .silent)
      { B with
        ledger := L'
        tasks := new
        orphans := B.orphans ++ orphans
        rpcs := B.rpcs ++ rpcs } := by
  have h := @Process.Step.task disp B [] [] new t p L' orphans rpcs ht hstep
  rwa [List.nil_append, List.append_nil] at h

theorem reachable_task (h : Process.Reachable disp B) (ht : B.tasks = [t])
    (hstep : TaskStep disp [] B.ledger t p L' new orphans rpcs) :
    Process.Reachable disp
      { B with
        ledger := L'
        tasks := new
        orphans := B.orphans ++ orphans
        rpcs := B.rpcs ++ rpcs } :=
  h.tail ⟨_, step_task ht hstep⟩

theorem punctual_task (h : Process.PunctualRun disp B₀ B) (ht : B.tasks = [t])
    (hstep : TaskStep disp [] B.ledger t p L' new orphans rpcs)
    (hlate : ¬ ((p.map (Act.call t.key)).getD .silent).Late B.ledger) :
    Process.PunctualRun disp B₀
      { B with
        ledger := L'
        tasks := new
        orphans := B.orphans ++ orphans
        rpcs := B.rpcs ++ rpcs } :=
  h.tail ⟨_, step_task ht hstep, hlate⟩

variable {clock clock' : ℕ → Time} {uuids uuids' : ℕ → Uuid} {result : TaskResult}

/-- A request is accepted and claimed, and the first result of its stream observed. -/
theorem punctual_submit {request : Request} {reply : Reply} {c : BrokerStore.Claim}
    {s s' : Broker.Session}
    (haccept : disp.store.serve "laptop" request ⟨Ledger.empty, clock, uuids⟩ = .ok (reply, s))
    (hclaim : disp.store.claim ⟨s.ledger, clock', uuids'⟩ = .ok (some c, s'))
    (hid : Job.submit.accepts result = true) :
    Process.PunctualRun disp Process.initial
      ⟨s'.ledger,
        [⟨c.key, .submit, .observing (settles result.state) (disp.observe result)⟩],
        [c.key], [], none, [.sendStreamingMessage c.key], [c.key]⟩ := by
  let B₁ : Process := { Process.initial with ledger := s.ledger }
  let B₂ : Process := ⟨s'.ledger, [⟨c.key, .submit, .created⟩], [c.key], [], none, [], [c.key]⟩
  have hclaimed : Process.PunctualRun disp Process.initial B₂ :=
    (Relation.ReflTransGen.single ⟨_, Process.Step.serve haccept, id⟩).tail ⟨_,
      @Process.Step.claim disp B₁ true c _ _ s' (fun _ => rfl)
        disp.store.settings.maxConcurrentStreams_pos hclaim, id⟩
  exact punctual_task (punctual_task (punctual_task hclaimed rfl (.start rfl) id) rfl
    (.receive rfl hid) id) rfl (.lock rfl (by simp)) id

/-- The one operation that is not resolved is read, and the result observed. -/
theorem punctual_read {row : OperationRow} {handle : String} {s : Broker.Session}
    (hidle : B.tasks = []) (hopen : B.closing = none)
    (hrows : BrokerStore.reconcilable ⟨B.ledger, clock, uuids⟩ = .ok ([row], s))
    (hhandle : row.remoteTaskId = some handle)
    (haccepts : (Job.reconcile handle).accepts result = true) :
    Process.PunctualRun disp B
      { B with
        ledger := s.ledger
        tasks := [⟨row.key, .reconcile handle,
          .observing (settles result.state) (disp.observe result)⟩]
        rpcs := B.rpcs ++ [.getTask row.key handle] } := by
  have hreads : startReads disp.store.settings.maxConcurrentStreams [row] [] =
      [⟨row.key, .reconcile handle, .created⟩] := by
    simp [startReads, hhandle]
  have hlimit : B.count Job.isReconcile < disp.store.settings.maxConcurrentStreams := by
    rw [Process.count, hidle]
    exact disp.store.settings.maxConcurrentStreams_pos
  have hstep := @Process.Step.reconcile disp B true _ _ _ s (fun _ => hopen) hlimit hrows
  rw [if_pos rfl, hidle, hreads] at hstep
  have hstart : Process.PunctualRun disp B
      { B with
        ledger := s.ledger
        tasks := [⟨row.key, .reconcile handle, .created⟩] } :=
    Relation.ReflTransGen.single ⟨_, hstep, id⟩
  have hread := punctual_task (punctual_task (punctual_task hstart rfl (.start rfl) id) rfl
    (.receive rfl haccepts) id) rfl (.lock rfl (by simp)) id
  simpa only [List.append_nil, Job.rpc] using hread

end

/-- The peer reports a state of task `t`. -/
def report (state : String) : TaskResult := ⟨"t", "c", state, "done", [], .null⟩

/-- No first handle is saved for an operation that has one, or whose outcome is not unknown. -/
theorem not_late_of_handled {L : Ledger} {k : Key} {p : Prog}
    (h : (L.operation? k).all fun r =>
      r.state = .outcomeUnknown → r.remoteTaskId.getD "" ≠ "") : ¬ (Act.call k p).Late L := by
  intro hlate
  cases p with
  | saveHandle handle next =>
    obtain ⟨r, hr, hunknown, hblank⟩ := hlate
    rw [hr] at h
    exact of_decide_eq_true h hunknown hblank
  | _ => exact hlate

/-- The broker is restarted while the operation is running under its handle, and its outcome is
unknown; then a read under the handle finds it completed. -/
theorem final_result_kept_recovered :
    ∃ B : Process, Process.PunctualRun ⟨BrokerStore.default, fun _ => "", fun _ => none⟩
        Process.initial B ∧
      (B.ledger.eventsFor ("laptop", 1)).map (fun e => e.snapshot.state) =
        [.accepted, .running, .running, .outcomeUnknown, .completed] ∧
      ∃ σ σ' : Client.Session,
        ingestAll ⟨ClientSettings.default, fun _ => ""⟩ (B.ledger.eventsFor ("laptop", 1)) σ =
            .ok ((), σ') ∧
        ∃ r' last, σ'.tables.operation? 1 = some r' ∧ r'.snapshot = some (stored last) ∧
          last.state = .completed := by
  let disp : BrokerDispatcher := ⟨BrokerStore.default, fun _ => "", fun _ => none⟩
  let store : ClientStore := ⟨ClientSettings.default, fun _ => ""⟩
  let k : Key := ("laptop", 1)
  let handled : Ledger → Bool := fun L =>
    (L.operation? k).all fun r => r.state = .outcomeUnknown → r.remoteTaskId.getD "" ≠ ""
  have hruns : (Tx.succeeds (disp.store.serve "laptop" (.accept (sampleRequest 1 2))
      ⟨Ledger.empty, fun _ => 5, fun _ => 0⟩) fun _ s₁ =>
    Tx.succeeds (disp.store.claim ⟨s₁.ledger, fun _ => 6, fun _ => 0⟩) fun c s₂ =>
      decide (c.map BrokerStore.Claim.key = some k) && handled s₂.ledger &&
    commits disp k (disp.observe (report "working")) ⟨s₂.ledger, fun _ => 7, fun _ => 0⟩ fun _ s₃ =>
    Tx.succeeds (disp.store.recover ⟨s₃.ledger, fun _ => 8, fun _ => 3⟩) fun _ s₄ =>
    Tx.succeeds (BrokerStore.reconcilable ⟨s₄.ledger, fun _ => 9, fun _ => 0⟩) fun rows s₅ =>
      decide ((rows.map fun r => (r.key, r.remoteTaskId)) = [(k, some "t")]) &&
      handled s₅.ledger &&
    commits disp k (disp.observe (report "completed")) ⟨s₅.ledger, fun _ => 10, fun _ => 0⟩
        fun p₆ s₆ => handled s₆.ledger &&
    commits disp k p₆ ⟨s₆.ledger, fun _ => 10, fun _ => 0⟩ fun p₇ s₇ => handled s₇.ledger &&
    commits disp k p₇ ⟨s₇.ledger, fun _ => 10, fun _ => 0⟩ fun _ s₈ =>
      decide ((s₈.ledger.eventsFor k).map (fun e => e.snapshot.state) =
        [.accepted, .running, .running, .outcomeUnknown, .completed]) &&
      (s₈.ledger.eventsFor k).getLast?.any
        (fun e => e.snapshot.state = .completed ∧ e.snapshot.flowId = 2) &&
    Tx.succeeds (store.create ⟨4, 5, "a"⟩ "hello" [] 0
        ⟨Tables.empty, fun _ => 5, fun n => if n = 0 then 1 else 2⟩) fun _ σ =>
      (σ.tables.operation? 1).any fun r => r.flowId = 2 ∧ r.expired = false ∧ r.snapshot = none)
      = true := by decide +kernel
  obtain ⟨_, s₁, h₁, hruns⟩ := Tx.exists_of_succeeds hruns
  obtain ⟨c, s₂, h₂, hruns⟩ := Tx.exists_of_succeeds hruns
  simp only [Bool.and_eq_true_iff] at hruns
  obtain ⟨⟨hclaim, hhandled₂⟩, hruns⟩ := hruns
  obtain ⟨c, rfl, hkey⟩ := Option.map_eq_some_iff.mp (of_decide_eq_true hclaim)
  obtain ⟨tx₃, p₃, s₃, hcall₃, h₃, hruns⟩ := exists_of_commits hruns
  obtain ⟨_, s₄, h₄, hruns⟩ := Tx.exists_of_succeeds hruns
  obtain ⟨rows, s₅, h₅, hruns⟩ := Tx.exists_of_succeeds hruns
  simp only [Bool.and_eq_true_iff] at hruns
  obtain ⟨⟨hrows, hhandled₅⟩, hruns⟩ := hruns
  obtain ⟨tx₆, p₆, s₆, hcall₆, h₆, hruns⟩ := exists_of_commits hruns
  obtain ⟨hhandled₆, hruns⟩ := Bool.and_eq_true_iff.mp hruns
  obtain ⟨tx₇, p₇, s₇, hcall₇, h₇, hruns⟩ := exists_of_commits hruns
  obtain ⟨hhandled₇, hruns⟩ := Bool.and_eq_true_iff.mp hruns
  obtain ⟨tx₈, p₈, s₈, hcall₈, h₈, hruns⟩ := exists_of_commits hruns
  simp only [Bool.and_eq_true_iff] at hruns
  obtain ⟨⟨hstates, hlast⟩, hruns⟩ := hruns
  obtain ⟨last, hlast, hstate⟩ := (Option.any_eq_true _ _).mp hlast
  obtain ⟨hstate, hflow⟩ := of_decide_eq_true hstate
  obtain ⟨_, σ, -, hruns⟩ := Tx.exists_of_succeeds hruns
  obtain ⟨r, hr, hrow⟩ := (Option.any_eq_true _ _).mp hruns
  obtain ⟨hflow', hexpired, hnone⟩ := of_decide_eq_true hrow
  obtain ⟨row, rfl, hrow⟩ := List.map_eq_singleton_iff.mp (of_decide_eq_true hrows)
  obtain ⟨hrowkey, hhandle⟩ := Prod.mk.inj hrow
  -- the handle is saved in time, and the broker is restarted
  have hsaved := punctual_task (@punctual_submit _ _ _ _ _ (report "working") _ _ _ _ _ h₁ h₂ rfl)
    rfl (.commit rfl (hkey ▸ hcall₃) h₃) (hkey ▸ not_late_of_handled hhandled₂)
  let B₄ : Process := ⟨s₄.ledger, [], [], [], none, [.sendStreamingMessage c.key], [c.key]⟩
  have hrecovered : Process.PunctualRun disp Process.initial B₄ :=
    hsaved.tail ⟨_, Process.Step.restart h₄, id⟩
  -- a read finds the result
  have hobserved := hrecovered.trans
    (@punctual_read disp B₄ _ _ (report "completed") _ _ _ rfl rfl h₅ hhandle rfl)
  rw [hrowkey] at hobserved
  have hfinished := punctual_task (punctual_task (punctual_task hobserved rfl
    (.commit rfl hcall₆ h₆) (not_late_of_handled hhandled₅)) rfl
    (.commit rfl hcall₇ h₇) (not_late_of_handled hhandled₆)) rfl
    (.commit rfl hcall₈ h₈) (not_late_of_handled hhandled₇)
  obtain ⟨σ', r', hingest, hr', hsnapshot⟩ := @final_result_kept disp store _ _ _ _ _ _ hfinished
    hlast (by rw [hstate]; decide) hr (hflow'.trans hflow.symm) hexpired
    (.inl (by rw [hnone]; simp [Stale]))
  exact ⟨_, hfinished, of_decide_eq_true hstates, σ, σ', hingest, r', _, hr', hsnapshot, hstate⟩

/-! ### A run that loses the result -/

/-- The deadline of the submission passes while `save_handle` is under way. The unknown outcome is
recorded, then the handle, and a read under the handle finds the operation completed. The client has
stored the unknown outcome without a handle and keeps it. -/
theorem final_result_lost :
    ∃ B : Process, Process.Reachable ⟨BrokerStore.default, fun _ => "", fun _ => none⟩ B ∧
      (B.ledger.eventsFor ("laptop", 1)).map (fun e => e.snapshot.state) =
        [.accepted, .running, .outcomeUnknown, .outcomeUnknown, .completed] ∧
      ∃ (σ σ' : Client.Session) (r r' : ClientRow) (v : Json),
        σ.tables.operation? 1 = some r ∧ r.flowId = 2 ∧ r.expired = false ∧ r.snapshot = none ∧
        ingestAll ⟨ClientSettings.default, fun _ => ""⟩ (B.ledger.eventsFor ("laptop", 1)) σ =
            .ok ((), σ') ∧
        σ'.tables.operation? 1 = some r' ∧ r'.snapshot = some v ∧
        stateOf v = some .outcomeUnknown ∧ member "result" v = .null := by
  let disp : BrokerDispatcher := ⟨BrokerStore.default, fun _ => "", fun _ => none⟩
  let store : ClientStore := ⟨ClientSettings.default, fun _ => ""⟩
  let k : Key := ("laptop", 1)
  have hruns : (Tx.succeeds (disp.store.serve "laptop" (.accept (sampleRequest 1 2))
      ⟨Ledger.empty, fun _ => 5, fun _ => 0⟩) fun _ s₁ =>
    Tx.succeeds (disp.store.claim ⟨s₁.ledger, fun _ => 6, fun _ => 0⟩) fun c s₂ =>
      decide (c.map BrokerStore.Claim.key = some k) &&
    commits disp k BrokerDispatcher.unknown ⟨s₂.ledger, fun _ => 7, fun _ => 3⟩ fun p₃ s₃ =>
      (disp.call k p₃).isNone &&
    commits disp k (disp.observe (report "working")) ⟨s₃.ledger, fun _ => 8, fun _ => 0⟩ fun _ s₄ =>
    Tx.succeeds (BrokerStore.reconcilable ⟨s₄.ledger, fun _ => 9, fun _ => 0⟩) fun rows s₅ =>
      decide ((rows.map fun r => (r.key, r.remoteTaskId)) = [(k, some "t")]) &&
    commits disp k (disp.observe (report "completed")) ⟨s₅.ledger, fun _ => 10, fun _ => 0⟩
        fun p₆ s₆ =>
    commits disp k p₆ ⟨s₆.ledger, fun _ => 10, fun _ => 0⟩ fun p₇ s₇ =>
    commits disp k p₇ ⟨s₇.ledger, fun _ => 10, fun _ => 0⟩ fun _ s₈ =>
      decide ((s₈.ledger.eventsFor k).map (fun e => e.snapshot.state) =
        [.accepted, .running, .outcomeUnknown, .outcomeUnknown, .completed]) &&
    Tx.succeeds (store.create ⟨4, 5, "a"⟩ "hello" [] 0
        ⟨Tables.empty, fun _ => 5, fun n => if n = 0 then 1 else 2⟩) fun _ σ =>
      ((σ.tables.operation? 1).any fun r => r.flowId = 2 ∧ r.expired = false ∧ r.snapshot = none) &&
    Tx.succeeds (ingestAll store (s₈.ledger.eventsFor k) σ) fun _ σ' =>
      (σ'.tables.operation? 1).any fun r => r.snapshot.any fun v =>
        stateOf v = some .outcomeUnknown ∧ member "result" v = .null) = true := by decide +kernel
  obtain ⟨_, s₁, h₁, hruns⟩ := Tx.exists_of_succeeds hruns
  obtain ⟨c, s₂, h₂, hruns⟩ := Tx.exists_of_succeeds hruns
  rw [Bool.and_eq_true_iff] at hruns
  obtain ⟨hclaim, hruns⟩ := hruns
  obtain ⟨c, rfl, hkey⟩ := Option.map_eq_some_iff.mp (of_decide_eq_true hclaim)
  obtain ⟨tx₃, p₃, s₃, hcall₃, h₃, hruns⟩ := exists_of_commits hruns
  obtain ⟨hend, hruns⟩ := Bool.and_eq_true_iff.mp hruns
  obtain ⟨tx₄, _, s₄, hcall₄, h₄, hruns⟩ := exists_of_commits hruns
  obtain ⟨rows, s₅, h₅, hruns⟩ := Tx.exists_of_succeeds hruns
  obtain ⟨hrows, hruns⟩ := Bool.and_eq_true_iff.mp hruns
  obtain ⟨tx₆, p₆, s₆, hcall₆, h₆, hruns⟩ := exists_of_commits hruns
  obtain ⟨tx₇, p₇, s₇, hcall₇, h₇, hruns⟩ := exists_of_commits hruns
  obtain ⟨tx₈, p₈, s₈, hcall₈, h₈, hruns⟩ := exists_of_commits hruns
  obtain ⟨hstates, hruns⟩ := Bool.and_eq_true_iff.mp hruns
  obtain ⟨_, σ, -, hruns⟩ := Tx.exists_of_succeeds hruns
  obtain ⟨hcreated, hruns⟩ := Bool.and_eq_true_iff.mp hruns
  obtain ⟨r, hr, hrow⟩ := (Option.any_eq_true _ _).mp hcreated
  obtain ⟨hflow, hexpired, hnone⟩ := of_decide_eq_true hrow
  obtain ⟨_, σ', hingest, hruns⟩ := Tx.exists_of_succeeds hruns
  obtain ⟨r', hr', hruns⟩ := (Option.any_eq_true _ _).mp hruns
  obtain ⟨v, hv, hruns⟩ := (Option.any_eq_true _ _).mp hruns
  obtain ⟨hunknown, hresult⟩ := of_decide_eq_true hruns
  obtain ⟨row, rfl, hrow⟩ := List.map_eq_singleton_iff.mp (of_decide_eq_true hrows)
  obtain ⟨hrowkey, hhandle⟩ := Prod.mk.inj hrow
  -- the submission is cut off while it saves the handle, and ends with an unknown outcome
  have hlocked := Process.run_of_punctualRun
    (@punctual_submit _ _ _ _ _ (report "working") _ _ _ _ _ h₁ h₂ rfl)
  have hunsaved := reachable_task hlocked rfl (.deadlineInCall rfl rfl)
  have hsettled := reachable_task (reachable_task hunsaved rfl (.settle rfl (hkey ▸ hcall₃) h₃)) rfl
    (.finish (.inr rfl) (hkey ▸ Option.isNone_iff_eq_none.mp hend))
  -- then the call commits after all, and a read finds the result
  let B₄ : Process :=
    ⟨s₄.ledger, [], [c.key], [], none, [.sendStreamingMessage c.key], [c.key]⟩
  have hreach₄ : Process.Reachable disp B₄ :=
    hsettled.tail ⟨_, @Process.Step.orphan disp _ [] [] c.key _ _ tx₄ _ _ s₄ rfl (hkey ▸ hcall₄) h₄⟩
  have hread := hreach₄.trans (Process.run_of_punctualRun
    (@punctual_read disp B₄ _ _ (report "completed") _ _ _ rfl rfl h₅ hhandle rfl))
  rw [hrowkey] at hread
  have hfinished := reachable_task (reachable_task (reachable_task hread rfl
    (.commit rfl hcall₆ h₆)) rfl (.commit rfl hcall₇ h₇)) rfl (.commit rfl hcall₈ h₈)
  exact ⟨_, hfinished, of_decide_eq_true hstates, σ, σ', r, r', v, hr, hflow, hexpired, hnone,
    hingest, hr', hv, hunknown, hresult⟩

end HermesGateway.System
