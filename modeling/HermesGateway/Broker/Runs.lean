import HermesGateway.Broker.Discipline

/-!
# Runs of the broker

The tasks, orphaned calls and streams of a reachable broker are those of operations that were
claimed, so every step makes disciplined moves: requests, dispatch, shutdown and recovery as much
as the transitions of tasks. What follows about the life of an operation, in the modules after
this one, needs nothing else about the process.

## Main definitions

* `Process.Inv` — tasks, orphans and streams are those of claimed operations
* `Process.PunctualRun` — runs in which no first handle is saved for an operation of unknown outcome

## Main results

* `Process.Step.disciplined` — one step makes disciplined moves and keeps the invariant
* `Process.storeRun_of_run` — a run of the broker is a run of the store
* `Process.moves_of_steps` — so does a run
* `Process.life_of_reachable` — every operation of a reachable broker has a disciplined life
-/

namespace HermesGateway.Broker

open BrokerStore BrokerDispatcher

/-! ### Transactions of the handlers and of the dispatcher -/

section

variable {store : BrokerStore} {s s' : Session} {late : Prop}

/-- A handler makes disciplined moves. -/
theorem serve_moves {d : Device} {request : Request} {reply : Reply}
    (h : store.serve d request s = .ok (reply, s')) :
    ∃ ks, BrokerMoves late s.ledger ks s'.ledger := by
  cases request with
  | accept request =>
    obtain ⟨_, hm, -⟩ := Tx.map_eq_ok.mp h
    exact brokerMoves_of_publishes (accept_publishes hm)
  | get operation =>
    obtain ⟨_, hm, -⟩ := Tx.map_eq_ok.mp h
    exact brokerMoves_of_publishes (get_publishes hm)
  | cancel operation =>
    obtain ⟨_, hm, -⟩ := Tx.map_eq_ok.mp h
    refine brokerMoves_of_publishes (cancelIntent_publishes ?_ hm)
    intro L r now expires fresh _ _
    exact ⟨fun haccepted => known_unclaimed haccepted (.inl rfl),
      fun _ => ⟨trivial, fun _ _ hne => by cases hne⟩⟩
  | events after =>
    obtain ⟨_, hm, -⟩ := Tx.map_eq_ok.mp h
    exact brokerMoves_of_publishes (events_publishes hm)
  | receipt operation resultId status =>
    obtain ⟨_, hm, -⟩ := Tx.map_eq_ok.mp h
    exact brokerMoves_of_publishes (receipt_publishes hm)
  | upload content digest contentType =>
    obtain ⟨_, hm, -⟩ := Tx.map_eq_ok.mp h
    exact brokerMoves_of_publishes (putArtifact_publishes hm)
  | download artifact =>
    obtain ⟨_, t, hm, hret⟩ := Tx.bind_eq_ok.mp h
    obtain ⟨-, rfl⟩ := Prod.mk.inj (Tx.pure_eq_ok.mp hret)
    exact brokerMoves_of_publishes (artifact_advances hm).publishes

/-- The row read back for a candidate is the candidate, and its flow is free. -/
theorem candidate_free {L L' : Ledger} {chosen r : OperationRow}
    (hkeyed : Table.Keyed OperationRow.key L.operations) (hcand : candidate L = some chosen)
    (hops : L'.operations = L.operations) (hr : L'.operation? chosen.key = some r) :
    r = chosen ∧ ∀ active ∈ L'.operations,
      active.deviceId = r.deviceId → active.flowId = r.flowId → ¬ active.Active := by
  obtain ⟨hmem, hfree⟩ := List.mem_filter.mp (candidate_mem hcand)
  obtain ⟨-, -, hnone⟩ := of_decide_eq_true hfree
  have hlook : L.operation? chosen.key = some chosen := hkeyed.mem_iff_lookup.mp hmem
  rw [Ledger.operation?, hops] at hr
  obtain rfl := Option.some.inj (hlook.symm.trans hr)
  refine ⟨rfl, fun active hactive hdevice hflow hbusy => hnone ?_⟩
  exact ⟨active, hops ▸ hactive, hdevice, hflow, hbusy⟩

/-- `claim` finds the flow of what it claims free. -/
theorem claim_moves {c : Option Claim} (hkeyed : Table.Keyed OperationRow.key s.ledger.operations)
    (h : store.claim s = .ok (c, s')) : ∃ ks, BrokerMoves late s.ledger ks s'.ledger := by
  refine brokerMoves_of_publishes (claim_publishes ?_ h)
  intro L chosen r hcand hops hr haccepted t t' expires fresh
  obtain ⟨-, hfree⟩ := candidate_free hkeyed hcand hops hr
  exact ⟨⟨hfree, fun _ _ hne => by cases hne⟩, known_unclaimed haccepted (.inr rfl),
    known_unclaimed haccepted (.inr rfl)⟩

/-- What `claim` returns is in a payload of an operation that was accepted, and is running now. -/
theorem claimed_row {c : Claim}
    (hkeyed : Table.Keyed OperationRow.key s.ledger.operations) (hqueued : Queued s.ledger)
    (h : store.claim s = .ok (some c, s')) :
    ∃ r now, s.ledger.operation? c.key = some r ∧ r.state = .accepted ∧
      s'.ledger.operation? c.key = some (claimedRow r now) ∧
      ∃ p ∈ s.ledger.payloads, p.key = c.key ∧ p.request = c.request := by
  rcases claim_eq_ok hkeyed hqueued.payload h with ⟨-, hnone, -⟩ | hchosen
  · cases hnone
  obtain ⟨r, r', hcand, hr', ⟨x, now, hx, ⟨hkey, hpayload⟩, rfl⟩ | ⟨hnone, -⟩⟩ := hchosen
  · obtain rfl := Option.some.inj hx
    obtain ⟨hmem, hfree⟩ := List.mem_filter.mp (candidate_mem hcand)
    rw [hkey]
    exact ⟨r, now, hkeyed.mem_iff_lookup.mp hmem, (of_decide_eq_true hfree).1, hr', hpayload⟩
  · cases hnone

/-- `recover` records unknown outcomes of operations that were running. -/
theorem recover_moves (hkeyed : Table.Keyed OperationRow.key s.ledger.operations)
    (h : store.recover s = .ok ((), s')) : ∃ ks, BrokerMoves late s.ledger ks s'.ledger := by
  refine brokerMoves_of_publishes (recover_publishes ?_ h)
  intro k hk ks L r hmoves hr hfinal expires fresh now
  obtain ⟨running, hrunning, rfl⟩ := List.mem_map.mp hk
  obtain ⟨hmem, hstate⟩ := List.mem_filter.mp hrunning
  have hsub : Submitted s.ledger running.key := by
    refine ⟨running, hkeyed.mem_iff_lookup.mp hmem, ?_⟩
    rw [of_decide_eq_true hstate]
    decide
  exact known_finish ((hsub.of_trace hmoves).claimed hr) (fun _ => rfl)
    (fun h => absurd h (by decide)) (unmixed_none _)

/-- A row that is running or of unknown outcome, and has a handle. -/
theorem submitted_of_active {L : Ledger} {k : Key} {r : OperationRow}
    (hr : L.operation? k = some r) (hactive : r.Active) : Submitted L k := by
  refine ⟨r, hr, fun haccepted => ?_⟩
  rcases hactive with h | h <;> simp [haccepted] at h

end

/-! ### The lists of tasks and calls -/

/-- A member of a list is the one the list was split at, or among the others. -/
theorem mem_split {α : Type*} {l before after : List α} {x y : α} (hl : l = before ++ x :: after) :
    y ∈ l ↔ y = x ∨ y ∈ before ++ after := by
  rw [hl]
  simp only [List.mem_append, List.mem_cons]
  tauto

/-- What the loop of `step` appends: reads of rows that have a handle, not started yet. -/
theorem startReads_eq {limit : ℕ} {rows : List OperationRow} : ∀ tasks : List Task,
    ∃ new, startReads limit rows tasks = tasks ++ new ∧ ∀ t ∈ new, ∃ r ∈ rows, ∃ handle,
      r.remoteTaskId = some handle ∧ t = ⟨r.key, .reconcile handle, .created⟩ := by
  induction rows with
  | nil => exact fun tasks => ⟨[], (List.append_nil tasks).symm, by simp⟩
  | cons r rest ih =>
    intro tasks
    have hrest (tasks : List Task) : ∃ new, startReads limit rest tasks = tasks ++ new ∧
        ∀ t ∈ new, ∃ r' ∈ r :: rest, ∃ handle, r'.remoteTaskId = some handle ∧
          t = ⟨r'.key, .reconcile handle, .created⟩ := by
      obtain ⟨new, heq, hnew⟩ := ih tasks
      exact ⟨new, heq, fun t ht => (hnew t ht).imp fun r' h => ⟨List.mem_cons_of_mem r h.1, h.2⟩⟩
    rw [startReads]
    split_ifs
    · exact hrest tasks
    · cases hhandle : r.remoteTaskId with
      | none => exact hrest tasks
      | some handle =>
        dsimp only
        split_ifs
        · refine ⟨_, rfl, fun t ht => ?_⟩
          exact ⟨r, List.mem_cons_self, handle, hhandle, List.mem_singleton.mp ht⟩
        · obtain ⟨new, heq, hnew⟩ := hrest (tasks ++ [⟨r.key, .reconcile handle, .created⟩])
          refine ⟨⟨r.key, .reconcile handle, .created⟩ :: new, by rw [heq]; simp, fun t ht => ?_⟩
          rcases List.mem_cons.mp ht with rfl | ht
          · exact ⟨r, List.mem_cons_self, handle, hhandle, rfl⟩
          · exact hnew t ht

/-- A task after that loop was there before, or is one of those reads. -/
theorem mem_startReads {limit : ℕ} {rows : List OperationRow} {tasks : List Task} {t : Task}
    (h : t ∈ startReads limit rows tasks) : t ∈ tasks ∨ ∃ r ∈ rows, ∃ handle,
      r.remoteTaskId = some handle ∧ t = ⟨r.key, .reconcile handle, .created⟩ := by
  obtain ⟨new, heq, hnew⟩ := @startReads_eq limit rows tasks
  rw [heq] at h
  exact (List.mem_append.mp h).imp_right (hnew t)

/-- What a shutdown makes of a task. -/
theorem eq_of_mem_canceled {t t' : Task} (h : t' ∈ t.canceled) :
    t' = { t with phase := .settling unknown } := by
  unfold Task.canceled at h
  split at h
  case h_5 => exact absurd h List.not_mem_nil
  all_goals exact List.mem_singleton.mp h

/-- The call a shutdown takes a task away from. -/
theorem phase_of_mem_abandoned {t : Task} {x : Key × Prog} (h : x ∈ t.abandoned) :
    x.1 = t.key ∧
      ((∃ terminal, t.phase = .observing terminal x.2) ∨ t.phase = .ending x.2 ∨
        t.phase = .settling x.2) := by
  unfold Task.abandoned at h
  cases hphase : t.phase with
  | created | waiting | queued => simp [hphase] at h
  | observing terminal p =>
    rw [hphase] at h
    rw [List.mem_singleton.mp h]
    exact ⟨rfl, .inl ⟨terminal, rfl⟩⟩
  | ending p =>
    rw [hphase] at h
    rw [List.mem_singleton.mp h]
    exact ⟨rfl, .inr (.inl rfl)⟩
  | settling p =>
    rw [hphase] at h
    rw [List.mem_singleton.mp h]
    exact ⟨rfl, .inr (.inr rfl)⟩

/-! ### The invariant -/

/-- The operations of tasks, orphaned calls and streams were claimed. -/
structure Process.Inv (B : Process) : Prop where
  keyed : Table.Keyed OperationRow.key B.ledger.operations
  queued : Queued B.ledger
  tasks : ∀ t ∈ B.tasks, t.Ok B.ledger
  orphans : ∀ x ∈ B.orphans, Submitted B.ledger x.1 ∧ x.2.Ok B.ledger x.1
  streams : ∀ k ∈ B.streams, Submitted B.ledger k
  closing : ∀ ks, B.closing = some ks → ∀ k ∈ ks, Submitted B.ledger k

namespace Process

variable {disp : BrokerDispatcher} {B B' : Process} {act : Act} {late : Prop} {L' : Ledger}
  {ks : List Key}

theorem inv_initial : initial.Inv where
  keyed := keyed_empty
  queued := queued_empty
  tasks _ h := absurd h List.not_mem_nil
  orphans _ h := absurd h List.not_mem_nil
  streams _ h := absurd h List.not_mem_nil
  closing _ h := by cases h

/-- Moves of the ledger keep the invariant. -/
theorem Inv.of_trace (h : B.Inv) (hmoves : BrokerMoves late B.ledger ks L') :
    Inv { B with ledger := L' } where
  keyed := keyed_of_trace hmoves h.keyed
  queued := queued_of_trace hmoves h.queued
  tasks t ht := (h.tasks t ht).of_trace hmoves
  orphans x hx := ⟨(h.orphans x hx).1.of_trace hmoves, (h.orphans x hx).2.of_trace hmoves⟩
  streams k hk := (h.streams k hk).of_trace hmoves
  closing ks hks k hk := (h.closing ks hks k hk).of_trace hmoves

/-- A call a shutdown takes a task away from may go on. -/
theorem abandoned_ok {L : Ledger} {t : Task} (h : t.Ok L) {x : Key × Prog}
    (hx : x ∈ t.abandoned) : Submitted L x.1 ∧ x.2.Ok L x.1 := by
  obtain ⟨hkey, hphase⟩ := phase_of_mem_abandoned hx
  rw [hkey]
  refine ⟨h.submitted, ?_⟩
  have hok := h.phase
  rcases hphase with ⟨terminal, hphase⟩ | hphase | hphase
  · exact (hphase ▸ hok : (Phase.observing terminal x.2).Ok L t.key).prog
  · exact .inr (.inr (hphase ▸ hok : (Phase.ending x.2).Ok L t.key))
  · exact (hphase ▸ hok : (Phase.settling x.2).Ok L t.key).settling_prog

/-- **One step of the broker** makes disciplined moves and keeps the invariant. -/
theorem Step.disciplined (hinv : B.Inv) (h : Step disp B act B') :
    (∃ ks, BrokerMoves (act.Late B.ledger) B.ledger ks B'.ledger) ∧ B'.Inv := by
  cases h with
  | serve h =>
    obtain ⟨ks, hmoves⟩ := serve_moves h
    exact ⟨⟨ks, hmoves⟩, hinv.of_trace hmoves⟩
  | purge h =>
    obtain ⟨ks, hmoves⟩ := brokerMoves_of_publishes (purge_publishes h)
    exact ⟨⟨ks, hmoves⟩, hinv.of_trace hmoves⟩
  | reap hmem =>
    exact ⟨⟨[], Trace.nil⟩,
      { hinv with streams := fun k hk => hinv.streams k ((mem_split hmem).mpr (.inr hk)) }⟩
  | @claimCancel heard c clock uuids s' hopen hlimit h =>
    obtain ⟨hpub, hwanted⟩ := claimCancel_publishes hinv.keyed h
    obtain ⟨ks, hmoves⟩ := brokerMoves_of_publishes hpub
    refine ⟨⟨ks, hmoves⟩, { hinv.of_trace hmoves with tasks := fun t ht => ?_ }⟩
    rcases List.mem_append.mp ht with ht | ht
    · exact (hinv.tasks t ht).of_trace hmoves
    · cases heard with
      | false => exact absurd ht List.not_mem_nil
      | true =>
        obtain ⟨x, hx, rfl⟩ := Option.map_eq_some_iff.mp (Option.mem_toList.mp ht)
        obtain ⟨r, hr, ⟨-, -, hsome, hactive⟩, -, -⟩ := hwanted x hx
        have hsub := submitted_of_active hr hactive
        have hsaved : Saved B.ledger x.1 := ⟨r, hr, .inl hsome⟩
        exact ⟨hsub.of_trace hmoves, fun _ => hsaved.of_trace hmoves, trivial⟩
  | @reconcile heard rows clock uuids s' hopen hlimit h =>
    obtain ⟨rfl, hpub⟩ := reconcilable_publishes h
    obtain ⟨ks, hmoves⟩ := brokerMoves_of_publishes hpub
    refine ⟨⟨ks, hmoves⟩, { hinv.of_trace hmoves with tasks := fun t ht => ?_ }⟩
    rcases mem_startReads ht with ht | ⟨r, hr, handle, -, rfl⟩
    · exact (hinv.tasks t ht).of_trace hmoves
    · cases heard with
      | false => exact absurd hr List.not_mem_nil
      | true =>
        have hsort := List.mem_of_mem_take hr
        rw [List.mem_insertionSort] at hsort
        obtain ⟨hmem, hunresolved⟩ := List.mem_filter.mp hsort
        obtain ⟨hactive, hsome⟩ := of_decide_eq_true hunresolved
        have hlook : B.ledger.operation? r.key = some r := hinv.keyed.mem_iff_lookup.mp hmem
        have hsub := submitted_of_active hlook hactive
        have hsaved : Saved B.ledger r.key := ⟨r, hlook, .inl hsome⟩
        exact ⟨hsub.of_trace hmoves, fun _ => hsaved.of_trace hmoves, trivial⟩
  | unclaimed hlimit h =>
    obtain ⟨ks, hmoves⟩ := claim_moves hinv.keyed h
    exact ⟨⟨ks, hmoves⟩, hinv.of_trace hmoves⟩
  | @claim heard c clock uuids s' hopen hlimit h =>
    obtain ⟨ks, hmoves⟩ := claim_moves hinv.keyed h
    have hsub : Submitted s'.ledger c.key := by
      obtain ⟨r, now, -, -, hr', -⟩ := claimed_row hinv.keyed hinv.queued h
      exact ⟨_, hr', by simp [claimedRow]⟩
    refine ⟨⟨ks, hmoves⟩, { hinv.of_trace hmoves with tasks := ?_, streams := ?_ }⟩
    · intro t ht
      rcases List.mem_append.mp ht with ht | ht
      · exact (hinv.tasks t ht).of_trace hmoves
      · cases heard with
        | false => exact absurd ht List.not_mem_nil
        | true =>
          rw [List.mem_singleton.mp ht]
          exact ⟨hsub, fun hne => absurd rfl hne, trivial⟩
    · intro k hk
      rcases List.mem_append.mp hk with hk | hk
      · exact (hinv.streams k hk).of_trace hmoves
      · cases heard with
        | false => exact absurd hk List.not_mem_nil
        | true =>
          rw [List.mem_singleton.mp hk]
          exact hsub
  | @task before after new t p L' orphans rpcs hmem h =>
    have ht : t.Ok B.ledger := hinv.tasks t (by simp [hmem])
    obtain ⟨⟨ks, hmoves⟩, hnew, horphans⟩ := h.disciplined ht
    refine ⟨⟨ks, hmoves⟩, { hinv.of_trace hmoves with tasks := ?_, orphans := ?_ }⟩
    · intro t' ht'
      rcases List.mem_append.mp ht' with ht' | ht'
      · rcases List.mem_append.mp ht' with ht' | ht'
        · exact (hinv.tasks t' (by simp [hmem, ht'])).of_trace hmoves
        · exact hnew t' ht'
      · exact (hinv.tasks t' (by simp [hmem, ht'])).of_trace hmoves
    · intro x hx
      rcases List.mem_append.mp hx with hx | hx
      · exact ((hinv.of_trace hmoves).orphans x hx)
      · obtain ⟨hkey, hok⟩ := horphans x hx
        rw [hkey]
        exact ⟨ht.submitted.of_trace hmoves, hok⟩
  | @orphan before after k p p' tx clock uuids s' hmem hcall h =>
    obtain ⟨hsub, hok⟩ := hinv.orphans (k, p) (by simp [hmem])
    obtain ⟨⟨ks, hmoves⟩, -⟩ := call_disciplined hsub hok hcall h
    refine ⟨⟨ks, hmoves⟩, { hinv.of_trace hmoves with orphans := fun x hx => ?_ }⟩
    exact (hinv.of_trace hmoves).orphans x ((mem_split hmem).mpr (.inr hx))
  | @forget before after x hmem =>
    exact ⟨⟨[], Trace.nil⟩,
      { hinv with orphans := fun x hx => hinv.orphans x ((mem_split hmem).mpr (.inr hx)) }⟩
  | shutdown hopen =>
    refine ⟨⟨[], Trace.nil⟩, { hinv with tasks := ?_, orphans := ?_, closing := ?_ }⟩
    · intro t ht
      obtain ⟨t', ht', hmem⟩ := List.mem_flatMap.mp ht
      rw [eq_of_mem_canceled hmem]
      exact (hinv.tasks t' ht').next (.inr unknown_mild)
    · intro x hx
      rcases List.mem_append.mp hx with hx | hx
      · exact hinv.orphans x hx
      · obtain ⟨t', ht', hmem⟩ := List.mem_flatMap.mp hx
        exact abandoned_ok (hinv.tasks t' ht') hmem
    · intro ks hks
      obtain rfl := Option.some.inj hks
      exact hinv.streams
  | @sweep k rest hclosing hgone =>
    refine ⟨⟨[], Trace.nil⟩, { hinv with tasks := ?_, closing := ?_ }⟩
    · intro t ht
      rw [List.mem_singleton.mp ht]
      exact ⟨hinv.closing _ hclosing k List.mem_cons_self, fun hne => absurd rfl hne,
        .inr sweep_mild⟩
    · intro ks hks k' hk'
      obtain rfl := Option.some.inj hks
      exact hinv.closing _ hclosing k' (List.mem_cons_of_mem k hk')
  | restart h =>
    obtain ⟨ks, hmoves⟩ := recover_moves hinv.keyed h
    refine ⟨⟨ks, hmoves⟩, ?_⟩
    exact
      { keyed := keyed_of_trace hmoves hinv.keyed
        queued := queued_of_trace hmoves hinv.queued
        tasks := fun _ ht => absurd ht List.not_mem_nil
        orphans := fun _ hx => absurd hx List.not_mem_nil
        streams := fun _ hk => absurd hk List.not_mem_nil
        closing := fun _ hks => by cases hks }

/-! ### Steps as transactions -/

/-- The ledger before and after a method that was committed, under a clock. -/
def Performs (store : BrokerStore) (clock : ℕ → Time) (x : Transaction) (L L' : Ledger) : Prop :=
  ∃ uuids s', store.perform x ⟨L, clock, uuids⟩ = .ok ((), s') ∧ s'.ledger = L'

section

variable {store : BrokerStore} {s s' : Session}

/-- A method that succeeds is committed. -/
theorem performs_of_ok {α : Type} {m : StoreTx α} {a : α} {x : Transaction}
    (hx : store.perform x = (do let _ ← m)) (h : m s = .ok (a, s')) :
    Performs store s.clock x s.ledger s'.ledger := by
  refine ⟨s.uuids, s', ?_, rfl⟩
  rw [hx, Tx.bind_of_ok h]
  rfl

/-- A handler runs one method, and `accept` for nothing but the request to do so. -/
theorem performs_of_serve {d : Device} {request : Request} {reply : Reply}
    (h : store.serve d request s = .ok (reply, s')) :
    ∃ x, Performs store s.clock x s.ledger s'.ledger ∧
      ∀ d' r, x = .accept d' r → d' = d ∧ request = .accept r := by
  cases request with
  | accept request =>
    obtain ⟨_, hm, -⟩ := Tx.map_eq_ok.mp h
    refine ⟨.accept d request, performs_of_ok rfl hm, fun d' r hx => ?_⟩
    obtain ⟨rfl, rfl⟩ := Transaction.accept.inj hx
    exact ⟨rfl, rfl⟩
  | get operation =>
    obtain ⟨_, hm, -⟩ := Tx.map_eq_ok.mp h
    exact ⟨.get (d, operation), performs_of_ok rfl hm, fun _ _ hx => by cases hx⟩
  | cancel operation =>
    obtain ⟨_, hm, -⟩ := Tx.map_eq_ok.mp h
    exact ⟨.cancelIntent (d, operation), performs_of_ok rfl hm, fun _ _ hx => by cases hx⟩
  | events after =>
    obtain ⟨_, hm, -⟩ := Tx.map_eq_ok.mp h
    exact ⟨.events d after 100, performs_of_ok rfl hm, fun _ _ hx => by cases hx⟩
  | receipt operation resultId status =>
    obtain ⟨_, hm, -⟩ := Tx.map_eq_ok.mp h
    exact ⟨.receipt (d, operation) resultId status, ⟨_, _, hm, rfl⟩, fun _ _ hx => by cases hx⟩
  | upload content digest contentType =>
    obtain ⟨_, hm, -⟩ := Tx.map_eq_ok.mp h
    exact ⟨.putArtifact d content digest contentType, performs_of_ok rfl hm,
      fun _ _ hx => by cases hx⟩
  | download artifact =>
    obtain ⟨_, t, hm, hret⟩ := Tx.bind_eq_ok.mp h
    obtain ⟨-, rfl⟩ := Prod.mk.inj (Tx.pure_eq_ok.mp hret)
    exact ⟨.artifact d artifact, performs_of_ok rfl hm, fun _ _ hx => by cases hx⟩

/-- A call of a coroutine runs one method, which is not `accept`. -/
theorem performs_of_call {disp : BrokerDispatcher} {k : Key} {p p' : Prog} {tx : StoreTx Prog}
    (hcall : disp.call k p = some tx) (h : tx s = .ok (p', s')) :
    ∃ x, Performs disp.store s.clock x s.ledger s'.ledger ∧ ∀ d r, x ≠ .accept d r := by
  cases commits_of_call hcall h with
  | @saveHandle handle next hm =>
    exact ⟨.saveHandle k handle, ⟨_, _, hm, rfl⟩, fun _ _ hx => by cases hx⟩
  | get hm => exact ⟨.get k, performs_of_ok rfl hm, fun _ _ hx => by cases hx⟩
  | @putArtifact content digest contentType next d hm =>
    exact ⟨.putArtifact k.1 content digest contentType, performs_of_ok rfl hm,
      fun _ _ hx => by cases hx⟩
  | @finish state result code message next snap hm =>
    exact ⟨.finish k state result code message, performs_of_ok rfl hm, fun _ _ hx => by cases hx⟩

end

/-- A step of the broker runs one method of the store, or none, and `accept` for nothing but the
request to do so. -/
theorem Step.performs (h : Step disp B act B') :
    B'.ledger = B.ledger ∨ ∃ clock x, Performs disp.store clock x B.ledger B'.ledger ∧
      ∀ d r, x = .accept d r → ∃ reply, act = .serve d (.accept r) reply := by
  have called {k : Key} {p p' : Prog} {tx : StoreTx Prog} {s s' : Session}
      (hcall : disp.call k p = some tx) (h : tx s = .ok (p', s')) :
      ∃ clock x, Performs disp.store clock x s.ledger s'.ledger ∧
        ∀ d r, x = .accept d r → ∃ reply, act = .serve d (.accept r) reply := by
    obtain ⟨x, hx, hnot⟩ := performs_of_call hcall h
    exact ⟨s.clock, x, hx, fun d r haccept => absurd haccept (hnot d r)⟩
  cases h with
  | serve h =>
    obtain ⟨x, hx, haccept⟩ := performs_of_serve h
    refine .inr ⟨_, x, hx, fun d r heq => ?_⟩
    obtain ⟨rfl, rfl⟩ := haccept d r heq
    exact ⟨_, rfl⟩
  | purge h => exact .inr ⟨_, .purge, ⟨_, _, h, rfl⟩, fun _ _ hx => by cases hx⟩
  | claimCancel _ _ h =>
    exact .inr ⟨_, .claimCancel, performs_of_ok rfl h, fun _ _ hx => by cases hx⟩
  | reconcile _ _ h =>
    exact .inr ⟨_, .reconcilable, performs_of_ok rfl h, fun _ _ hx => by cases hx⟩
  | unclaimed _ h => exact .inr ⟨_, .claim, performs_of_ok rfl h, fun _ _ hx => by cases hx⟩
  | claim _ _ h => exact .inr ⟨_, .claim, performs_of_ok rfl h, fun _ _ hx => by cases hx⟩
  | task hmem h =>
    cases h with
    | commit _ hcall htx | commitEnding _ hcall htx | settle _ hcall htx =>
      exact .inr (called hcall htx)
    | _ => exact .inl rfl
  | orphan hmem hcall h => exact .inr (called hcall h)
  | restart h => exact .inr ⟨_, .recover, ⟨_, _, h, rfl⟩, fun _ _ hx => by cases hx⟩
  | reap | forget | shutdown | sweep => exact .inl rfl

/-- A step of the broker is a step of the store, or leaves the ledger alone. -/
theorem Step.storeStep (h : Step disp B act B') :
    B'.ledger = B.ledger ∨ StoreStep disp.store B.ledger B'.ledger :=
  h.performs.imp_right fun ⟨clock, x, hx, _⟩ => ⟨x, clock, hx⟩

/-- The ledger of a run of the broker is reached by a run of the store. -/
theorem storeRun_of_run (h : Run disp B B') : StoreRun disp.store B.ledger B'.ledger := by
  induction h with
  | refl => exact Relation.ReflTransGen.refl
  | tail _ hlast ih =>
    obtain ⟨act, hact⟩ := hlast
    rcases hact.storeStep with heq | hstep
    · rw [heq]
      exact ih
    · exact ih.tail hstep

/-! ### Runs -/

/-- What is known of an edit may be forgotten. -/
theorem brokerMoves_mono {late' : Prop} (hle : late → late') {L : Ledger}
    (h : BrokerMoves late L ks L') : BrokerMoves late' L ks L' := by
  refine h.mono fun hmove => ?_
  cases hmove with
  | device hnew => exact .device hnew
  | insert hnew hdev hread => exact .insert hnew hdev hread
  | edit hrow hdev hallowed hknown hread =>
    exact .edit hrow hdev hallowed ⟨hknown.1, fun _ _ he hs => hle (hknown.2 _ _ he hs)⟩ hread
  | poll => exact .poll
  | cancelClaim hrow hwanted => exact .cancelClaim hrow hwanted
  | purgeEvents hlast => exact .purgeEvents hlast
  | receipt hrow hresult hnew => exact .receipt hrow hresult hnew
  | dropArtifacts => exact .dropArtifacts
  | putArtifact hsize => exact .putArtifact hsize
  | purge hread => exact .purge hread

/-- Runs whose steps save no first handle for an operation of unknown outcome. -/
abbrev PunctualRun (disp : BrokerDispatcher) : Process → Process → Prop :=
  Relation.ReflTransGen fun B B' => ∃ act, Step disp B act B' ∧ ¬ act.Late B.ledger

theorem run_of_punctualRun (h : PunctualRun disp B B') : Run disp B B' :=
  Relation.ReflTransGen.mono (fun _ _ ⟨act, hact, _⟩ => ⟨act, hact⟩) _ _ h

/-- A run makes disciplined moves and keeps the invariant. -/
theorem moves_of_steps {step : Process → Process → Prop}
    (hstep : ∀ B B', step B B' → ∃ act, Step disp B act B' ∧ (act.Late B.ledger → late))
    (hinv : B.Inv) (h : Relation.ReflTransGen step B B') :
    B'.Inv ∧ ∃ ks, BrokerMoves late B.ledger ks B'.ledger := by
  induction h with
  | refl => exact ⟨hinv, [], Trace.nil⟩
  | tail _ hlast ih =>
    obtain ⟨hinv', ks, hmoves⟩ := ih
    obtain ⟨act, hact, hlate⟩ := hstep _ _ hlast
    obtain ⟨⟨ks', hmoves'⟩, hinv''⟩ := hact.disciplined hinv'
    exact ⟨hinv'', ks ++ ks', hmoves.trans (brokerMoves_mono hlate hmoves')⟩

theorem moves_of_run (hinv : B.Inv) (h : Run disp B B') :
    B'.Inv ∧ ∃ ks, BrokerMoves True B.ledger ks B'.ledger :=
  moves_of_steps (fun _ _ ⟨act, hact⟩ => ⟨act, hact, fun _ => trivial⟩) hinv h

theorem moves_of_punctualRun (hinv : B.Inv) (h : PunctualRun disp B B') :
    B'.Inv ∧ ∃ ks, BrokerMoves False B.ledger ks B'.ledger :=
  moves_of_steps (fun _ _ ⟨act, hact, hlate⟩ => ⟨act, hact, hlate⟩) hinv h

end Process

end HermesGateway.Broker
