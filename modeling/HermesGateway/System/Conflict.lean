import HermesGateway.Broker.Shown
import HermesGateway.Client.Merge
import HermesGateway.Client.Rows

/-!
# When the client reports a conflict

A client that ingests what the broker has shown it, in any order and any number of times: replies
overtake each other and events come again. `accept_snapshot` has no order of versions to go by. It
compares an incoming terminal snapshot with the one it has stored, and reports a conflict when a
compared member differs and the one does not resolve the other.

What can differ between two snapshots the broker has shown of one operation is little: the result
identifier never does, nor does a definitive state. What is left are four kinds of meetings.

## Main definitions

* `Meeting` — a snapshot that is ingested while another one is stored
* `Meeting.Reworded`, `Overtaken`, `Revised`, `Unnamed` — the kinds
* `Exchange`, `Exchange.Step` — the broker, the client of one device, and what was shown to it

## Main results

* `conflicts_iff` — which pairs of shown snapshots conflict
* `conflict_meetings` — in every run, the flag is set by such meetings only
-/

namespace HermesGateway.System

open Broker Client ClientStore

/-! ### Meetings -/

/-- A snapshot comes in while another one is stored. -/
structure Meeting where
  operation : Uuid
  previous : Json
  incoming : Json

namespace Meeting

variable (m : Meeting)

/-- The snapshot names a definitive state. -/
def Definitive (v : Json) : Prop := ∃ state, stateOf v = some state ∧ state.Final

/-- Two unknown outcomes with different errors. -/
def Reworded : Prop :=
  stateOf m.previous = some .outcomeUnknown ∧ stateOf m.incoming = some .outcomeUnknown ∧
    same (member "error" m.previous) (member "error" m.incoming) = false

/-- An unknown outcome comes after a definitive one. -/
def Overtaken : Prop := Definitive m.previous ∧ stateOf m.incoming = some .outcomeUnknown

/-- Two definitive outcomes with different results or errors. -/
def Revised : Prop :=
  Definitive m.previous ∧ Definitive m.incoming ∧
    (same (member "result" m.previous) (member "result" m.incoming) = false ∨
      same (member "error" m.previous) (member "error" m.incoming) = false)

/-- A definitive outcome comes after an unknown one that had no handle. -/
def Unnamed : Prop :=
  stateOf m.previous = some .outcomeUnknown ∧ truthy (member "remote_task_id" m.previous) = false ∧
    Definitive m.incoming

/-- Any of the four kinds. -/
def Discordant : Prop := m.Reworded ∨ m.Overtaken ∨ m.Revised ∨ m.Unnamed

end Meeting

/-! ### Two snapshots -/

section

variable {row : OperationRow} {p s : Snapshot}

theorem definitive_toJson : Meeting.Definitive s.toJson ↔ s.state.Final := by
  simp [Meeting.Definitive, stateOf_toJson]

theorem definitive_stored : Meeting.Definitive (stored p) ↔ p.state.Final := by
  simp [Meeting.Definitive, stateOf_stored]

/-- Two terminal snapshots of an operation have one result identifier. -/
theorem resultId_eq (hp : Broker.Shown True row p) (hs : Broker.Shown True row s)
    (hpt : p.state.Terminal) (hst : s.state.Terminal) : p.resultId = s.resultId := by
  have hp' := hp.resultId (hp.resolved.mp hpt)
  exact hp'.symm.trans (hs.resultId (hs.resolved.mp hst))

theorem result_toJson (h : s.result = none) : member "result" s.toJson = .null := by
  change (s.result.map ResultBody.toJson).getD .null = .null
  rw [h]
  rfl

/-- Two unknown outcomes differ in their errors at most. -/
theorem differs_unknown (hp : Broker.Shown True row p) (hs : Broker.Shown True row s)
    (hpu : p.state = .outcomeUnknown) (hsu : s.state = .outcomeUnknown) :
    Differs (some (stored p)) s.toJson ↔
      same (member "error" (stored p)) (member "error" s.toJson) = false := by
  have hresult : same (member "result" (stored p)) (member "result" s.toJson) = true := by
    rw [member_stored, result_toJson (hp.unknown hpu), result_toJson (hs.unknown hsu)]
    rfl
  rw [differs_iff, hpu, hsu, resultId_eq hp hs (.inr hpu) (.inr hsu), hresult]
  simp

/-- Two definitive outcomes differ in their results and errors at most. -/
theorem differs_final (hp : Broker.Shown True row p) (hs : Broker.Shown True row s)
    (hpf : p.state.Final) (hsf : s.state.Final) :
    Differs (some (stored p)) s.toJson ↔
      same (member "result" (stored p)) (member "result" s.toJson) = false ∨
        same (member "error" (stored p)) (member "error" s.toJson) = false := by
  have hstate : p.state = s.state := (hp.settled hpf).1.symm.trans (hs.settled hsf).1
  rw [differs_iff, hstate, resultId_eq hp hs (.inl hpf) (.inl hsf)]
  simp

/-- A definitive outcome resolves an unknown one unless that had no handle. -/
theorem exactResolution_shown (hp : Broker.Shown True row p) (hs : Broker.Shown True row s)
    (hpu : p.state = .outcomeUnknown) (hsf : s.state.Final) :
    ExactResolution (some (stored p)) s.toJson ↔
      truthy (member "remote_task_id" (stored p)) = true := by
  rw [exactResolution_iff, truthy_handle]
  refine ⟨fun h => ⟨h.2.2.1, h.2.2.2.1⟩, fun ⟨hne, hempty⟩ => ?_⟩
  have hhandle : p.remoteTaskId = s.remoteTaskId := (hp.handle hne).symm.trans (hs.settled hsf).2
  exact ⟨hpu, hsf, hne, hempty, hhandle, resultId_eq hp hs (.inr hpu) (.inl hsf)⟩

theorem final_ne_unknown {state : OpState} (h : state.Final) : state ≠ .outcomeUnknown := by
  rintro rfl
  exact absurd h (by decide)

/-- **Which shown snapshots conflict.** -/
theorem conflicts_iff (hp : Broker.Shown True row p) (hs : Broker.Shown True row s) (op : Uuid) :
    Conflicts (some (stored p)) s.toJson ↔
      (⟨op, stored p, s.toJson⟩ : Meeting).Discordant := by
  simp only [Conflicts, stale_iff, terminalSnapshot_iff, Meeting.Discordant, Meeting.Reworded,
    Meeting.Overtaken, Meeting.Revised, Meeting.Unnamed, definitive_toJson, definitive_stored,
    stateOf_stored, stateOf_toJson, Option.some.injEq]
  by_cases hst : s.state.Terminal
  swap
  · have hsf : ¬ s.state.Final := fun h => hst (.inl h)
    have hsu : s.state ≠ .outcomeUnknown := fun h => hst (.inr h)
    simp [hst, hsf, hsu]
  by_cases hpt : p.state.Terminal
  swap
  · have hpf : ¬ p.state.Final := fun h => hpt (.inl h)
    have hpu : p.state ≠ .outcomeUnknown := fun h => hpt (.inr h)
    simp [hpt, hpf, hpu]
  rcases hpt with hpf | hpu <;> rcases hst with hsf | hsu
  · have hexact : ¬ ExactResolution (some (stored p)) s.toJson := fun h =>
      final_ne_unknown hpf ((exactResolution_iff s p).mp h).1
    simp [hexact, differs_final hp hs hpf hsf, OpState.Terminal, hpf, hsf, final_ne_unknown hpf,
      final_ne_unknown hsf]
  · have hexact : ¬ ExactResolution (some (stored p)) s.toJson := fun h =>
      final_ne_unknown hpf ((exactResolution_iff s p).mp h).1
    have hdiffers : Differs (some (stored p)) s.toJson :=
      (differs_iff s p).mpr (.inl (hsu ▸ final_ne_unknown hpf))
    simp [hexact, hdiffers, OpState.Terminal, hpf, hsu]
  · have hdiffers : Differs (some (stored p)) s.toJson :=
      (differs_iff s p).mpr (.inl (hpu ▸ (final_ne_unknown hsf).symm))
    simp [exactResolution_shown hp hs hpu hsf, hdiffers, OpState.Terminal, hpu, hsf,
      final_ne_unknown hsf, show ¬ OpState.Final .outcomeUnknown by decide]
  · have hexact : ¬ ExactResolution (some (stored p)) s.toJson := fun h =>
      final_ne_unknown ((exactResolution_iff s p).mp h).2.1 hsu
    simp [hexact, differs_unknown hp hs hpu hsu, OpState.Terminal, hpu, hsu,
      show ¬ OpState.Final .outcomeUnknown by decide]

end

/-! ### Runs -/

/-- The snapshots a step of the broker sends to a device. -/
def sent (d : Device) : Act → List Snapshot
  | .serve d' _ reply => if d' = d then reply.snapshots else []
  | _ => []

/-- The broker, the client of a device, and the snapshots that were ever sent to it. -/
structure Exchange where
  broker : Process
  client : Daemon
  shown : List Snapshot

/-- Nothing was sent yet. -/
def Exchange.initial : Exchange := ⟨Process.initial, Daemon.initial, []⟩

/-- The meeting when a snapshot is ingested, if its operation is known and unexpired. -/
def meetings (T : Tables) (s : Snapshot) : List Meeting :=
  match T.operation? s.operationId with
  | none => []
  | some r =>
    if r.expired = true then [] else (r.snapshot.map (⟨s.operationId, ·, s.toJson⟩)).toList

/-- One step: of the broker, of the client, or a snapshot arrives that was sent at any time. -/
inductive Exchange.Step (disp : BrokerDispatcher) (store : ClientStore) (d : Device) :
    Exchange → List Meeting → Exchange → Prop
  | broker {X : Exchange} {act : Act} {B' : Process} (h : Process.Step disp X.broker act B') :
      Exchange.Step disp store d X []
        { X with
          broker := B'
          shown := X.shown ++ sent d act }
  | client {X : Exchange} {D' : Daemon} (h : Daemon.Quiet store X.client D') :
      Exchange.Step disp store d X [] { X with client := D' }
  | ingest {X : Exchange} {s : Snapshot} {seq : Option ℤ} {expected : Option Uuid}
      {clock : ℕ → Time} {uuids : ℕ → Uuid} {σ' : Client.Session} (hs : s ∈ X.shown)
      (h : store.ingest s.toJson seq expected ⟨X.client.tables, clock, uuids⟩ = .ok ((), σ')) :
      Exchange.Step disp store d X (meetings X.client.tables s)
        { X with client := { X.client with tables := σ'.tables } }

/-- What is stored was shown, and the flag tells of the meetings. -/
structure Exchange.Inv (d : Device) (ms : List Meeting) (X : Exchange) : Prop where
  broker : X.broker.Inv
  honest : X.broker.ledger.Honest True
  log : Log X.broker.ledger
  shown : ∀ s ∈ X.shown, X.broker.ledger.Shown True d s
  stored : ∀ op r, X.client.tables.operation? op = some r → r.expired = false →
    ∀ v, r.snapshot = some v → ∃ p ∈ X.shown, p.operationId = op ∧ v = Client.stored p
  known : ∀ m ∈ ms, X.client.tables.operation? m.operation ≠ none
  flag : ∀ op r, X.client.tables.operation? op = some r →
    (r.conflict = true ↔ ∃ m ∈ ms, m.operation = op ∧ m.Discordant)

section

variable {disp : BrokerDispatcher} {store : ClientStore} {d : Device} {ms : List Meeting}
  {X X' : Exchange}

/-- A meeting is of an operation that is known. -/
theorem of_mem_meetings {T : Tables} {s : Snapshot} {m : Meeting} (h : m ∈ meetings T s) :
    m.operation = s.operationId ∧ ∃ r, T.operation? s.operationId = some r ∧ r.expired = false := by
  unfold meetings at h
  cases hr : T.operation? s.operationId with
  | none =>
    rw [hr] at h
    exact absurd h List.not_mem_nil
  | some r =>
    simp only [hr] at h
    split_ifs at h with hexpired
    · exact absurd h List.not_mem_nil
    · obtain ⟨v, -, rfl⟩ := Option.map_eq_some_iff.mp (Option.mem_toList.mp h)
      exact ⟨rfl, r, rfl, by simpa using hexpired⟩

theorem Exchange.inv_initial : Exchange.initial.Inv d [] where
  broker := Process.inv_initial
  honest := honest_empty
  log := Log.empty
  shown _ h := absurd h List.not_mem_nil
  stored _ _ h := by cases h
  known _ h := absurd h List.not_mem_nil
  flag _ _ h := by cases h

/-- What a step of the broker sends is right. -/
theorem shown_of_sent {B B' : Process} {act : Act} (hstep : Process.Step disp B act B')
    (hhonest : B'.ledger.Honest True) (hlog : Log B'.ledger) :
    ∀ s ∈ sent d act, B'.ledger.Shown True d s := by
  intro s hs
  cases hstep with
  | @serve d' request reply clock uuids s' hserve =>
    change s ∈ if d' = d then reply.snapshots else [] at hs
    split_ifs at hs with hd
    · subst hd
      exact shown_of_serve hhonest hlog hserve s hs
    · exact absurd hs List.not_mem_nil
  | @task _ _ _ _ p => cases p <;> exact absurd hs List.not_mem_nil
  | _ => exact absurd hs List.not_mem_nil

/-- The broker goes on: what was shown stays right, and so is what it shows now. -/
theorem Exchange.Inv.serve (h : X.Inv d ms) {act : Act} {B' : Process}
    (hstep : Process.Step disp X.broker act B') :
    Exchange.Inv d ms { X with broker := B', shown := X.shown ++ sent d act } := by
  obtain ⟨⟨ks, hmoves⟩, hinv⟩ := hstep.disciplined h.broker
  have hmoves := @Process.brokerMoves_mono _ _ _ True (fun _ => trivial) _ hmoves
  have hhonest := h.honest.of_trace hmoves
  have hlog := Log.of_trace hmoves h.log
  refine
    { broker := hinv
      honest := hhonest
      log := hlog
      shown := fun s hs => ?_
      stored := fun op r hr hexpired v hv => ?_
      known := h.known
      flag := h.flag }
  · rcases List.mem_append.mp hs with hs | hs
    · exact (h.shown s hs).of_trace h.honest hmoves
    · exact shown_of_sent hstep hhonest hlog s hs
  · obtain ⟨p, hp, hop, hstored⟩ := h.stored op r hr hexpired v hv
    exact ⟨p, List.mem_append_left _ hp, hop, hstored⟩

/-- The client does something else. -/
theorem Exchange.Inv.calm (h : X.Inv d ms) {D' : Daemon}
    (hcalm : ∀ op, Calm store (X.client.tables.operation? op) (D'.tables.operation? op)) :
    Exchange.Inv d ms { X with client := D' } := by
  refine { h with stored := ?_, known := ?_, flag := ?_ }
  · intro op r' hr' hexpired v hv
    have hop := hcalm op
    rw [show D'.tables.operation? op = some r' from hr'] at hop
    generalize hr : X.client.tables.operation? op = o at hop
    cases hop with
    | create => cases hv
    | keep hkept =>
      obtain ⟨hexpired, hsnapshot⟩ := hkept.snapshot hexpired
      exact h.stored op _ hr hexpired v (hsnapshot ▸ hv)
  · intro m hm hnone
    have hop := hcalm m.operation
    rw [show D'.tables.operation? m.operation = none from hnone] at hop
    generalize hr : X.client.tables.operation? m.operation = o at hop
    cases hop
    exact h.known m hm hr
  · intro op r' hr'
    have hop := hcalm op
    rw [show D'.tables.operation? op = some r' from hr'] at hop
    generalize hr : X.client.tables.operation? op = o at hop
    cases hop with
    | create =>
      -- no meeting is of an operation that was not there
      refine ⟨fun hflag => (by cases hflag), ?_⟩
      rintro ⟨m, hm, rfl, -⟩
      exact absurd hr (h.known m hm)
    | keep hkept =>
      rw [hkept.conflict]
      exact h.flag op _ hr

/-- The flag after a snapshot was merged into a row. -/
theorem conflict_merged {r : ClientRow} {v : Json} {u e : Time} :
    (merged r v u e).conflict = true ↔ r.conflict = true ∨ Conflicts r.snapshot v := by
  unfold merged
  split_ifs with hconflict hreplace <;> simp [hconflict, storedRow]

/-- What is stored after a snapshot was merged into a row. -/
theorem snapshot_of_merged {r : ClientRow} {v : Json} {u e : Time} :
    (merged r v u e).snapshot = r.snapshot ∨ (merged r v u e).snapshot = some v.sortKeys := by
  unfold merged
  split_ifs
  · exact .inl rfl
  · exact .inr rfl
  · exact .inl rfl

/-- The row of an operation after a snapshot was ingested. -/
theorem Exchange.Inv.row (h : X.Inv d ms) {s : Snapshot} (hs : s ∈ X.shown) {r : ClientRow}
    (hr : X.client.tables.operation? s.operationId = some r) (hexpired : r.expired = false)
    (u e : Time) :
    (∀ v, (merged r s.toJson u e).snapshot = some v →
        ∃ p ∈ X.shown, p.operationId = s.operationId ∧ v = Client.stored p) ∧
      ((merged r s.toJson u e).conflict = true ↔
        ∃ m ∈ ms ++ meetings X.client.tables s, m.operation = s.operationId ∧ m.Discordant) := by
  have hmeet : meetings X.client.tables s =
      (r.snapshot.map fun p => (⟨s.operationId, p, s.toJson⟩ : Meeting)).toList := by
    rw [meetings, hr]
    exact if_neg (by simp [hexpired])
  refine ⟨fun v hv => ?_, ?_⟩
  · rcases snapshot_of_merged (r := r) (v := s.toJson) (u := u) (e := e) with hsame | hnew
    · exact h.stored _ r hr hexpired v (hsame ▸ hv)
    · exact ⟨s, hs, rfl, Option.some.inj (hv.symm.trans hnew)⟩
  · rw [conflict_merged, h.flag _ r hr, hmeet]
    cases hsnapshot : r.snapshot with
    | none => simp [Conflicts, Stale]
    | some v =>
      obtain ⟨p, hp, hop, rfl⟩ := h.stored _ r hr hexpired v hsnapshot
      obtain ⟨row, hrow, hps⟩ := h.shown p hp
      obtain ⟨row', hrow', hss⟩ := h.shown s hs
      rw [hop] at hrow
      obtain rfl := Option.some.inj (hrow.symm.trans hrow')
      rw [conflicts_iff hps hss s.operationId]
      simp only [Option.map_some, Option.toList_some, List.mem_append, List.mem_singleton,
        or_and_right,
        exists_or, exists_eq_left, true_and]

/-- A snapshot arrives. -/
theorem Exchange.Inv.ingest (h : X.Inv d ms) {s : Snapshot} {seq : Option ℤ}
    {expected : Option Uuid}
    {clock : ℕ → Time} {uuids : ℕ → Uuid} {σ' : Client.Session} (hs : s ∈ X.shown)
    (hingest : store.ingest s.toJson seq expected ⟨X.client.tables, clock, uuids⟩ = .ok ((), σ')) :
    Exchange.Inv d (ms ++ meetings X.client.tables s)
      { X with client := { X.client with tables := σ'.tables } } := by
  obtain ⟨op', hop', -, -, -, -, u, e, hrows⟩ := acceptSnapshot_eq_ok (ingest_eq_ok hingest).2
  obtain rfl : s.operationId = op' := Option.some.inj ((operationOf_toJson s).symm.trans hop')
  -- the row of the snapshot's operation, and every other row
  have hrow : ∀ op r', σ'.tables.operation? op = some r' →
      (∃ r, op = s.operationId ∧ X.client.tables.operation? op = some r ∧ r.expired = false ∧
        r' = merged r s.toJson u e) ∨
      (X.client.tables.operation? op = some r' ∧ (op = s.operationId → r'.expired = true)) := by
    intro op r' hr'
    rw [hrows op] at hr'
    split_ifs at hr' with hop
    · obtain ⟨r, hr, rfl⟩ := Option.map_eq_some_iff.mp hr'
      cases hexpired : r.expired with
      | false => exact .inl ⟨r, hop, hr, hexpired, if_neg (by simp)⟩
      | true => exact .inr ⟨hr, fun _ => hexpired⟩
    · exact .inr ⟨hr', fun h => absurd h hop⟩
  refine { h with stored := ?_, known := ?_, flag := ?_ }
  · intro op r' hr' hexpired v hv
    obtain ⟨r, rfl, hr, hlive, rfl⟩ | ⟨hr, -⟩ := hrow op r' hr'
    · exact (h.row hs hr hlive u e).1 v hv
    · exact h.stored op r' hr hexpired v hv
  · intro m hm hnone
    have hbefore : X.client.tables.operation? m.operation ≠ none := by
      rcases List.mem_append.mp hm with hm | hm
      · exact h.known m hm
      · obtain ⟨hop, r, hr, -⟩ := of_mem_meetings hm
        rw [hop, hr]
        exact Option.some_ne_none r
    rw [hrows m.operation] at hnone
    split_ifs at hnone
    · exact hbefore (Option.map_eq_none_iff.mp hnone)
    · exact hbefore hnone
  · intro op r' hr'
    obtain ⟨r, rfl, hr, hexpired, rfl⟩ | ⟨hr, hexpired⟩ := hrow op r' hr'
    · exact (h.row hs hr hexpired u e).2
    · rw [h.flag op r' hr]
      refine ⟨fun ⟨m, hm, hop, hd⟩ => ⟨m, List.mem_append_left _ hm, hop, hd⟩, ?_⟩
      rintro ⟨m, hm, rfl, hd⟩
      rcases List.mem_append.mp hm with hm | hm
      · exact ⟨m, hm, rfl, hd⟩
      · obtain ⟨hop, r, hr₁, hlive⟩ := of_mem_meetings hm
        rw [hop, hr₁] at hr
        rw [Option.some.inj hr, hexpired hop] at hlive
        cases hlive

theorem Exchange.Step.inv {new : List Meeting} (h : X.Inv d ms)
    (hstep : Exchange.Step disp store d X new X') : X'.Inv d (ms ++ new) := by
  cases hstep with
  | broker hbroker =>
    rw [List.append_nil]
    exact h.serve hbroker
  | client hquiet =>
    rw [List.append_nil]
    exact h.calm hquiet.calm
  | ingest hs hingest => exact h.ingest hs hingest

/-- **When the client reports a conflict.** In every run of the broker with the client of a device,
which ingests what the broker sent it in any order and any number of times, the flag of an operation
is set only when a snapshot came in over a stored one that was reworded, overtaken, revised or
unnamed; and it is set when one of the first three has happened. -/
theorem conflict_meetings (h : Trace (Exchange.Step disp store d) Exchange.initial ms X) {op : Uuid}
    {r : ClientRow} (hr : X.client.tables.operation? op = some r) :
    (r.conflict = true →
        ∃ m ∈ ms, m.operation = op ∧ (m.Reworded ∨ m.Overtaken ∨ m.Revised ∨ m.Unnamed)) ∧
      ((∃ m ∈ ms, m.operation = op ∧ (m.Reworded ∨ m.Overtaken ∨ m.Revised)) →
        r.conflict = true) := by
  have hinv : X.Inv d ms :=
    Trace.labels (I := Exchange.Inv d) (fun h hstep => hstep.inv h) h Exchange.inv_initial
  refine ⟨(hinv.flag op r hr).mp, ?_⟩
  rintro ⟨m, hm, hop, hkind⟩
  refine (hinv.flag op r hr).mpr ⟨m, hm, hop, ?_⟩
  exact hkind.imp_right (Or.imp_right Or.inl)

end

/-- A request of the device is served. -/
theorem Exchange.Step.serve {disp : BrokerDispatcher} {store : ClientStore} {d : Device}
    {X : Exchange} {request : Request} {reply : Reply} {clock : ℕ → Time} {uuids : ℕ → Uuid}
    {s' : Broker.Session}
    (h : disp.store.serve d request ⟨X.broker.ledger, clock, uuids⟩ = .ok (reply, s')) :
    Exchange.Step disp store d X []
      { X with
        broker := { X.broker with ledger := s'.ledger }
        shown := X.shown ++ reply.snapshots } := by
  have hstep := @Exchange.Step.broker disp store d _ _ _ (Process.Step.serve h)
  rwa [show sent d (.serve d request reply) = reply.snapshots from if_pos rfl] at hstep

/-- The broker takes a step that sends nothing to the device. -/
theorem Exchange.Step.silent {disp : BrokerDispatcher} {store : ClientStore} {d : Device}
    {X : Exchange} {act : Act} {B' : Process} (h : Process.Step disp X.broker act B')
    (hact : sent d act = []) : Exchange.Step disp store d X [] { X with broker := B' } := by
  have hstep := @Exchange.Step.broker disp store d _ _ _ h
  rwa [hact, List.append_nil] at hstep

/-- An operation whose outcome is unknown is cancelled: the client reads it before and after. -/
theorem reworded_run :
    ∃ ms X r, Trace (Exchange.Step ⟨BrokerStore.default, fun _ => "", fun _ => none⟩
        ⟨ClientSettings.default, fun _ => ""⟩ "laptop") Exchange.initial ms X ∧
      X.client.tables.operation? 1 = some r ∧ r.conflict = true ∧
      ∀ s ∈ X.shown, ¬ s.state.Final := by
  let disp : BrokerDispatcher := ⟨BrokerStore.default, fun _ => "", fun _ => none⟩
  let store : ClientStore := ⟨ClientSettings.default, fun _ => ""⟩
  have hruns : (Tx.succeeds (store.perform (.create ⟨4, 5, "a"⟩ "hello" [] 0)
      ⟨Tables.empty, fun _ => 5, fun n => if n = 0 then 1 else 2⟩) fun _ σ₁ =>
    Tx.succeeds (disp.store.serve "laptop" (.accept (sampleRequest 1 2))
      ⟨Ledger.empty, fun _ => 5, fun _ => 0⟩) fun reply₁ s₁ =>
    Tx.succeeds (disp.store.claim ⟨s₁.ledger, fun _ => 6, fun _ => 0⟩) fun c s₂ =>
      c.isSome &&
    Tx.succeeds (disp.store.recover ⟨s₂.ledger, fun _ => 7, fun _ => 3⟩) fun _ s₃ =>
    Tx.succeeds (disp.store.serve "laptop" (.get 1) ⟨s₃.ledger, fun _ => 8, fun _ => 0⟩)
        fun reply₄ s₄ =>
    Tx.succeeds (disp.store.serve "laptop" (.cancel 1) ⟨s₄.ledger, fun _ => 9, fun _ => 0⟩)
        fun reply₅ _ =>
      ((reply₁.snapshots ++ reply₄.snapshots ++ reply₅.snapshots).all fun s => ¬ s.state.Final) &&
      reply₄.snapshots.head?.any fun p => reply₅.snapshots.head?.any fun s =>
    Tx.succeeds (store.ingest p.toJson none none ⟨σ₁.tables, fun _ => 8, fun _ => 0⟩) fun _ σ₂ =>
    Tx.succeeds (store.ingest s.toJson none none ⟨σ₂.tables, fun _ => 9, fun _ => 0⟩) fun _ σ₃ =>
      (σ₃.tables.operation? 1).any fun r => r.conflict) = true := by decide +kernel
  obtain ⟨_, σ₁, k₁, hruns⟩ := Tx.exists_of_succeeds hruns
  obtain ⟨reply₁, s₁, h₁, hruns⟩ := Tx.exists_of_succeeds hruns
  obtain ⟨o, s₂, h₂, hruns⟩ := Tx.exists_of_succeeds hruns
  rw [Bool.and_eq_true_iff] at hruns
  obtain ⟨hclaim, hruns⟩ := hruns
  obtain ⟨c, rfl⟩ := Option.isSome_iff_exists.mp hclaim
  obtain ⟨_, s₃, h₃, hruns⟩ := Tx.exists_of_succeeds hruns
  obtain ⟨reply₄, s₄, h₄, hruns⟩ := Tx.exists_of_succeeds hruns
  obtain ⟨reply₅, s₅, h₅, hruns⟩ := Tx.exists_of_succeeds hruns
  rw [Bool.and_eq_true_iff] at hruns
  obtain ⟨hlive, hruns⟩ := hruns
  obtain ⟨p, hp, hruns⟩ := (Option.any_eq_true _ _).mp hruns
  obtain ⟨s, hs, hruns⟩ := (Option.any_eq_true _ _).mp hruns
  obtain ⟨_, σ₂, k₂, hruns⟩ := Tx.exists_of_succeeds hruns
  obtain ⟨_, σ₃, k₃, hruns⟩ := Tx.exists_of_succeeds hruns
  obtain ⟨r, hr, hconflict⟩ := (Option.any_eq_true _ _).mp hruns
  let step := Exchange.Step disp store "laptop"
  let ledger (L : Ledger) : Process := { Process.initial with ledger := L }
  let claims (L : Ledger) : Process := { ledger L with claims := [c.key] }
  let daemon (T : Tables) : Daemon := { Daemon.initial with tables := T }
  let shown := reply₁.snapshots ++ reply₄.snapshots ++ reply₅.snapshots
  have hcreated : step Exchange.initial [] ⟨Process.initial, daemon σ₁.tables, []⟩ :=
    .client (.work (.call k₁))
  have haccepted : step ⟨Process.initial, daemon σ₁.tables, []⟩ []
      ⟨ledger s₁.ledger, daemon σ₁.tables, reply₁.snapshots⟩ := Exchange.Step.serve h₁
  have hclaimed : step ⟨ledger s₁.ledger, daemon σ₁.tables, reply₁.snapshots⟩ []
      ⟨claims s₂.ledger, daemon σ₁.tables, reply₁.snapshots⟩ :=
    Exchange.Step.silent (@Process.Step.claim disp (ledger s₁.ledger) false c _ _ s₂
      (fun h => by cases h) (Nat.zero_lt_succ 3) h₂) rfl
  have hrecovered : step ⟨claims s₂.ledger, daemon σ₁.tables, reply₁.snapshots⟩ []
      ⟨claims s₃.ledger, daemon σ₁.tables, reply₁.snapshots⟩ :=
    Exchange.Step.silent (Process.Step.restart h₃) rfl
  have hread : step ⟨claims s₃.ledger, daemon σ₁.tables, reply₁.snapshots⟩ []
      ⟨claims s₄.ledger, daemon σ₁.tables, reply₁.snapshots ++ reply₄.snapshots⟩ :=
    Exchange.Step.serve h₄
  have hcanceled :
    step ⟨claims s₄.ledger, daemon σ₁.tables, reply₁.snapshots ++ reply₄.snapshots⟩ []
      ⟨claims s₅.ledger, daemon σ₁.tables, shown⟩ :=
    Exchange.Step.serve h₅
  have hmem : p ∈ shown ∧ s ∈ shown := by
    simp [shown, List.mem_of_head? hp, List.mem_of_head? hs]
  have hfirst : step ⟨claims s₅.ledger, daemon σ₁.tables, shown⟩ (meetings σ₁.tables p)
      ⟨claims s₅.ledger, daemon σ₂.tables, shown⟩ := .ingest hmem.1 k₂
  have hsecond : step ⟨claims s₅.ledger, daemon σ₂.tables, shown⟩ (meetings σ₂.tables s)
      ⟨claims s₅.ledger, daemon σ₃.tables, shown⟩ := .ingest hmem.2 k₃
  refine ⟨_, _, r, ((((((((Trace.single hcreated).snoc haccepted).snoc hclaimed).snoc
    hrecovered).snoc hread).snoc hcanceled).snoc hfirst).snoc hsecond), hr, hconflict, ?_⟩
  intro x hx
  simpa using List.all_eq_true.mp hlive x hx

theorem conflict_without_disagreement :
    ¬ ∀ ms X op r, Trace (Exchange.Step ⟨BrokerStore.default, fun _ => "", fun _ => none⟩
        ⟨ClientSettings.default, fun _ => ""⟩ "laptop") Exchange.initial ms X →
      X.client.tables.operation? op = some r → r.conflict = true →
      ∃ p ∈ X.shown, ∃ s ∈ X.shown, p.operationId = op ∧ s.operationId = op ∧
        p.state.Final ∧ s.state.Final ∧ p ≠ s := by
  intro h
  obtain ⟨ms, X, r, hrun, hr, hconflict, hlive⟩ := reworded_run
  obtain ⟨p, hp, -, -, -, -, hfinal, -⟩ := h ms X 1 r hrun hr hconflict
  exact hlive p hp hfinal

theorem conflict_meetings_reworded :
    ∃ ms X r, Trace (Exchange.Step ⟨BrokerStore.default, fun _ => "", fun _ => none⟩
        ⟨ClientSettings.default, fun _ => ""⟩ "laptop") Exchange.initial ms X ∧
      X.client.tables.operation? 1 = some r ∧ r.conflict = true ∧
      ∃ m ∈ ms, m.operation = 1 ∧ (m.Reworded ∨ m.Overtaken ∨ m.Revised ∨ m.Unnamed) := by
  obtain ⟨ms, X, r, hrun, hr, hconflict, -⟩ := reworded_run
  exact ⟨ms, X, r, hrun, hr, hconflict, (conflict_meetings hrun hr).1 hconflict⟩

end HermesGateway.System
