import HermesGateway.Broker.Intake
import HermesGateway.Client.Threads

/-!
# The fleet

One broker and the clients of any number of devices, each with a state directory of its own. What a
client posts stays in flight for good: it may be lost, come late, or come any number of times. A
reply may be lost as well, and what a client makes of one is any call of its store. Every process
may die after each transaction and start again.

An operation in the ledger was accepted from such a post, so its client has a row for it that names
the same flow. This is what ties what the broker does with an operation to the native call.

## Main definitions

* `Fleet`, `Fleet.Step` — the broker, the clients, what was posted and what was claimed
* `Fleet.native?` — the native call an operation comes from
* `Fleet.Inv` — the invariant

## Main results

* `Step.inv`, `inv_of_run` — the invariant, over one step and over whole runs
* `Step.native?_eq` — an operation keeps its native call
-/

namespace HermesGateway.System

open Broker BrokerStore Client

/-- The request the broker reads from the body a payload is posted as. -/
def Payload.request? (p : Payload) : Option OperationRequest :=
  (p.artifactIds.mapM nativeUuid).map fun ids => ⟨p.operationId, p.flowId, p.prompt, ids⟩

theorem Payload.of_request? {p : Payload} {request : OperationRequest}
    (h : Payload.request? p = some request) :
    request.operationId = p.operationId ∧ request.flowId = p.flowId := by
  obtain ⟨ids, -, rfl⟩ := Option.map_eq_some_iff.mp h
  exact ⟨rfl, rfl⟩

/-- The broker and the clients of all devices. `posts` are the commands that were ever posted, and
`claimed` is what `claim` has ever returned. -/
structure Fleet where
  broker : Process
  clients : Device → Daemon
  posts : List (Device × Payload)
  claimed : List Claim

namespace Fleet

/-- Empty tables everywhere. -/
def initial : Fleet := ⟨Process.initial, fun _ => Daemon.initial, [], []⟩

/-- The request the broker accepts is the body of a post of that device. -/
def Posted (F : Fleet) : Act → Prop
  | .serve d (.accept request) _ => ∃ p, (d, p) ∈ F.posts ∧ Payload.request? p = some request
  | _ => True

/-- One step of the broker, of a client, or a command is posted. -/
inductive Step (disp : BrokerDispatcher) (stores : Device → ClientStore) : Fleet → Fleet → Prop
  /-- The broker does anything but claim an operation. -/
  | broker {F : Fleet} {act : Act} {B' : Process} (h : Process.Step disp F.broker act B')
      (hposted : F.Posted act) (hact : ∀ k, act ≠ .claimed k) :
      Step disp stores F { F with broker := B' }
  /-- The dispatcher claims an operation. -/
  | claim {F : Fleet} {c : Claim} {clock : ℕ → Time} {uuids : ℕ → Uuid} {s' : Broker.Session}
      {B' : Process} (h : Process.Step disp F.broker (.claimed c.key) B')
      (hclaim : disp.store.claim ⟨F.broker.ledger, clock, uuids⟩ = .ok (some c, s'))
      (hledger : B'.ledger = s'.ledger) :
      Step disp stores F
        { F with
          broker := B'
          claimed := F.claimed ++ [c] }
  /-- A step on the directory of a device. -/
  | client {F : Fleet} {d : Device} {D' : Daemon} (h : Daemon.Step (stores d) (F.clients d) D') :
      Step disp stores F { F with clients := Function.update F.clients d D' }
  /-- `dispatch_pending` posts the payload of an operation. -/
  | post {F : Fleet} {d : Device} {op : Uuid} {p : Payload} {clock : ℕ → Time} {uuids : ℕ → Uuid}
      {s' : Client.Session}
      (h : ClientStore.payload op ⟨(F.clients d).tables, clock, uuids⟩ = .ok (some p, s')) :
      Step disp stores F { F with posts := F.posts ++ [(d, p)] }

/-- Runs of the fleet. -/
abbrev Run (disp : BrokerDispatcher) (stores : Device → ClientStore) : Fleet → Fleet → Prop :=
  Relation.ReflTransGen (Step disp stores)

/-- The row a client has of an operation. -/
def row? (F : Fleet) (k : Key) : Option ClientRow := (F.clients k.1).tables.operation? k.2

/-- The native call an operation comes from. -/
def native? (F : Fleet) (k : Key) : Option NativeOrigin := (F.row? k).map ClientRow.origin

/-- The client has the operation, with this flow. -/
def Bears (F : Fleet) (k : Key) (flow : Uuid) : Prop := ∃ r, F.row? k = some r ∧ r.flowId = flow

/-- The operations a step of the broker claims. -/
def claims : Act → List Key
  | .claimed k => [k]
  | _ => []

theorem claims_of_step {disp : BrokerDispatcher} {B B' : Process} {act : Act}
    (h : Process.Step disp B act B') : B'.claims = B.claims ++ claims act := by
  cases h with
  | claim => rfl
  | @task before after new t p => cases p <;> exact (List.append_nil _).symm
  | _ => exact (List.append_nil _).symm

/-! ### The invariant -/

/-- What the broker has of an operation agrees with what its client has. -/
structure Inv (F : Fleet) : Prop where
  broker : F.broker.Inv
  once : F.broker.Once
  billed : Billed F.broker.ledger
  distinct : ∀ d, (F.clients d).tables.Distinct
  threaded : ∀ d, (F.clients d).tables.Threaded
  posts : ∀ x ∈ F.posts, F.Bears (x.1, x.2.operationId) x.2.flowId
  rows : ∀ k r, F.broker.ledger.operation? k = some r → F.Bears k r.flowId
  flows : ∀ c ∈ F.claimed, ∃ r, F.broker.ledger.operation? c.key = some r ∧
    r.flowId = c.request.flowId
  claims : F.broker.claims = F.claimed.map Claim.key

theorem inv_initial : initial.Inv where
  broker := Process.inv_initial
  once := Process.once_initial
  billed _ h := absurd h List.not_mem_nil
  distinct _ := Tables.distinct_empty
  threaded _ := threaded_empty
  posts _ h := absurd h List.not_mem_nil
  rows _ _ h := by cases h
  flows _ h := absurd h List.not_mem_nil
  claims := rfl

section

variable {disp : BrokerDispatcher} {stores : Device → ClientStore} {F F' : Fleet} {k : Key}

/-- What a step of the broker leaves of the operations. -/
theorem Inv.rows_of_step (h : F.Inv) {act : Act} {B' : Process}
    (hstep : Process.Step disp F.broker act B') (hposted : F.Posted act) {r' : OperationRow}
    (hr' : B'.ledger.operation? k = some r') : F.Bears k r'.flowId := by
  rcases hstep.intake h.broker hr' with ⟨r, hr, hflow⟩ | ⟨request, reply, rfl, hop, hflow⟩
  · rw [hflow]
    exact h.rows k r hr
  · obtain ⟨p, hp, hrequest⟩ := hposted
    obtain ⟨hop', hflow'⟩ := Payload.of_request? hrequest
    have hbears := h.posts _ hp
    rwa [← hop', ← hflow', hop, hflow] at hbears

/-- What was claimed keeps its flow. -/
theorem Inv.flows_of_step (h : F.Inv) {act : Act} {B' : Process}
    (hstep : Process.Step disp F.broker act B') {c : Claim} (hc : c ∈ F.claimed) :
    ∃ r, B'.ledger.operation? c.key = some r ∧ r.flowId = c.request.flowId := by
  obtain ⟨⟨ks, hmoves⟩, -⟩ := hstep.disciplined h.broker
  obtain ⟨r, hr, hflow⟩ := h.flows c hc
  obtain ⟨r', hr', hdesc⟩ := descends_of_trace hmoves hr
  exact ⟨r', hr', hdesc.flowId.trans hflow⟩

theorem tables_of_client {I : Tables → Prop} {d : Device} {D' : Daemon} (hnew : I D'.tables)
    (hold : ∀ d, I (F.clients d).tables) (d' : Device) :
    I (Function.update F.clients d D' d').tables :=
  (Function.forall_update_iff F.clients fun _ D => I D.tables).mpr ⟨hnew, fun d' _ => hold d'⟩ d'

/-- A client keeps the operations of its directory, with their native calls and flows. -/
theorem row?_of_client {d : Device} {D' : Daemon}
    (hthreads : Threads (stores d) (F.clients d).tables D'.tables) {r : ClientRow}
    (hr : F.row? k = some r) :
    ∃ r', row? { F with clients := Function.update F.clients d D' } k = some r' ∧
      r'.identity = r.identity ∧ r'.flowId = r.flowId := by
  obtain ⟨d', op⟩ := k
  simp only [row?] at hr ⊢
  by_cases hd : d' = d
  · subst hd
    rw [Function.update_self]
    exact hthreads.row hr
  · rw [Function.update_of_ne hd]
    exact ⟨r, hr, rfl, rfl⟩

theorem bears_of_client {d : Device} {D' : Daemon}
    (hthreads : Threads (stores d) (F.clients d).tables D'.tables) {flow : Uuid}
    (h : F.Bears k flow) :
    Bears { F with clients := Function.update F.clients d D' } k flow := by
  obtain ⟨r, hr, hflow⟩ := h
  obtain ⟨r', hr', -, hflow'⟩ := row?_of_client hthreads hr
  exact ⟨r', hr', hflow'.trans hflow⟩

/-- **One step** keeps the invariant. -/
theorem Step.inv (hstep : Step disp stores F F') (h : F.Inv) : F'.Inv := by
  cases hstep with
  | @broker act B' hbroker hposted hact =>
    obtain ⟨⟨ks, hmoves⟩, hinv⟩ := hbroker.disciplined h.broker
    refine
      { h with
        broker := hinv
        once := hbroker.once h.broker h.once
        billed := billed_of_trace hmoves h.billed
        rows := fun k r' hr' => h.rows_of_step hbroker hposted hr'
        flows := fun c hc => h.flows_of_step hbroker hc
        claims := ?_ }
    rw [← h.claims, claims_of_step hbroker]
    cases act with
    | claimed k => exact absurd rfl (hact k)
    | _ => exact List.append_nil _
  | @claim c clock uuids s' B' hbroker hclaim hledger =>
    obtain ⟨⟨ks, hmoves⟩, hinv⟩ := hbroker.disciplined h.broker
    refine
      { h with
        broker := hinv
        once := hbroker.once h.broker h.once
        billed := billed_of_trace hmoves h.billed
        rows := fun k r' hr' => h.rows_of_step hbroker trivial hr'
        flows := fun c' hc' => ?_
        claims := ?_ }
    · rcases List.mem_append.mp hc' with hc' | hc'
      · exact h.flows_of_step hbroker hc'
      · rw [List.mem_singleton.mp hc', hledger]
        exact claim_flow h.broker.keyed h.broker.queued h.billed hclaim
    · rw [List.map_append, ← h.claims]
      exact claims_of_step hbroker
  | @client d D' hclient =>
    have hthreads := hclient.threads
    refine
      { h with
        distinct := tables_of_client (hclient.distinct (h.distinct d)) h.distinct
        threaded := tables_of_client (hthreads.threaded (h.threaded d)) h.threaded
        posts := fun x hx => bears_of_client hthreads (h.posts x hx)
        rows := fun k r hr => bears_of_client hthreads (h.rows k r hr) }
  | @post d op p clock uuids s' hpayload =>
    refine { h with posts := fun x hx => ?_ }
    rcases List.mem_append.mp hx with hx | hx
    · exact h.posts x hx
    · obtain rfl := List.mem_singleton.mp hx
      obtain ⟨r, hr, hp⟩ := payload_eq_ok hpayload
      obtain ⟨hop, hflow⟩ := (h.threaded d).payloads op r p hr hp
      refine ⟨r, ?_, hflow.symm⟩
      rw [row?, hop]
      exact hr

theorem inv_of_run (hrun : Run disp stores F F') (h : F.Inv) : F'.Inv := by
  induction hrun with
  | refl => exact h
  | tail _ hstep ih => exact hstep.inv ih

/-! ### What stays -/

/-- A thread keeps its flow. -/
theorem Step.lookup (hstep : Step disp stores F F') {d : Device} {thread flow : Uuid}
    (h : (F.clients d).tables.flows.lookup thread = some flow) :
    (F'.clients d).tables.flows.lookup thread = some flow := by
  cases hstep with
  | @client d' D' hclient =>
    by_cases hd : d = d'
    · subst hd
      simp only [Function.update_self]
      exact hclient.threads.lookup h
    · simp only [Function.update_of_ne hd]
      exact h
  | broker | claim | post => exact h

theorem run_lookup (hrun : Run disp stores F F') {d : Device} {thread flow : Uuid}
    (h : (F.clients d).tables.flows.lookup thread = some flow) :
    (F'.clients d).tables.flows.lookup thread = some flow := by
  induction hrun with
  | refl => exact h
  | tail _ hstep ih => exact hstep.lookup ih

end

/-! ### Two threads -/

/-- A fleet of which only one device has a client so far. -/
def single (D : Daemon) (B : Process) (posts : List (Device × Payload)) (claimed : List Claim) :
    Fleet :=
  ⟨B, Function.update (fun _ => Daemon.initial) "laptop" D, posts, claimed⟩

section

variable {disp : BrokerDispatcher} {store : ClientStore} {D D' : Daemon} {B : Process}
  {posts : List (Device × Payload)} {claimed : List Claim}

theorem row?_single {op : Uuid} :
    (single D B posts claimed).row? ("laptop", op) = D.tables.operation? op := by
  simp only [row?, single, Function.update_self]

theorem step_client (h : Daemon.Step store D D') :
    Step disp (fun _ => store) (single D B posts claimed) (single D' B posts claimed) := by
  have hstep := @Step.client disp (fun _ => store) (single D B posts claimed) "laptop" D'
  simp only [single, Function.update_self, Function.update_idem] at hstep
  exact hstep h

theorem step_post {op : Uuid} {p : Payload} {clock : ℕ → Time} {uuids : ℕ → Uuid}
    {s' : Client.Session} (h : ClientStore.payload op ⟨D.tables, clock, uuids⟩ = .ok (some p, s')) :
    Step disp (fun _ => store) (single D B posts claimed)
      (single D B (posts ++ [("laptop", p)]) claimed) := by
  have hstep :=
    @Step.post disp (fun _ => store) (single D B posts claimed) "laptop" op p clock uuids s'
  simp only [single, Function.update_self] at hstep
  exact hstep h

end

/-- The broker once a claimed operation was submitted. -/
def submitting (L : Ledger) (k : Key) : Process :=
  ⟨L, [⟨k, .submit, .waiting⟩], [k], [], none, [.sendStreamingMessage k], [k]⟩

/-- Two threads submit a command each; the first is on its way to Hermes and the second waits. -/
theorem two_threads : ∃ (D : Daemon) (L : Ledger) (posts : List (Device × Payload)) (c : Claim),
    Run ⟨BrokerStore.default, fun _ => "", fun _ => none⟩
      (fun _ => ⟨ClientSettings.default, fun _ => ""⟩) initial
      (single D (submitting L c.key) posts [c]) ∧
    c.key = ("laptop", 10) ∧ c.request.flowId = 11 ∧ c.attachments = [] ∧
    (D.tables.operation? 10).map ClientRow.origin = some ⟨1, 2, "a"⟩ ∧
    (D.tables.operation? 20).map ClientRow.origin = some ⟨3, 2, "b"⟩ ∧
    (L.operation? ("laptop", 20)).map OperationRow.state = some .accepted ∧
    Tx.succeeds (BrokerStore.default.serve "laptop" (.cancel 20) ⟨L, fun _ => 8, fun _ => 0⟩)
      (fun _ s' => (s'.ledger.operation? ("laptop", 20)).map OperationRow.state = some .canceled) ∧
    Tx.succeeds (BrokerStore.default.claim ⟨L, fun _ => 8, fun _ => 0⟩)
      (fun c _ => c.map (fun c => (c.key, c.request.flowId, c.attachments)) =
        some (("laptop", 20), 21, [])) := by
  let disp : BrokerDispatcher := ⟨BrokerStore.default, fun _ => "", fun _ => none⟩
  let store : ClientStore := ⟨ClientSettings.default, fun _ => ""⟩
  have hruns : (Tx.succeeds (store.perform (.create ⟨1, 2, "a"⟩ "p" [] 0)
      ⟨Tables.empty, fun _ => 5, fun n => if n = 0 then 10 else 11⟩) fun _ s₁ =>
    Tx.succeeds (store.perform (.create ⟨3, 2, "b"⟩ "q" [] 0)
        ⟨s₁.tables, fun _ => 5, fun n => if n = 0 then 20 else 21⟩) fun _ s₂ =>
      decide ((s₂.tables.operation? 10).map ClientRow.origin = some ⟨1, 2, "a"⟩ ∧
        (s₂.tables.operation? 20).map ClientRow.origin = some ⟨3, 2, "b"⟩) &&
    Tx.succeeds (ClientStore.payload 10 ⟨s₂.tables, fun _ => 5, fun _ => 0⟩) fun p _ =>
      decide (p = some ⟨10, 11, "p", []⟩) &&
    Tx.succeeds (ClientStore.payload 20 ⟨s₂.tables, fun _ => 5, fun _ => 0⟩) fun q _ =>
      decide (q = some ⟨20, 21, "q", []⟩)) = true := by decide +kernel
  have hserved : (Tx.succeeds (BrokerStore.default.serve "laptop" (.accept ⟨10, 11, "p", []⟩)
      ⟨Ledger.empty, fun _ => 6, fun _ => 0⟩) fun _ s₁ =>
    Tx.succeeds (BrokerStore.default.serve "laptop" (.accept ⟨20, 21, "q", []⟩)
        ⟨s₁.ledger, fun _ => 6, fun _ => 0⟩) fun _ s₂ =>
    Tx.succeeds (BrokerStore.default.claim ⟨s₂.ledger, fun _ => 7, fun _ => 0⟩) fun c s₃ =>
      decide (c.map (fun c => (c.key, c.request.flowId, c.attachments)) =
          some (("laptop", 10), 11, []) ∧
        (s₃.ledger.operation? ("laptop", 20)).map OperationRow.state = some .accepted) &&
      Tx.succeeds (BrokerStore.default.serve "laptop" (.cancel 20)
        ⟨s₃.ledger, fun _ => 8, fun _ => 0⟩)
        (fun _ s' => (s'.ledger.operation? ("laptop", 20)).map OperationRow.state =
          some .canceled) &&
      Tx.succeeds (BrokerStore.default.claim ⟨s₃.ledger, fun _ => 8, fun _ => 0⟩)
        (fun c _ => c.map (fun c => (c.key, c.request.flowId, c.attachments)) =
          some (("laptop", 20), 21, []))) = true := by decide +kernel
  obtain ⟨_, s₁, h₁, hruns⟩ := Tx.exists_of_succeeds hruns
  obtain ⟨_, s₂, h₂, hruns⟩ := Tx.exists_of_succeeds hruns
  rw [Bool.and_eq_true, decide_eq_true_eq] at hruns
  obtain ⟨⟨ho, ho'⟩, hruns⟩ := hruns
  obtain ⟨p, _, h₃, hruns⟩ := Tx.exists_of_succeeds hruns
  rw [Bool.and_eq_true, decide_eq_true_eq] at hruns
  obtain ⟨rfl, hruns⟩ := hruns
  obtain ⟨q, _, h₄, hq⟩ := Tx.exists_of_succeeds hruns
  obtain rfl := of_decide_eq_true hq
  obtain ⟨_, t₁, g₁, hserved⟩ := Tx.exists_of_succeeds hserved
  obtain ⟨_, t₂, g₂, hserved⟩ := Tx.exists_of_succeeds hserved
  obtain ⟨o, t₃, g₃, hserved⟩ := Tx.exists_of_succeeds hserved
  rw [Bool.and_eq_true, Bool.and_eq_true, decide_eq_true_eq] at hserved
  obtain ⟨⟨⟨hc, hwaits⟩, hcancel⟩, hnext⟩ := hserved
  obtain ⟨c, rfl, hkey⟩ := Option.map_eq_some_iff.mp hc
  obtain ⟨hkey, hrest⟩ := Prod.mk.inj hkey
  obtain ⟨hflow, hattachments⟩ := Prod.mk.inj hrest
  let D₁ : Daemon := { Daemon.initial with tables := s₁.tables }
  let D : Daemon := { Daemon.initial with tables := s₂.tables }
  let posts : List (Device × Payload) :=
    [("laptop", ⟨10, 11, "p", []⟩), ("laptop", ⟨20, 21, "q", []⟩)]
  let B₁ : Process := { Process.initial with ledger := t₁.ledger }
  let B₂ : Process := { Process.initial with ledger := t₂.ledger }
  let B₃ : Process := ⟨t₃.ledger, [⟨c.key, .submit, .created⟩], [c.key], [], none, [], [c.key]⟩
  have hrun₁ : Run disp (fun _ => store) initial (single D Process.initial posts []) := by
    have hstart : initial = single Daemon.initial Process.initial [] [] := by
      rw [single, Function.update_eq_self_iff.mpr rfl]
      rfl
    rw [hstart]
    have hcreate₁ : Daemon.Step store Daemon.initial D₁ := .live (.work (.call h₁))
    have hcreate₂ : Daemon.Step store D₁ D := .live (.work (.call h₂))
    exact (((Relation.ReflTransGen.single (step_client hcreate₁)).tail (step_client hcreate₂)).tail
      (step_post h₃)).tail (step_post h₄)
  have hrun₂ : Run disp (fun _ => store) (single D Process.initial posts [])
      (single D B₂ posts []) := by
    have haccept₁ : Process.Step disp Process.initial _ B₁ := .serve g₁
    have haccept₂ : Process.Step disp B₁ _ B₂ := .serve g₂
    refine (Relation.ReflTransGen.single (.broker haccept₁ ?_ fun k hk => by cases hk)).tail
      (.broker haccept₂ ?_ fun k hk => by cases hk)
    · exact ⟨⟨20, 21, "q", []⟩, List.mem_cons_of_mem _ List.mem_cons_self, rfl⟩
    · exact ⟨⟨10, 11, "p", []⟩, List.mem_cons_self, rfl⟩
  have hrun₃ : Run disp (fun _ => store) (single D B₂ posts [])
      (single D (submitting t₃.ledger c.key) posts [c]) := by
    have hclaim : Process.Step disp B₂ (.claimed c.key) B₃ :=
      @Process.Step.claim disp B₂ true c _ _ t₃ (fun _ => rfl) (Nat.zero_lt_succ 3) g₃
    have hstart : Process.Step disp B₃ .silent (submitting t₃.ledger c.key) :=
      @Process.Step.task disp B₃ [] [] _ _ none _ _ _ rfl (.start rfl)
    exact (Relation.ReflTransGen.single (.claim hclaim g₃ rfl)).tail
      (.broker hstart (show Posted _ .silent from trivial) fun k hk => by cases hk)
  exact ⟨D, t₃.ledger, posts, c, (hrun₁.trans hrun₂).trans hrun₃, hkey, hflow, hattachments,
    ho, ho', hwaits, hcancel, hnext⟩

end Fleet

end HermesGateway.System
