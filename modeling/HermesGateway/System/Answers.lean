import HermesGateway.Broker.Inputs
import HermesGateway.System.Network

/-!
# Answers stay true

A command goes out any number of times, and its answers come back late. What the client makes of an
answer is right only if the answer still is: the broker may have handled the same command again in
between, and everything else as well.

The payload of an operation is the same each time it is posted, so the broker reads the same request
from it. Then an operation it has was accepted from that request, a request it refused for good was
never accepted and never will be, and no refusal is for another request under the same identifier.

## Main definitions

* `Network.Attests` — what an answer says of the broker
* `Network.Posts` — the client's payloads, and the commands they were sent in
* `Network.Accepted` — what the broker accepted, and from which command
* `Network.Inv` — the invariant

## Main results

* `Network.Inv.uplink`, `Network.Inv.process`, `Network.Inv.handle` — the kinds of steps
* `Network.Run.inv` — every run
-/

namespace HermesGateway.System

open Broker BrokerStore Client ClientStore

/-! ### The invariant -/

/-- The operation of the row is the one of the payload. -/
structure Bears (store : ClientStore) (r : ClientRow) (p : Payload) : Prop where
  flowId : r.flowId = p.flowId
  digest : r.digest = store.digestOf p.prompt p.artifactIds

/-- The client's payloads, and the commands they were sent in. -/
structure Network.Posts (store : ClientStore) (N : Network) : Prop where
  payloads : ∀ op r, N.tables.operation? op = some r → ∀ p, r.payload = some p →
    p.operationId = op ∧ Bears store r p
  posted : ∀ p, .submit p ∈ N.commands → ∃ r, N.tables.operation? p.operationId = some r ∧
    Bears store r p ∧ ∀ q, r.payload = some q → q = p
  single : ∀ p q, .submit p ∈ N.commands → .submit q ∈ N.commands →
    p.operationId = q.operationId → p = q
  posting : ∀ op p todo, N.uplink.position = .posting op p todo →
    .submit p ∈ N.commands ∧ p.operationId = op

/-- A command was sent that is read as a request. -/
def Network.Requested (ingress : Ingress) (N : Network) (request : OperationRequest) : Prop :=
  ∃ p, .submit p ∈ N.commands ∧ p.operationId = request.operationId ∧
    ingress.request (.submit p) = .ok (.accept request)

/-- What the broker accepted of the device, and what it claimed. -/
structure Network.Accepted (disp : BrokerDispatcher) (ingress : Ingress) (d : Device)
    (N : Network) : Prop where
  artifacts : ∀ a ∈ N.broker.ledger.artifacts, a ∈ N.artifacts
  unambiguous : Unambiguous N.artifacts
  billed : Billed N.broker.ledger
  operations : ∀ op r, N.broker.ledger.operation? (d, op) = some r → ∃ request,
    N.Requested ingress request ∧ request.operationId = op ∧
    r.digest = disp.store.digest request ∧ Admits disp.store d N.artifacts request
  payloads : ∀ b ∈ N.broker.ledger.payloads, b.deviceId = d → N.Requested ingress b.request ∧
    Admits disp.store d N.artifacts b.request
  claimed : ∀ c ∈ N.claimed, c.deviceId = d → N.Requested ingress c.request ∧
    Admits disp.store d N.artifacts c.request ∧ ∃ found, c.Attaches disp.store N.artifacts found

/-- What an answer says of the broker. -/
def Network.Attests (disp : BrokerDispatcher) (ingress : Ingress) (d : Device) (N : Network) :
    Command → Outcome → Prop
  | .submit p, .snapshot _ => ∃ r, N.broker.ledger.operation? (d, p.operationId) = some r
  | .submit p, .refused status => status ∈ rejections → ∀ request,
    ingress.request (.submit p) = .ok (.accept request) →
      Inadmissible disp.store d N.artifacts request
  | .cancel op, .snapshot _ => ∃ r, N.broker.ledger.operation? (d, op) = some r ∧ Stopped r
  | .receipt op resultId status, .ok => ∃ id, ingress.parseUuid resultId = some id ∧
    Received N.broker.ledger ((d, op), id, postedStatus status)
  | _, _ => True

/-- What was posted was accepted as it is, and what was answered is still true. -/
structure Network.Inv (disp : BrokerDispatcher) (ingress : Ingress) (store : ClientStore)
    (d : Device) (N : Network) : Prop where
  broker : N.broker.Inv
  posts : N.Posts store
  accepted : N.Accepted disp ingress d
  answered : ∀ c a, N.Answered c a → c ∈ N.commands ∧ N.Attests disp ingress d c a

section

variable {disp : BrokerDispatcher} {ingress : Ingress} {store : ClientStore} {d : Device}
  {N N' : Network} {U' : Uplink} {cs : List Command}

theorem Network.inv_initial : Network.initial.Inv disp ingress store d where
  broker := Process.inv_initial
  posts :=
    { payloads := by rintro _ _ ⟨⟩
      posted := by rintro _ ⟨⟩
      single := by rintro _ _ ⟨⟩
      posting := by rintro _ _ _ ⟨⟩ }
  accepted :=
    { artifacts := by rintro _ ⟨⟩
      unambiguous := by rintro _ ⟨⟩
      billed := by rintro _ ⟨⟩
      operations := by rintro _ _ ⟨⟩
      payloads := by rintro _ ⟨⟩
      claimed := by rintro _ ⟨⟩ }
  answered := by rintro _ _ ⟨⟩

/-! ### The client -/

theorem Bears.resumes {r r' : ClientRow} {p : Payload} (h : Bears store r p) (h' : Resumes r r') :
    Bears store r' p :=
  ⟨h'.flowId.trans h.flowId, h'.digest.trans h.digest⟩

/-- **The client goes on**: it posts what it has stored. -/
theorem Network.Posts.uplink (h : N.Posts store)
    (hstep : Uplink.Step store N.Answered (· ∈ N.shown) N.uplink cs U') :
    Network.Posts store { N with uplink := U', commands := N.commands ++ cs } := by
  -- a payload that is sent is in a row, which the step leaves
  have hsends : ∀ p, .submit p ∈ cs → ∃ r, N.tables.operation? p.operationId = some r ∧
      Bears store r p ∧ r.payload = some p ∧ U'.tables = N.tables := by
    intro p hp
    cases hstep.sends hp with
    | @submit op _ r _ hr hpayload _ htables =>
      obtain ⟨rfl, hbears⟩ := h.payloads op r hr p hpayload
      exact ⟨r, hr, hbears, hpayload, htables⟩
  constructor
  · intro op r' hr' p hp
    have hrow := hstep.row op
    rw [show U'.tables.operation? op = some r' from hr'] at hrow
    generalize hr : N.uplink.tables.operation? op = o at hrow
    cases hrow with
    | create op' flow origin prompt artifactIds wait now =>
      obtain rfl : op' = op := operationId_of_operation? hr'
      obtain rfl := Option.some.inj hp
      exact ⟨rfl, rfl, rfl⟩
    | keep hres =>
      obtain hsame | hnone := hres.payload
      · obtain ⟨hop, hbears⟩ := h.payloads op _ hr p (hsame ▸ hp)
        exact ⟨hop, hbears.resumes hres⟩
      · cases hnone.symm.trans hp
  · intro p hp
    rcases List.mem_append.mp hp with hp | hp
    · obtain ⟨r, hr, hbears, hunique⟩ := h.posted p hp
      obtain ⟨r', hr', hres, -⟩ := hstep.kept hr
      refine ⟨r', hr', hbears.resumes hres, fun q hq => ?_⟩
      obtain hsame | hnone := hres.payload
      · exact hunique q (hsame ▸ hq)
      · cases hnone.symm.trans hq
    · obtain ⟨r, hr, hbears, hpayload, htables⟩ := hsends p hp
      refine ⟨r, ?_, hbears, fun q hq => Option.some.inj (hq.symm.trans hpayload)⟩
      rw [← hr, ← htables]
      rfl
  · intro p q hp hq hop
    rcases List.mem_append.mp hp with hp | hp <;> rcases List.mem_append.mp hq with hq | hq
    · exact h.single p q hp hq hop
    · obtain ⟨r, hr, -, hpayload, -⟩ := hsends q hq
      obtain ⟨r', hr', -, hunique⟩ := h.posted p hp
      obtain rfl := Option.some.inj (hr.symm.trans (hop ▸ hr'))
      exact (hunique q hpayload).symm
    · obtain ⟨r, hr, -, hpayload, -⟩ := hsends p hp
      obtain ⟨r', hr', -, hunique⟩ := h.posted q hq
      obtain rfl := Option.some.inj ((hop ▸ hr).symm.trans hr')
      exact hunique p hpayload
    · obtain ⟨r, hr, -, hpayload, -⟩ := hsends p hp
      obtain ⟨r', hr', -, hpayload', -⟩ := hsends q hq
      obtain rfl := Option.some.inj ((hop ▸ hr).symm.trans hr')
      exact Option.some.inj (hpayload.symm.trans hpayload')
  · intro op p todo hposition
    rcases hstep.posting hposition with hold | ⟨hp, r, hr, hpayload⟩
    · obtain ⟨hp, hop⟩ := h.posting op p todo hold
      exact ⟨List.mem_append_left _ hp, hop⟩
    · exact ⟨List.mem_append_right _ hp, (h.payloads op r hr p hpayload).1⟩


/-! ### The broker -/

/-- What a step makes of the ledger, when the requests of the device are among `known`. -/
structure Turns (disp : BrokerDispatcher) (d : Device) (known : OperationRequest → Prop)
    (L L' : Ledger) : Prop where
  moves : ∃ late ks, BrokerMoves late L ks L'
  operations : ∀ op r', L'.operation? (d, op) = some r' →
    (∃ r, L.operation? (d, op) = some r ∧ r'.digest = r.digest) ∨
      ∃ request, known request ∧ request.operationId = op ∧
      r'.digest = disp.store.digest request ∧ Admits disp.store d L.artifacts request
  payloads : ∀ b ∈ L'.payloads, b.deviceId = d → b ∈ L.payloads ∨
    known b.request ∧ Admits disp.store d L.artifacts b.request
  billed : Billed L'

/-- A step that serves a request runs its handler. -/
theorem serve_of_step {B B' : Process} {request : Request} {reply : Reply}
    (h : Process.Step disp B (.serve d request reply) B') : ∃ clock uuids s',
      disp.store.serve d request ⟨B.ledger, clock, uuids⟩ = .ok (reply, s') ∧
      B'.ledger = s'.ledger := by
  generalize hact : Act.serve d request reply = act at h
  cases h with
  | serve hserve =>
    obtain ⟨rfl, rfl, rfl⟩ := Act.serve.inj hact
    exact ⟨_, _, _, hserve, rfl⟩
  | @task _ _ _ _ p => cases p <;> cases hact
  | _ => cases hact

/-- What `accept` inserts for a new request. -/
theorem accepted_of_serve {request : OperationRequest} {reply : Reply} {s s' : Broker.Session}
    (h : disp.store.serve d (.accept request) s = .ok (reply, s'))
    (hnew : s.ledger.operation? (d, request.operationId) = none) :
    Admits disp.store d s.ledger.artifacts request ∧
      (∃ r, s'.ledger.operation? (d, request.operationId) = some r ∧
        r.digest = disp.store.digest request) ∧
      ∃ b, s'.ledger.payloads = s.ledger.payloads ++ [b] ∧ b.request = request := by
  obtain ⟨⟨snap, created⟩, haccept, -⟩ := Tx.map_eq_ok.mp h
  cases created with
  | false =>
    rcases accept_eq_ok haccept with ⟨previous, hprevious, -⟩ | ⟨-, -, -, _, _, _, _, _, -, hret, -⟩
    · cases hnew.symm.trans hprevious
    · cases (Prod.mk.inj hret).2
  | true =>
    obtain ⟨-, happends, hrow⟩ := accept_created haccept
    obtain ⟨b, hb, -, hrequest⟩ := happends.payload
    exact ⟨accept_admits haccept, hrow, b, hb, hrequest⟩

/-- **A step of the broker.** -/
theorem turns_of_step {B B' : Process} {act : Act} {known : OperationRequest → Prop}
    (hinv : B.Inv) (hbilled : Billed B.ledger) (h : Process.Step disp B act B')
    (hknown : ∀ request reply, act = .serve d (.accept request) reply → known request) :
    Turns disp d known B.ledger B'.ledger := by
  obtain ⟨⟨ks, hmoves⟩, -⟩ := h.disciplined hinv
  have hbilled' := billed_of_trace hmoves hbilled
  -- an operation that is new is the one the step accepts
  have hnew : ∀ op r', B'.ledger.operation? (d, op) = some r' →
      B.ledger.operation? (d, op) = none → ∃ request, known request ∧ request.operationId = op ∧
        r'.digest = disp.store.digest request ∧ Admits disp.store d B.ledger.artifacts request ∧
        ∃ b, B'.ledger.payloads = B.ledger.payloads ++ [b] ∧ b.request = request := by
    intro op r' hr' hnone
    rcases h.intake hinv hr' with ⟨r, hr, -⟩ | ⟨request, reply, rfl, rfl, -⟩
    · cases hnone.symm.trans hr
    · refine ⟨request, hknown request reply rfl, rfl, ?_⟩
      obtain ⟨clock, uuids, s', hserve, hledger⟩ := serve_of_step h
      obtain ⟨hadmits, ⟨r, hr, hdigest⟩, hpayload⟩ := accepted_of_serve hserve hnone
      rw [hledger] at hr' ⊢
      obtain rfl := Option.some.inj (hr.symm.trans hr')
      exact ⟨hdigest, hadmits, hpayload⟩
  refine ⟨⟨_, ks, hmoves⟩, fun op r' hr' => ?_, fun b hb hd => ?_, hbilled'⟩
  · cases hr : B.ledger.operation? (d, op) with
    | some r =>
      obtain ⟨r'', hr'', hdesc⟩ := descends_of_trace hmoves hr
      obtain rfl := Option.some.inj (hr''.symm.trans hr')
      exact .inl ⟨r, rfl, hdesc.digest⟩
    | none =>
      obtain ⟨request, hrequest, hop, hdigest, hadmits, -⟩ := hnew op r' hr' hr
      exact .inr ⟨request, hrequest, hop, hdigest, hadmits⟩
  · refine (payload_of_trace hmoves hb).imp_right fun hnone => ?_
    obtain ⟨r', hr', -⟩ := hbilled' b hb
    subst hd
    obtain ⟨request, hrequest, -, -, hadmits, b', hpayloads, rfl⟩ := hnew _ r' hr' hnone
    rw [hpayloads] at hb
    rcases List.mem_append.mp hb with hold | hb
    · obtain ⟨r, hr, -⟩ := hbilled b hold
      cases hnone.symm.trans hr
    · obtain rfl := List.mem_singleton.mp hb
      exact ⟨hrequest, hadmits⟩


theorem Network.Requested.mono {request : OperationRequest} (h : N.Requested ingress request)
    (hle : ∀ c ∈ N.commands, c ∈ N'.commands) : N'.Requested ingress request := by
  obtain ⟨p, hp, hrest⟩ := h
  exact ⟨p, hle _ hp, hrest⟩

/-- What was accepted, after the broker goes on. -/
theorem Network.Accepted.turns (h : N.Accepted disp ingress d)
    (hturns : Turns disp d (N.Requested ingress) N.broker.ledger N'.broker.ledger)
    (hcommands : ∀ c ∈ N.commands, c ∈ N'.commands) (hle : ∀ a ∈ N.artifacts, a ∈ N'.artifacts)
    (hartifacts : ∀ a ∈ N'.broker.ledger.artifacts, a ∈ N'.artifacts)
    (hunambiguous : Unambiguous N'.artifacts)
    (hclaimed : ∀ c ∈ N'.claimed, c ∈ N.claimed ∨ c.Sourced disp.store N.broker.ledger) :
    N'.Accepted disp ingress d where
  artifacts := hartifacts
  unambiguous := hunambiguous
  billed := hturns.billed
  operations op r' hr' := by
    rcases hturns.operations op r' hr' with ⟨r, hr, hdigest⟩ |
      ⟨request, hrequest, hop, hdigest, hadmits⟩
    · obtain ⟨request, hrequest, hop, hdigest', hadmits⟩ := h.operations op r hr
      exact ⟨request, hrequest.mono hcommands, hop, hdigest.trans hdigest', hadmits.mono hle⟩
    · exact ⟨request, hrequest.mono hcommands, hop, hdigest,
        hadmits.mono fun a ha => hle a (h.artifacts a ha)⟩
  payloads b hb hd := by
    rcases hturns.payloads b hb hd with hb | ⟨hrequested, hadmits⟩
    · obtain ⟨hrequested, hadmits⟩ := h.payloads b hb hd
      exact ⟨hrequested.mono hcommands, hadmits.mono hle⟩
    · exact ⟨hrequested.mono hcommands, hadmits.mono fun a ha => hle a (h.artifacts a ha)⟩
  claimed c hc hd := by
    rcases hclaimed c hc with hc | ⟨p, hp, hpd, hrequest, found, hattaches⟩
    · obtain ⟨hrequested, hadmits, found, hattaches⟩ := h.claimed c hc hd
      exact ⟨hrequested.mono hcommands, hadmits.mono hle, found, hattaches.mono hle⟩
    · subst hd
      obtain ⟨hrequested, hadmits⟩ := hrequest ▸ h.payloads p hp hpd
      exact ⟨hrequested.mono hcommands, hadmits.mono hle, found,
        hattaches.mono fun a ha => hle a (h.artifacts a ha)⟩

/-! ### Answers -/

/-- **An answer stays true.** -/
theorem Network.Attests.move {c : Command} {a : Outcome} {late : Prop} {ks : List Key}
    (h : N.Attests disp ingress d c a)
    (hmoves : BrokerMoves late N.broker.ledger ks N'.broker.ledger)
    (hle : ∀ a ∈ N.artifacts, a ∈ N'.artifacts) : N'.Attests disp ingress d c a := by
  cases c with
  | get op => trivial
  | submit p =>
    cases a with
    | ok => trivial
    | snapshot snap =>
      obtain ⟨r, hr⟩ := h
      obtain ⟨r', hr', -⟩ := descends_of_trace hmoves hr
      exact ⟨r', hr'⟩
    | refused status => exact fun hstatus request hrequest => (h hstatus request hrequest).mono hle
  | cancel op =>
    cases a with
    | ok | refused => trivial
    | snapshot snap =>
      obtain ⟨r, hr, hstopped⟩ := h
      exact stopped_of_trace hmoves hr hstopped
  | receipt op resultId status =>
    cases a with
    | snapshot | refused => trivial
    | ok =>
      obtain ⟨id, hid, hreceived⟩ := h
      refine ⟨id, hid, hmoves.invariant (I := fun L => Received L _) ?_ hreceived⟩
      exact fun h hmove => h.move hmove

/-- A receipt that is taken is in the ledger. -/
theorem received_of_receipt {k : Key} {id : Uuid} {status : Broker.ReceiptStatus}
    {s s' : Broker.Session} (h : BrokerStore.receipt k id status s = .ok ((), s')) :
    Received s'.ledger (k, id, status) := by
  have hthere : ∃ r, s.ledger.operation? k = some r ∧ r.resultId = some id := by
    simp only [BrokerStore.receipt, Tx.bind_eq_ok, Tx.refuse_eq_ok, Broker.row_eq_ok] at h
    obtain ⟨_, t, hdev, r, _, ⟨hr, rfl⟩, _, _, ⟨hid, -⟩, -⟩ := h
    obtain ⟨-, hops, -⟩ :=
      @BrokerStore.device_eq_ok (fun _ _ => True) (fun _ _ _ => True) _ _ _ hdev
    rw [Ledger.operation?, hops] at hr
    exact ⟨r, hr, not_not.mp hid⟩
  obtain ⟨r, hr, hid⟩ := hthere
  obtain ⟨s'', htaken, hreceived, -⟩ := @receipt_taken k id status s r hr hid
  obtain ⟨-, rfl⟩ := Prod.mk.inj (Except.ok.inj (h.symm.trans htaken))
  exact hreceived

/-- A request that is read is for the operation it was sent for. -/
theorem request_submit {p : Payload} {request : Request}
    (h : ingress.request (.submit p) = .ok request) :
    ∃ r : OperationRequest, request = .accept r ∧ r.operationId = p.operationId := by
  rw [Ingress.request] at h
  split_ifs at h with hsize
  cases hvalid : ingress.validate p with
  | none =>
    rw [hvalid] at h
    cases h
  | some r =>
    rw [hvalid] at h
    refine ⟨r, (Except.ok.inj h).symm, ?_⟩
    rw [Ingress.validate] at hvalid
    split_ifs at hvalid
    obtain ⟨ids, -, rfl⟩ := Option.map_eq_some_iff.mp hvalid
    rfl

theorem request_receipt {op : Uuid} {resultId : String} {status : Client.ReceiptStatus}
    {request : Request} (h : ingress.request (.receipt op resultId status) = .ok request) :
    ∃ id, ingress.parseUuid resultId = some id ∧
      request = .receipt op id (postedStatus status) := by
  rw [Ingress.request] at h
  split_ifs at h with hsize
  cases hid : ingress.parseUuid resultId with
  | none =>
    rw [hid] at h
    cases h
  | some id =>
    rw [hid] at h
    exact ⟨id, rfl, (Except.ok.inj h).symm⟩

/-- A refusal for good is of a request no artifacts make admissible. -/
theorem Network.Inv.refused (h : N.Inv disp ingress store d) {p : Payload}
    (hp : .submit p ∈ N.commands) {request : OperationRequest}
    (hrequest : ingress.request (.submit p) = .ok (.accept request)) {clock : ℕ → Time}
    {uuids : ℕ → Uuid} {e : Broker.Failure}
    (hrespond : disp.store.respond d (.accept request) ⟨N.broker.ledger, clock, uuids⟩ = .error e)
    {status : ℕ} (hanswer : answerOf (Response.of (.error e)) = some (.refused status))
    (hstatus : status ∈ rejections) : Inadmissible disp.store d N.artifacts request := by
  cases e with
  | database | other =>
    obtain rfl := Outcome.refused.inj (Option.some.inj hanswer)
    exact absurd hstatus (by decide)
  | broker b =>
    obtain rfl := Outcome.refused.inj (Option.some.inj hanswer)
    have haccept : disp.store.accept d request ⟨N.broker.ledger, clock, uuids⟩ =
        .error (.broker b) := by
      rcases Tx.bind_eq_error.mp hrespond with haccept | ⟨_, _, -, hfalse⟩
      · exact haccept
      · exact (Tx.pure_eq_error.mp hfalse).elim
    rcases accept_refused haccept with ⟨r, hr, hdigest⟩ | hinadmissible | hother
    · -- the operation was accepted from the same request
      obtain ⟨request', ⟨p', hp', hop', hrequest'⟩, hop, hdigest', -⟩ :=
        h.accepted.operations _ r hr
      obtain ⟨r', heq, hop''⟩ := request_submit hrequest
      obtain rfl := Request.accept.inj heq
      obtain rfl := h.posts.single p' p hp' hp (hop'.trans (hop.trans hop''))
      obtain rfl := Request.accept.inj (Except.ok.inj (hrequest.symm.trans hrequest'))
      exact absurd hdigest' hdigest
    · exact hinadmissible.mono h.accepted.artifacts
    · rcases hother with hb | hb | hb <;> rw [hb] at hstatus <;> exact absurd hstatus (by decide)

/-- **A handler answers the truth.** -/
theorem Network.Inv.answer (h : N.Inv disp ingress store d) {c : Command} (hc : c ∈ N.commands)
    {clock : ℕ → Time} {uuids : ℕ → Uuid} {response : Response} {L' : Ledger}
    (hanswer : BrokerStore.answer disp.store ingress d c ⟨N.broker.ledger, clock, uuids⟩ =
      (response, L')) {a : Outcome} (ha : answerOf response = some a) (hN' : N'.broker.ledger = L')
    (hartifacts : N'.artifacts = N.artifacts) : N'.Attests disp ingress d c a := by
  subst hN'
  obtain ⟨request, status, reply, s', hrequest, hrespond, rfl, hledger⟩ |
    ⟨request, e, hrequest, hrespond, rfl, -⟩ | ⟨e, hrequest, rfl, -⟩ := answer_cases hanswer
  · have hserve := respond_eq_ok hrespond
    cases c with
    | get op => trivial
    | submit p =>
      obtain ⟨r, rfl, hop⟩ := request_submit hrequest
      obtain ⟨⟨snap, created⟩, haccept, rfl⟩ := Tx.map_eq_ok.mp hserve
      obtain rfl := Option.some.inj ha
      rw [Network.Attests, hledger, ← hop]
      rcases accept_eq_ok haccept with ⟨r', hr', -, -, hL⟩ | ⟨hnone, -⟩
      · exact ⟨r', by rw [hL, Ledger.operation?_withDevice]; exact hr'⟩
      · obtain ⟨-, ⟨r', hr', -⟩, -⟩ := accepted_of_serve hserve hnone
        exact ⟨r', hr'⟩
    | cancel op =>
      obtain rfl := Except.ok.inj hrequest
      obtain ⟨x, hcancel, rfl⟩ := Tx.map_eq_ok.mp hserve
      obtain rfl := Option.some.inj ha
      rw [Network.Attests, hledger]
      exact cancelIntent_stops hcancel
    | receipt op resultId status =>
      obtain ⟨id, hid, rfl⟩ := request_receipt hrequest
      obtain ⟨_, _, htaken, hret⟩ := Tx.bind_eq_ok.mp hserve
      obtain ⟨rfl, rfl⟩ := Prod.mk.inj (Tx.pure_eq_ok.mp hret)
      obtain rfl := Option.some.inj ha
      exact ⟨id, hid, hledger ▸ received_of_receipt htaken⟩
  · obtain ⟨status, rfl⟩ : ∃ status, a = .refused status := by
      cases e <;> exact ⟨_, (Option.some.inj ha).symm⟩
    cases c with
    | get | cancel | receipt => trivial
    | submit p =>
      intro hstatus request' hrequest'
      obtain rfl := Except.ok.inj (hrequest'.symm.trans hrequest)
      exact hartifacts ▸ h.refused hc hrequest' hrespond ha hstatus
  · obtain rfl := Option.some.inj ha
    cases c with
    | get | cancel | receipt => trivial
    | submit p =>
      intro _ request' hrequest'
      cases hrequest.symm.trans hrequest'

/-! ### Every step -/

/-- A command is read as a request of its own kind. -/
theorem request_kind {c : Command} {request : Request} (h : ingress.request c = .ok request) :
    (∀ content digest contentType, request ≠ .upload content digest contentType) ∧
      ∀ r, request = .accept r → ∃ p, c = .submit p ∧ p.operationId = r.operationId := by
  cases c with
  | get op | cancel op =>
    obtain rfl := Except.ok.inj h
    exact ⟨fun _ _ _ => by rintro ⟨⟩, fun _ => by rintro ⟨⟩⟩
  | submit p =>
    obtain ⟨r, rfl, hop⟩ := request_submit h
    refine ⟨fun _ _ _ => by rintro ⟨⟩, fun r' hr' => ⟨p, rfl, ?_⟩⟩
    rw [← Request.accept.inj hr', hop]
  | receipt op resultId status =>
    obtain ⟨id, -, rfl⟩ := request_receipt h
    exact ⟨fun _ _ _ => by rintro ⟨⟩, fun _ => by rintro ⟨⟩⟩

theorem Turns.refl {known : OperationRequest → Prop} {L : Ledger} (h : Billed L) :
    Turns disp d known L L where
  moves := ⟨False, [], .nil⟩
  operations _ r' hr' := .inl ⟨r', hr', rfl⟩
  payloads _ hb _ := .inl hb
  billed := h

/-- The broker goes on, and answers. -/
theorem Network.Inv.turned (h : N.Inv disp ingress store d) {B' : Process}
    {answers : List (Command × Outcome)} {shown : List Snapshot} {claimed : List Claim}
    {artifacts : List ArtifactRow} (hbroker : B'.Inv)
    (hturns : Turns disp d (N.Requested ingress) N.broker.ledger B'.ledger)
    (hle : ∀ a ∈ N.artifacts, a ∈ artifacts) (hartifacts : ∀ a ∈ B'.ledger.artifacts, a ∈ artifacts)
    (hunambiguous : Unambiguous artifacts)
    (hclaimed : ∀ c ∈ claimed, c ∈ N.claimed ∨ c.Sourced disp.store N.broker.ledger)
    (hanswers : ∀ c a, (c, a) ∈ answers → N.Answered c a ∨ c ∈ N.commands ∧
      Network.Attests disp ingress d ⟨B', N.uplink, N.commands, answers, shown, claimed, artifacts⟩
        c a) :
    Network.Inv disp ingress store d
      ⟨B', N.uplink, N.commands, answers, shown, claimed, artifacts⟩ where
  broker := hbroker
  posts := ⟨h.posts.payloads, h.posts.posted, h.posts.single, h.posts.posting⟩
  accepted := h.accepted.turns hturns (fun _ => id) hle hartifacts hunambiguous hclaimed
  answered c a ha := by
    rcases hanswers c a ha with hold | hnew
    · obtain ⟨hc, hattests⟩ := h.answered c a hold
      obtain ⟨late, ks, hmoves⟩ := hturns.moves
      exact ⟨hc, hattests.move hmoves hle⟩
    · exact hnew

/-- A command is handled. -/
theorem Network.Inv.handle (h : N.Inv disp ingress store d) {c : Command} (hc : c ∈ N.commands)
    {clock : ℕ → Time} {uuids : ℕ → Uuid} {response : Response} {L' : Ledger}
    (hanswer : BrokerStore.answer disp.store ingress d c ⟨N.broker.ledger, clock, uuids⟩ =
      (response, L')) :
    Turns disp d (N.Requested ingress) N.broker.ledger L' ∧
      (∀ a ∈ L'.artifacts, a ∈ N.broker.ledger.artifacts) ∧
      Process.Inv { N.broker with ledger := L' } := by
  obtain ⟨request, status, reply, s', hrequest, hrespond, rfl, rfl⟩ |
    ⟨request, e, -, -, -, rfl⟩ | ⟨e, -, -, rfl⟩ := answer_cases hanswer
  · have hserve := respond_eq_ok hrespond
    have hserved : Process.Step disp N.broker (.serve d request reply) _ := .serve hserve
    obtain ⟨hupload, hkind⟩ := request_kind hrequest
    refine ⟨turns_of_step h.broker h.accepted.billed hserved fun r reply' hact => ?_,
      fun a ha => (serve_lapses hupload hserve).sublist.subset ha,
      (hserved.disciplined h.broker).2⟩
    obtain ⟨-, rfl, -⟩ := Act.serve.inj hact
    obtain ⟨p, rfl, hop⟩ := hkind r rfl
    exact ⟨p, hc, hop, hrequest⟩
  · exact ⟨.refl h.accepted.billed, fun _ => id, h.broker⟩
  · exact ⟨.refl h.accepted.billed, fun _ => id, h.broker⟩

/-- **One step of the system.** -/
theorem Network.Step.inv (h : N.Inv disp ingress store d)
    (hstep : Network.Step disp ingress store d N N') : N'.Inv disp ingress store d := by
  cases hstep with
  | @handle c clock uuids response L' hc hanswer =>
    obtain ⟨hturns, hartifacts, hbroker⟩ := h.handle hc hanswer
    refine h.turned hbroker hturns (fun _ => id)
      (fun a ha => h.accepted.artifacts a (hartifacts a ha)) h.accepted.unambiguous (fun _ => .inl)
      fun c' a ha => ?_
    refine (List.mem_append.mp ha).imp_right fun ha => ?_
    obtain ⟨a', ha', heq⟩ := List.mem_map.mp ha
    obtain ⟨rfl, rfl⟩ := Prod.mk.inj heq
    exact ⟨hc, h.answer hc hanswer (Option.mem_toList.mp ha') rfl rfl⟩
  | @outage c status hc hstatus =>
    refine h.turned h.broker (.refl h.accepted.billed) (fun _ => id) h.accepted.artifacts
      h.accepted.unambiguous (fun _ => .inl) fun c' a ha => ?_
    refine (List.mem_append.mp ha).imp_right fun ha => ?_
    obtain ⟨rfl, rfl⟩ := Prod.mk.inj (List.mem_singleton.mp ha)
    refine ⟨hc, ?_⟩
    cases c' with
    | get | cancel | receipt => trivial
    | submit p =>
      intro hrejected
      have hlow : ∀ status ∈ rejections, status < 500 := by decide
      exact absurd hstatus (not_le.mpr (hlow status hrejected))
  | @broker act B' hbroker hforeign _ hfresh =>
    have hturns : Turns disp d (N.Requested ingress) N.broker.ledger B'.ledger := by
      refine turns_of_step h.broker h.accepted.billed hbroker fun r reply hact => ?_
      rw [hact] at hforeign
      exact absurd rfl hforeign
    refine h.turned (hbroker.disciplined h.broker).2 hturns (fun _ => List.mem_append_left _)
      (fun _ => List.mem_append_right _) ?_ (fun _ => .inl) fun _ _ => .inl
    intro a ha b hb hkey
    rcases List.mem_append.mp ha with ha' | ha'
    · rcases List.mem_append.mp hb with hb' | hb'
      · exact h.accepted.unambiguous a ha' b hb' hkey
      · exact (hfresh b hb' a ha hkey.symm).symm
    · exact hfresh a ha' b hb hkey
  | @claim c clock uuids s' B' hbroker hclaim hledger =>
    have hturns : Turns disp d (N.Requested ingress) N.broker.ledger B'.ledger :=
      turns_of_step h.broker h.accepted.billed hbroker fun r reply hact => by cases hact
    have hkept : Lapses ⟨N.broker.ledger, clock, uuids⟩ s' := Frame.claim_keeps _ _ _ hclaim
    refine h.turned (hbroker.disciplined h.broker).2 hturns (fun _ => id) (fun a ha => ?_)
      h.accepted.unambiguous (fun x hx => ?_) fun _ _ => .inl
    · exact h.accepted.artifacts a (hkept.sublist.subset (hledger ▸ ha))
    · refine (List.mem_append.mp hx).imp_right fun hx => ?_
      rw [List.mem_singleton.mp hx]
      exact claim_sourced hclaim
  | client huplink =>
    refine ⟨h.broker, h.posts.uplink huplink, ?_, fun c a ha => ?_⟩
    · exact h.accepted.turns (.refl h.accepted.billed) (fun _ => List.mem_append_left _)
        (fun _ => id) h.accepted.artifacts h.accepted.unambiguous fun _ => .inl
    · obtain ⟨hc, hattests⟩ := h.answered c a ha
      have hmoves : BrokerMoves False N.broker.ledger [] N.broker.ledger := .nil
      exact ⟨List.mem_append_left _ hc, hattests.move hmoves fun _ => id⟩

/-- **Every run.** -/
theorem Network.Run.inv (hrun : Network.Run disp ingress store d N N')
    (h : N.Inv disp ingress store d) : N'.Inv disp ingress store d := by
  induction hrun with
  | refl => exact h
  | tail _ hstep ih => exact hstep.inv ih

end

end HermesGateway.System
