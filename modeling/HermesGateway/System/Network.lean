import HermesGateway.Broker.Isolation
import HermesGateway.Client.Uplink
import HermesGateway.System.Receipts

/-!
# Commands on the network

The broker and the client of one device, with the commands between them. What the client sends stays
in flight for good: the broker may handle it never, late, or any number of times, and the client may
read any answer that was ever given to it, or none. The requests of other devices, the uploads and
the dispatcher are any steps of the broker.

The client's requests are admitted: they come over HTTPS with the token of the device. What fails
on the way is answered with a status of a server, 500 or above.

Answers age: a mark the client leaves may rest on one that was given long ago. It is right as long
as answers stay true, which is what the invariant says of each of them (`Network.Attests`).

## Main definitions

* `Ingress`, `BrokerStore.answer` — what the handlers make of a command
* `Network`, `Network.Step` — the system
* `Network.forget` — the same without commands

## Main results

* `Network.Step.exchange`, `Network.Run.exchange` — a step is one of `Exchange`, without the
  commands
* `Network.Run.honest` — what the client holds was shown, and what was shown is right
-/

namespace HermesGateway.System

open Broker BrokerStore Client ClientStore

/-! ### Handlers -/

/-- What the handlers read a body with: the limit of its size, the size it is sent in, and the
validator's reading of a text where a UUID is expected. -/
structure Ingress where
  maxRequestBytes : ℕ
  bodySize : Command → ℕ
  parseUuid : String → Option Uuid

/-- A `BrokerError` that a handler raises before it calls the store. -/
structure Refusal where
  code : String
  message : String
  status : ℕ

/-- `bounded_body` gives up. -/
def tooLarge : Refusal := ⟨"request_too_large", "request exceeds configured size limit", 413⟩

namespace Ingress

variable (ingress : Ingress)

/-- `OperationRequest.model_validate_json`. -/
def validate (p : Payload) : Option OperationRequest :=
  if 1 ≤ p.prompt.length ∧ p.prompt.length ≤ 1000000 ∧ p.artifactIds.length ≤ 16 then
    (p.artifactIds.mapM ingress.parseUuid).map fun ids => ⟨p.operationId, p.flowId, p.prompt, ids⟩
  else none

/-- The request a command is read as. -/
def request : Command → Except Refusal Request
  | .get op => .ok (.get op)
  | .cancel op => .ok (.cancel op)
  | .submit p =>
    if ingress.maxRequestBytes < ingress.bodySize (.submit p) then .error tooLarge
    else
      match ingress.validate p with
      | some request => .ok (.accept request)
      | none => .error ⟨"invalid_request", "invalid operation request", 400⟩
  | .receipt op resultId status =>
    if 4096 < ingress.bodySize (.receipt op resultId status) then .error tooLarge
    else
      match ingress.parseUuid resultId with
      | some id => .ok (.receipt op id (postedStatus status))
      | none => .error ⟨"invalid_request", "invalid receipt request", 400⟩

end Ingress

/-- The response to a command, and the ledger it leaves. -/
def BrokerStore.answer (store : BrokerStore) (ingress : Ingress) (d : Device) (c : Command)
    (s : Broker.Session) : Response × Ledger :=
  match ingress.request c with
  | .error e => (.refused e.code e.message e.status none, s.ledger)
  | .ok request =>
    (Response.of ((store.respond d request s).map Prod.fst),
      ledgerAfter s.ledger (store.respond d request s))

/-- What the client reads of a response. -/
def answerOf : Response → Option Outcome
  | .reply _ (.snapshot s) => some (.snapshot s)
  | .reply _ .ok => some .ok
  | .refused _ _ status _ => some (.refused status)
  | .internal => some (.refused 500)
  | .reply .. | .health | .policy => none

/-- The snapshots of a response. -/
def snapshotsOf : Response → List Snapshot
  | .reply _ reply => reply.snapshots
  | .refused .. | .internal | .health | .policy => []

/-! ### The system -/

/-- The broker and the client of a device: the commands that were ever sent and the answers that
were ever given, the snapshots that were shown, what was claimed, and the artifacts that were ever
stored. -/
structure Network where
  broker : Process
  uplink : Uplink
  commands : List Command
  answers : List (Command × Outcome)
  shown : List Snapshot
  claimed : List Claim
  artifacts : List ArtifactRow

namespace Network

/-- Empty tables, and nothing in flight. -/
def initial : Network := ⟨Process.initial, Uplink.initial, [], [], [], [], []⟩

/-- The client's tables. -/
def tables (N : Network) : Tables := N.uplink.tables

/-- An answer was given to a command. -/
def Answered (N : Network) (c : Command) (a : Outcome) : Prop := (c, a) ∈ N.answers

/-- The broker goes on. -/
def serve (N : Network) (B' : Process) (shown : List Snapshot) : Network :=
  { N with
    broker := B'
    shown := N.shown ++ shown
    artifacts := N.artifacts ++ B'.ledger.artifacts }

end Network

/-- A step that handles no command of the device. -/
def Foreign (d : Device) : Act → Prop
  | .serve d' (.accept _) _ | .serve d' (.cancel _) _ | .serve d' (.receipt ..) _ => d' ≠ d
  | _ => True

/-- `uuid4()` does not repeat itself: an artifact that is stored has the key of no other one. -/
def Fresh (N : Network) (L : Ledger) : Prop :=
  ∀ a ∈ L.artifacts, ∀ b ∈ N.artifacts ++ L.artifacts, b.key = a.key → b = a

/-- One step of the system. -/
inductive Network.Step (disp : BrokerDispatcher) (ingress : Ingress) (store : ClientStore)
    (d : Device) : Network → Network → Prop
  /-- A command is handled. -/
  | handle {N : Network} {c : Command} {clock : ℕ → Time} {uuids : ℕ → Uuid}
      {response : Response} {L' : Ledger} (hc : c ∈ N.commands)
      (h : BrokerStore.answer disp.store ingress d c ⟨N.broker.ledger, clock, uuids⟩ =
        (response, L')) :
      Network.Step disp ingress store d N
        { N with
          broker := { N.broker with ledger := L' }
          answers := N.answers ++ (answerOf response).toList.map fun a => (c, a)
          shown := N.shown ++ snapshotsOf response }
  /-- The server, or the way to it, fails. -/
  | outage {N : Network} {c : Command} {status : ℕ} (hc : c ∈ N.commands)
      (hstatus : 500 ≤ status) :
      Network.Step disp ingress store d N
        { N with answers := N.answers ++ [(c, .refused status)] }
  /-- The broker does anything else but claim an operation. -/
  | broker {N : Network} {act : Act} {B' : Process} (h : Process.Step disp N.broker act B')
      (hforeign : Foreign d act) (hact : ∀ k, act ≠ .claimed k) (hfresh : Fresh N B'.ledger) :
      Network.Step disp ingress store d N (N.serve B' (sent d act))
  /-- The dispatcher claims an operation. -/
  | claim {N : Network} {c : Claim} {clock : ℕ → Time} {uuids : ℕ → Uuid} {s' : Broker.Session}
      {B' : Process} (h : Process.Step disp N.broker (.claimed c.key) B')
      (hclaim : disp.store.claim ⟨N.broker.ledger, clock, uuids⟩ = .ok (some c, s'))
      (hledger : B'.ledger = s'.ledger) :
      Network.Step disp ingress store d N
        { N with
          broker := B'
          claimed := N.claimed ++ [c] }
  /-- The client takes a step. -/
  | client {N : Network} {cs : List Command} {U' : Uplink}
      (h : Uplink.Step store N.Answered (· ∈ N.shown) N.uplink cs U') :
      Network.Step disp ingress store d N
        { N with
          uplink := U'
          commands := N.commands ++ cs }

/-- Runs of the system. -/
abbrev Network.Run (disp : BrokerDispatcher) (ingress : Ingress) (store : ClientStore)
    (d : Device) : Network → Network → Prop :=
  Relation.ReflTransGen (Network.Step disp ingress store d)

/-! ### Without the commands -/

/-- The broker, the client and what was shown. -/
def Network.forget (N : Network) : Exchange := ⟨N.broker, N.uplink.daemon, N.shown⟩

section

variable {disp : BrokerDispatcher} {ingress : Ingress} {store : ClientStore} {d : Device}
  {N N' : Network}

/-- A command is handled by the store, or refused without a change. -/
theorem answer_cases {c : Command} {s : Broker.Session} {response : Response} {L' : Ledger}
    (h : BrokerStore.answer disp.store ingress d c s = (response, L')) :
    (∃ request status reply s', ingress.request c = .ok request ∧
        disp.store.respond d request s = .ok ((status, reply), s') ∧
        response = .reply status reply ∧ L' = s'.ledger) ∨
      (∃ request e, ingress.request c = .ok request ∧
        disp.store.respond d request s = .error e ∧ response = Response.of (.error e) ∧
        L' = s.ledger) ∨
      ∃ e, ingress.request c = .error e ∧
        response = .refused e.code e.message e.status none ∧ L' = s.ledger := by
  unfold BrokerStore.answer at h
  cases hrequest : ingress.request c with
  | error e =>
    rw [hrequest] at h
    obtain ⟨rfl, rfl⟩ := Prod.mk.inj h
    exact .inr (.inr ⟨e, rfl, rfl, rfl⟩)
  | ok request =>
    rw [hrequest] at h
    obtain ⟨rfl, rfl⟩ := Prod.mk.inj h
    cases hrespond : disp.store.respond d request s with
    | ok x => exact .inl ⟨request, x.1.1, x.1.2, x.2, rfl, hrespond, rfl, rfl⟩
    | error e => exact .inr (.inl ⟨request, e, rfl, hrespond, rfl, rfl⟩)

/-- A failure shows nothing. -/
theorem snapshotsOf_error (e : Broker.Failure) : snapshotsOf (Response.of (.error e)) = [] := by
  cases e <;> rfl

/-! ### One step, without the commands -/

/-- The rest of the client, in the exchange. -/
theorem exchange_background {X : Exchange} {D' : Daemon}
    (h : Background store (· ∈ X.shown) X.client D') :
    ∃ ms, Exchange.Step disp store d X ms { X with client := D' } := by
  cases h with
  | call _ hcall => exact ⟨[], .client (.work (.call hcall))⟩
  | deliver hwork => exact ⟨[], .client (.work hwork)⟩
  | advance hadvance => exact ⟨[], .client (.advance hadvance)⟩
  | ingest hs hingest => exact ⟨_, .ingest hs hingest⟩

/-- A step of the client, in the exchange. -/
theorem exchange_uplink {X : Exchange} {U U' : Uplink} {answered : Command → Outcome → Prop}
    {cs : List Command} (hU : U.daemon = X.client)
    (h : Uplink.Step store answered (· ∈ X.shown) U cs U') :
    ∃ ms, Trace (Exchange.Step disp store d) X ms { X with client := U'.daemon } := by
  obtain ⟨broker, client, shown⟩ := X
  obtain rfl : U.daemon = client := hU
  cases h with
  | background hbackground =>
    obtain ⟨ms, hstep⟩ := exchange_background hbackground
    exact ⟨ms, .single hstep⟩
  | dispatch | ask | post | flush | sendReceipt | leave | dropped => exact ⟨[], .nil⟩
  | found _ _ hs hingest | posted _ _ hs hingest => exact ⟨_, .single (.ingest hs hingest)⟩
  | @spent op todo p state clock uuids s₁ s₂ _ _ hpayload _ hmark =>
    obtain ⟨tables, clock', uuids'⟩ := s₁
    obtain rfl : tables = U.daemon.tables := payload_tables hpayload
    exact ⟨[], .single (.client (.work (.call (c := .markSubmission _ _) hmark)))⟩
  | reject _ _ _ hmark =>
    exact ⟨[], .single (.client (.work (.call (c := .markSubmission _ _) hmark)))⟩
  | sent _ _ hmark => exact ⟨[], .single (.client (.work (.call (c := .receiptSent _) hmark)))⟩
  | cancel hrow _ hmark =>
    obtain ⟨-, -, rfl⟩ := row_eq_ok.mp hrow
    exact ⟨[], .single (.client (.work (.call (c := .cancelState _ _) hmark)))⟩
  | uncanceled _ hmark =>
    exact ⟨[], .single (.client (.work (.call (c := .cancelState _ _) hmark)))⟩
  | canceled _ _ hs hingest hmark =>
    have hin : Exchange.Step disp store d ⟨broker, U.daemon, shown⟩ _ _ := .ingest hs hingest
    exact ⟨_, (Trace.single hin).snoc (.client (.work (.call (c := .cancelState _ _) hmark)))⟩
  | restart hstartup => exact ⟨[], .single (.client (.restart hstartup))⟩

/-- **A step of the system** is one of the exchange, or several, or none. -/
theorem Network.Step.exchange (h : Network.Step disp ingress store d N N') :
    ∃ ms, Trace (Exchange.Step disp store d) N.forget ms N'.forget := by
  have hsame : ∀ {L : Ledger} {l : List Snapshot}, L = N.broker.ledger → l = [] →
      (⟨{ N.broker with ledger := L }, N.uplink.daemon, N.shown ++ l⟩ : Exchange) = N.forget := by
    rintro _ _ rfl rfl
    rw [List.append_nil]
    rfl
  cases h with
  | handle _ hanswer =>
    obtain ⟨request, status, reply, s', -, hrespond, rfl, rfl⟩ |
      ⟨request, e, -, -, rfl, rfl⟩ | ⟨e, -, rfl, rfl⟩ := answer_cases hanswer
    · exact ⟨[], .single (Exchange.Step.serve (respond_eq_ok hrespond))⟩
    · exact ⟨[], hsame rfl (snapshotsOf_error e) ▸ .nil⟩
    · exact ⟨[], hsame rfl rfl ▸ .nil⟩
  | outage => exact ⟨[], .nil⟩
  | broker hbroker => exact ⟨[], .single (.broker hbroker)⟩
  | claim hbroker =>
    have hstep : Exchange.Step disp store d N.forget [] _ := .broker hbroker
    rw [show N.forget.shown ++ sent d _ = N.shown from List.append_nil _] at hstep
    exact ⟨[], .single hstep⟩
  | client huplink => exact exchange_uplink rfl huplink

/-- **Every run** is one of the exchange. -/
theorem Network.Run.exchange (h : Network.Run disp ingress store d N N') :
    ∃ ms, Trace (Exchange.Step disp store d) N.forget ms N'.forget := by
  induction h with
  | refl => exact ⟨[], .nil⟩
  | tail _ hstep ih =>
    obtain ⟨ms, htrace⟩ := ih
    obtain ⟨ms', htrace'⟩ := hstep.exchange
    exact ⟨ms ++ ms', htrace.trans htrace'⟩

/-- What is shown is right, and what the client holds was shown. -/
theorem Network.Run.honest (h : Network.Run disp ingress store d Network.initial N) :
    (∃ ms, N.forget.Inv d ms) ∧ N.forget.Traced := by
  obtain ⟨ms, htrace⟩ := h.exchange
  exact ⟨⟨ms, Trace.labels (I := Exchange.Inv d) (fun h hstep => hstep.inv h) htrace
    Exchange.inv_initial⟩, htrace.invariant (fun h hstep => hstep.traced h) Exchange.traced_initial⟩

/-! ### Longer runs -/

/-- A run goes on with a step of the client. -/
theorem Network.Run.moved (h : Network.Run disp ingress store d N N') {cs : List Command}
    {U' : Uplink} (hstep : Uplink.Step store N'.Answered (· ∈ N'.shown) N'.uplink cs U') :
    Network.Run disp ingress store d N
      { N' with
        uplink := U'
        commands := N'.commands ++ cs } :=
  h.tail (.client hstep)

/-- A command is handled, and answered. -/
theorem Network.Step.handled {c : Command} (hc : c ∈ N.commands) {clock : ℕ → Time}
    {uuids : ℕ → Uuid} {a : Outcome}
    (ha : answerOf (BrokerStore.answer disp.store ingress d c ⟨N.broker.ledger, clock, uuids⟩).1 =
      some a) :
    Network.Step disp ingress store d N
      { N with
        broker := { N.broker with
          ledger :=
            (BrokerStore.answer disp.store ingress d c ⟨N.broker.ledger, clock, uuids⟩).2 }
        answers := N.answers ++ [(c, a)]
        shown := N.shown ++ snapshotsOf
          (BrokerStore.answer disp.store ingress d c ⟨N.broker.ledger, clock, uuids⟩).1 } := by
  have hstep := @Network.Step.handle disp ingress store d N c clock uuids _ _ hc Prod.mk.eta.symm
  rw [ha] at hstep
  exact hstep

/-- A run goes on with a command that is handled. -/
theorem Network.Run.handled (h : Network.Run disp ingress store d N N') {c : Command}
    (hc : c ∈ N'.commands) {clock : ℕ → Time} {uuids : ℕ → Uuid} {a : Outcome}
    (ha : answerOf (BrokerStore.answer disp.store ingress d c ⟨N'.broker.ledger, clock, uuids⟩).1 =
      some a) :
    Network.Run disp ingress store d N
      { N' with
        broker := { N'.broker with
          ledger :=
            (BrokerStore.answer disp.store ingress d c ⟨N'.broker.ledger, clock, uuids⟩).2 }
        answers := N'.answers ++ [(c, a)]
        shown := N'.shown ++ snapshotsOf
          (BrokerStore.answer disp.store ingress d c ⟨N'.broker.ledger, clock, uuids⟩).1 } :=
  h.tail (.handled hc ha)

end

end HermesGateway.System
