import HermesGateway.Broker.Frame
import HermesGateway.Broker.Once

/-!
# Where operations come from

An operation is in the ledger because a request of its device was accepted, and it keeps the flow
of that request. So does the payload it is dispatched with: what `claim` returns names the flow of
the row it was returned for.

## Main definitions

* `SameKeys` — no operation was inserted
* `Billed` — a payload names the flow of its operation

## Main results

* `Step.intake` — an operation a step leaves was there, or the step accepts it
* `claim_flow` — what `claim` returns names the flow of its operation
-/

namespace HermesGateway.Broker

open BrokerStore

/-! ### Rows -/

/-- The operations are the same, whatever became of them. -/
def SameKeys (s s' : Session) : Prop :=
  s'.ledger.operations.map OperationRow.key = s.ledger.operations.map OperationRow.key

theorem sameKeys_of_map {s s' : Session} {f : OperationRow → OperationRow}
    (hf : ∀ r, (f r).key = r.key) (h : s'.ledger.operations = s.ledger.operations.map f) :
    SameKeys s s' := by
  rw [SameKeys, h, List.map_map]
  exact List.map_congr_left fun r _ => hf r

instance : Frame SameKeys where
  refl _ := rfl
  trans _ _ _ h h' := h'.trans h
  map hf hops _ := sameKeys_of_map (fun r => (hf r).1) hops

section

variable {store : BrokerStore} {s s' : Session}

/-- **Every transaction but `accept`** leaves the operations the same. -/
theorem perform_sameKeys {x : Transaction} (haccept : ∀ d r, x ≠ .accept d r) :
    Tx.Keeps SameKeys (store.perform x) := by
  cases x with
  | accept d r => exact absurd rfl (haccept d r)
  | putArtifact d content digest contentType =>
    intro s _ s' h
    obtain ⟨r, hr, -⟩ := Tx.map_eq_ok.mp h
    obtain ⟨-, -, row, now, -, -, -, -, -, -, -, -, -, hledger⟩ := putArtifact_eq_ok hr
    obtain ⟨devices, hdevices⟩ := s.ledger.withDevice_eq d
    rw [SameKeys, hledger, hdevices]
  | reconcilable =>
    refine Tx.Keeps.bind (Frame.readLedger_keeps.bind fun L => ?_) fun _ => Tx.Keeps.pure ()
    refine (Tx.Keeps.forM (fun k => ?_) _).bind fun _ => Tx.Keeps.pure _
    refine Frame.utcnow_keeps.bind fun now => Tx.Keeps.modifyGet fun s =>
      sameKeys_of_map (fun r => ?_) rfl
    split_ifs <;> rfl
  | _ => exact Frame.perform_keeps (by simp) (by simp) (by simp)

/-- An operation that a transaction leaves was there, or it is accepted with the flow of the
request. -/
theorem operation_of_perform {x : Transaction} {k : Key} {r' : OperationRow}
    (h : store.perform x s = .ok ((), s')) (hr' : s'.ledger.operation? k = some r') :
    (∃ r, s.ledger.operation? k = some r) ∨
      ∃ request, x = .accept k.1 request ∧ request.operationId = k.2 ∧
      request.flowId = r'.flowId := by
  by_cases haccept : ∃ d r, x = .accept d r
  · obtain ⟨d, request, rfl⟩ := haccept
    obtain ⟨a, hm, -⟩ := Tx.map_eq_ok.mp h
    obtain ⟨devices, hdevices⟩ := s.ledger.withDevice_eq d
    rcases accept_eq_ok hm with
      ⟨_, -, -, -, hledger⟩ | ⟨-, -, -, now, dev, t₁, t₂, expires, -, -, hledger⟩
    · rw [hledger, hdevices] at hr'
      exact .inl ⟨r', hr'⟩
    · rw [hledger, hdevices, operation?_appendEvent] at hr'
      change Table.lookup OperationRow.key (s.ledger.operations ++ [_]) k = some r' at hr'
      rw [Table.lookup_insert] at hr'
      cases hr : Table.lookup OperationRow.key s.ledger.operations k with
      | some r => exact .inl ⟨r, hr⟩
      | none =>
        rw [hr, Option.none_or] at hr'
        split_ifs at hr' with hkey
        obtain rfl := Option.some.inj hr'
        obtain rfl : (d, request.operationId) = k := hkey
        exact .inr ⟨request, rfl, rfl, rfl⟩
  · refine .inl ?_
    have hkeys := perform_sameKeys (fun d r hx => haccept ⟨d, r, hx⟩) s () s' h
    have hmem : k ∈ s'.ledger.operations.map OperationRow.key :=
      List.mem_map.mpr ⟨r', Table.mem_of_lookup hr', key_of_operation? hr'⟩
    rw [hkeys] at hmem
    obtain ⟨r, hr, rfl⟩ := List.mem_map.mp hmem
    exact Table.exists_lookup_of_mem hr

end

/-- **An operation a step leaves was there**, with the same flow, or the step accepts a request for
it. -/
theorem Process.Step.intake {disp : BrokerDispatcher} {B B' : Process} {act : Act} (hinv : B.Inv)
    (h : Process.Step disp B act B') {k : Key} {r' : OperationRow}
    (hr' : B'.ledger.operation? k = some r') :
    (∃ r, B.ledger.operation? k = some r ∧ r'.flowId = r.flowId) ∨
      ∃ request reply, act = .serve k.1 (.accept request) reply ∧ request.operationId = k.2 ∧
        request.flowId = r'.flowId := by
  have hthere : (∃ r, B.ledger.operation? k = some r) ∨
      ∃ request reply, act = .serve k.1 (.accept request) reply ∧ request.operationId = k.2 ∧
        request.flowId = r'.flowId := by
    rcases h.performs with hsame | ⟨clock, x, ⟨uuids, s', hx, hledger⟩, haccept⟩
    · exact .inl ⟨r', hsame ▸ hr'⟩
    · rw [← hledger] at hr'
      refine (operation_of_perform hx hr').imp_right fun ⟨request, hrequest, hop, hflow⟩ => ?_
      obtain ⟨reply, hact⟩ := haccept _ _ hrequest
      exact ⟨request, reply, hact, hop, hflow⟩
  refine hthere.imp_left fun ⟨r, hr⟩ => ⟨r, hr, ?_⟩
  obtain ⟨⟨ks, hmoves⟩, -⟩ := h.disciplined hinv
  obtain ⟨r'', hr'', hdesc⟩ := descends_of_trace hmoves hr
  obtain rfl := Option.some.inj (hr'.symm.trans hr'')
  exact hdesc.flowId

/-! ### Payloads -/

/-- A payload names the flow of its operation. -/
def Billed (L : Ledger) : Prop :=
  ∀ p ∈ L.payloads, ∃ r, L.operation? p.key = some r ∧ r.flowId = p.request.flowId

section

variable {R : Time → Time → Prop} {P : Ledger → OperationRow → Edit → Prop} {L L' : Ledger}
  {ks : List Key}

/-- Payloads are inserted with their operations. -/
theorem Move.payloads (hmove : Move R P L ks L') {p : PayloadRow} (hp : p ∈ L'.payloads) :
    p ∈ L.payloads ∨ ∃ r, L'.operation? p.key = some r ∧ r.flowId = p.request.flowId := by
  cases hmove with
  | device | purgeEvents | receipt | dropArtifacts | putArtifact | poll | cancelClaim =>
    exact .inl hp
  | purge => exact .inl (List.mem_of_mem_filter hp)
  | @edit k e =>
    cases e with
    | finish => exact .inl (List.mem_of_mem_filter hp)
    | claim | handle | cancel => exact .inl hp
  | insert hnew =>
    refine (List.mem_append.mp hp).imp_right fun hp => ?_
    rw [List.mem_singleton.mp hp]
    exact ⟨_, Table.lookup_insert_self hnew, rfl⟩

theorem billed_of_trace (hmoves : Trace (Move R P) L ks L') (h : Billed L) : Billed L' :=
  hmoves.invariant (I := Billed) (fun hI hmove p hp => by
    rcases hmove.payloads hp with hold | hnew
    · obtain ⟨r, hr, hflow⟩ := hI p hold
      obtain ⟨r', hr', hdesc⟩ := descends_of_trace (Trace.single hmove) hr
      exact ⟨r', hr', hdesc.flowId.trans hflow⟩
    · exact hnew) h

end

/-- What `claim` returns names the flow of its operation. -/
theorem claim_flow {store : BrokerStore} {s s' : Session} {c : Claim}
    (hkeyed : Table.Keyed OperationRow.key s.ledger.operations) (hqueued : Queued s.ledger)
    (hbilled : Billed s.ledger) (h : store.claim s = .ok (some c, s')) :
    ∃ r, s'.ledger.operation? c.key = some r ∧ r.flowId = c.request.flowId := by
  obtain ⟨r, now, hr, -, hr', p, hp, hkey, hrequest⟩ := claimed_row hkeyed hqueued h
  obtain ⟨r₀, hr₀, hflow⟩ := hbilled p hp
  rw [hkey, hr] at hr₀
  obtain rfl := Option.some.inj hr₀
  exact ⟨_, hr', hflow.trans (congrArg OperationRequest.flowId hrequest)⟩

end HermesGateway.Broker
