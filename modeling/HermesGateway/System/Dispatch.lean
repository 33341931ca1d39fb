import HermesGateway.Peer.Message
import HermesGateway.System.Marks

/-!
# What was asked is what is sent

From the native tool call to Hermes a command is written down four times: encrypted in the client's
row, in the body of the `POST`, in the broker's payload, and in the message. In between it waits,
for days if need be, and every one of the processes may die.

## Main definitions

* `Network.Minted` — an operation was created with a payload, and it is the only one

## Main results

* `Network.Run.minted` — the payload stays the only one
* `dispatched_command` — what is sent to Hermes is the prompt of the call and its artifacts
-/

namespace HermesGateway.System

open Broker BrokerStore Client ClientStore Peer

/-- The payload was stored with its operation, and no other one was posted for it. -/
structure Network.Minted (p : Payload) (N : Network) : Prop where
  row : ∃ r, N.tables.operation? p.operationId = some r ∧
    (r.payload = some p ∨ r.payload = none)
  posted : ∀ q, .submit q ∈ N.commands → q.operationId = p.operationId → q = p

section

variable {disp : BrokerDispatcher} {ingress : Ingress} {store : ClientStore} {d : Device}
  {N N' : Network} {p : Payload}

/-- One step of the system. -/
theorem Network.Step.minted (hinv : N.Inv disp ingress store d) (h : N.Minted p)
    (hstep : Network.Step disp ingress store d N N') : N'.Minted p := by
  cases hstep with
  | handle | outage | broker | claim => exact ⟨h.row, h.posted⟩
  | client huplink =>
    obtain ⟨r, hr, hpayload⟩ := h.row
    constructor
    · obtain ⟨r', hr', hres, -⟩ := huplink.kept hr
      refine ⟨r', hr', ?_⟩
      rcases hres.payload with hsame | hnone
      · exact hsame ▸ hpayload
      · exact .inr hnone
    · intro q hq hop
      rcases List.mem_append.mp hq with hq | hq
      · exact h.posted q hq hop
      · cases huplink.sends hq with
        | submit hr' hp' =>
          obtain ⟨rfl, -⟩ := hinv.posts.payloads _ _ hr' q hp'
          rw [hop] at hr'
          obtain rfl := Option.some.inj (hr.symm.trans hr')
          rcases hpayload with hpayload | hpayload
          · exact Option.some.inj (hp'.symm.trans hpayload)
          · cases hp'.symm.trans hpayload

/-- Every run. -/
theorem Network.Run.minted (hrun : Network.Run disp ingress store d N N')
    (hinv : N.Inv disp ingress store d) (h : N.Minted p) : N'.Minted p := by
  induction hrun with
  | refl => exact h
  | tail hbefore hstep ih => exact hstep.minted (Network.Run.inv hbefore hinv) ih

/-- The first call of a native tool call stores its payload. -/
theorem Network.Run.mints (h : Network.Run disp ingress store d Network.initial N)
    {origin : NativeOrigin} {prompt : String} {artifactIds : List String} {wait : ℕ} {op : Uuid}
    {clock : ℕ → Time} {uuids : ℕ → Uuid} {s' : Client.Session}
    (hcreate : store.create origin prompt artifactIds wait ⟨N.tables, clock, uuids⟩ = .ok (op, s'))
    (hfirst : ∀ r ∈ N.tables.operations, r.origin ≠ origin) :
    Network.Run disp ingress store d Network.initial
        { N with uplink := N.uplink.write s'.tables } ∧
      ∃ flow, Network.Minted ⟨op, flow, prompt, artifactIds⟩
        { N with uplink := N.uplink.write s'.tables } := by
  obtain ⟨⟨r, hr, hid⟩, -⟩ | ⟨-, hnone, -, flow, now, hops⟩ := create_eq_ok hcreate
  · exact absurd (congrArg Prod.snd hid) (hfirst r hr)
  constructor
  · have hcall : store.perform (.create origin prompt artifactIds wait) ⟨N.tables, clock, uuids⟩ =
        .ok ((), s') := Tx.map_eq_ok.mpr ⟨op, hcreate, rfl⟩
    have hstep := h.moved (.background (.call (c := .create ..) trivial hcall))
    rwa [List.append_nil] at hstep
  · refine ⟨flow, ⟨store.createdRow op flow origin (store.digestOf prompt artifactIds) prompt
      artifactIds wait now, ?_, .inl rfl⟩, fun q hq hop => ?_⟩
    · change s'.tables.operation? op = _
      rw [Tables.operation?, hops]
      exact Table.lookup_insert_self hnone
    · -- the operation is new, so nothing was posted for it
      obtain ⟨r, hr, -⟩ := h.sound.1.posts.posted q hq
      rw [hop] at hr
      cases hnone.symm.trans hr

/-- What is read from the body of a `POST`. -/
theorem request_reads {r : OperationRequest} (h : ingress.request (.submit p) = .ok (.accept r)) :
    r.prompt = p.prompt ∧ r.flowId = p.flowId ∧
      p.artifactIds.mapM ingress.parseUuid = some r.artifactIds := by
  rw [Ingress.request] at h
  split_ifs at h with hsize
  cases hvalid : ingress.validate p with
  | none =>
    rw [hvalid] at h
    cases h
  | some r' =>
    rw [hvalid] at h
    obtain rfl := Request.accept.inj (Except.ok.inj h)
    rw [Ingress.validate] at hvalid
    split_ifs at hvalid
    obtain ⟨ids, hids, rfl⟩ := Option.map_eq_some_iff.mp hvalid
    exact ⟨rfl, rfl, hids⟩

/-- **What was asked is what is sent.** When an operation is claimed that was created by a native
tool call, whatever happened in between, `submit` makes a message of the claim, and a reader of the
message finds the prompt of the call, and the artifacts of the call as they were uploaded: in their
order, byte for byte, under the identifiers that were given and with their digests. -/
theorem dispatched_command {peer : HermesBrokerPeer}
    (h : Network.Run disp ingress store d Network.initial N)
    {origin : NativeOrigin} {prompt : String} {artifactIds : List String} {wait : ℕ} {op : Uuid}
    {clock : ℕ → Time} {uuids : ℕ → Uuid} {s' : Client.Session}
    (hcreate : store.create origin prompt artifactIds wait ⟨N.tables, clock, uuids⟩ = .ok (op, s'))
    (hfirst : ∀ r ∈ N.tables.operations, r.origin ≠ origin)
    (h' : Network.Run disp ingress store d { N with uplink := N.uplink.write s'.tables } N')
    {c : Claim} (hc : c ∈ N'.claimed) (hkey : c.key = (d, op)) :
    artifactIds.mapM ingress.parseUuid = some c.request.artifactIds ∧
      ∃ m found, peer.message c = some m ∧
        Resolves N'.artifacts d c.request.artifactIds found ∧
        (∀ a ∈ found, disp.store.sha256 a.content = a.sha256) ∧
        readMessage m = some (prompt,
          found.map fun a => (a.artifactId.text, a.sha256, a.content)) := by
  obtain ⟨hcreated, flow, hminted⟩ := h.mints hcreate hfirst
  have hinv := (Network.Run.sound (hcreated.trans h')).1
  obtain ⟨hd, hop⟩ := Prod.mk.inj hkey
  obtain ⟨⟨q, hq, hop', hrequest⟩, hadmits, found, hattaches⟩ := hinv.accepted.claimed c hc hd
  obtain rfl := (h'.minted (Network.Run.sound hcreated).1 hminted).posted q hq (hop'.trans hop)
  obtain ⟨hprompt, -, hids⟩ := request_reads hrequest
  subst hd
  -- the attachments are text, as they were when the request was accepted
  have hplain := hattaches.plain hinv.accepted.unambiguous hadmits
  have hvalid : ∀ x ∈ c.attachments, x.2.IsValidUTF8 := by
    intro x hx
    rw [hattaches.attachments] at hx
    obtain ⟨a, ha, rfl⟩ := List.mem_map.mp hx
    exact ByteArray.validateUTF8_eq_true_iff.mp (hplain a ha).utf8
  obtain ⟨m, hm⟩ := @exists_message peer c hvalid
  refine ⟨hids, m, found, hm, hattaches.resolves, hattaches.intact, ?_⟩
  rw [readMessage_message hm, hprompt, hattaches.attachments, List.map_map]
  rfl

end

theorem dispatched_command_attached : ∃ N c m x, SampleRun N ∧ c ∈ N.claimed ∧
    HermesBrokerPeer.message ⟨⟨fun _ => "", fun _ => "", id, fun _ => true⟩, 16777216,
      fun _ => true, fun _ => 0⟩ c = some m ∧
    readMessage m = some ("hello", [x]) := by
  let disp : BrokerDispatcher := ⟨BrokerStore.default, fun _ => "", fun _ => none⟩
  let store : ClientStore := ⟨ClientSettings.default, fun _ => ""⟩
  let ingress : Ingress := ⟨2097152, fun _ => 256, nativeUuid⟩
  let ledger (L : Ledger) : Broker.Session := ⟨L, fun _ => 7, fun _ => 3⟩
  let answer (c : Command) (L : Ledger) : Response × Ledger :=
    BrokerStore.answer disp.store ingress "laptop" c (ledger L)
  let on (T : Tables) : Client.Session := ⟨T, fun _ => 8, fun _ => 0⟩
  let asked (L : Ledger) := answer (.get 1) L
  let posted (p : Payload) (L : Ledger) := answer (.submit p) (asked L).2
  have hruns : (Tx.succeeds (disp.store.serve "laptop" (.upload "notes".toUTF8 "" "text/plain")
      (ledger Ledger.empty)) fun _ s₁ =>
    Tx.succeeds (store.create ⟨4, 5, "a"⟩ "hello" [Uuid.text 3] 0
      ⟨Tables.empty, fun _ => 5, fun n => if n = 0 then 1 else 2⟩) fun op σ₁ =>
    Tx.succeeds (ids true (on σ₁.tables)) fun todo _ =>
    Tx.succeeds (payload 1 (on σ₁.tables)) fun p _ => p.any fun p =>
      (snapshotsOf (posted p s₁.ledger).1).head?.any fun s =>
    Tx.succeeds (disp.store.claim (ledger (posted p s₁.ledger).2)) fun c _ => c.any fun c =>
      decide ((∀ a ∈ s₁.ledger.artifacts, ∀ b ∈ s₁.ledger.artifacts, b.key = a.key → b = a) ∧
        op = 1 ∧ todo = [1] ∧ answerOf (asked s₁.ledger).1 = some (.refused 404) ∧
        answerOf (posted p s₁.ledger).1 = some (.snapshot s) ∧ c.key = ("laptop", 1) ∧
        c.request.artifactIds = [3])) = true := by
    decide +kernel
  obtain ⟨reply, s₁, k₁, hruns⟩ := Tx.exists_of_succeeds hruns
  obtain ⟨op, σ₁, k₂, hruns⟩ := Tx.exists_of_succeeds hruns
  obtain ⟨todo, _, k₃, hruns⟩ := Tx.exists_of_succeeds hruns
  obtain ⟨p, _, k₄, hruns⟩ := Tx.exists_of_succeeds hruns
  obtain ⟨p, rfl, hrest⟩ := (Option.any_eq_true _ _).mp hruns
  obtain ⟨s, hs, hruns⟩ := (Option.any_eq_true _ _).mp hrest
  obtain ⟨c, s₂, k₅, hruns⟩ := Tx.exists_of_succeeds hruns
  obtain ⟨c, rfl, hrest⟩ := (Option.any_eq_true _ _).mp hruns
  obtain ⟨hfresh, rfl, rfl, a₁, a₂, hkey, hids⟩ := of_decide_eq_true hrest
  have hstored : Network.Step disp ingress store "laptop" Network.initial _ :=
    .broker (.serve k₁) trivial (fun _ => by rintro ⟨⟩) hfresh
  have n₁ : SampleRun _ := .single hstored
  have hfirst : ∀ r ∈ Tables.empty.operations, r.origin ≠ (⟨4, 5, "a"⟩ : NativeOrigin) := by
    rintro _ ⟨⟩
  obtain ⟨n₂, -⟩ := Network.Run.mints n₁ k₂ hfirst
  have here : ∀ {M}, SampleRun M → Network.Run disp ingress store "laptop" M M := fun _ => .refl
  have m₀ := here n₂
  have m₁ := m₀.moved (.dispatch rfl k₃)
  have m₂ := m₁.moved (.ask rfl)
  have m₃ := m₂.handled (List.mem_singleton_self _) a₁
  have m₄ := m₃.moved (.post rfl (List.mem_singleton_self _) k₄)
  have m₅ := m₄.handled (c := .submit p) (by simp) a₂
  have hidle : ([] : List Key).length < disp.store.settings.maxConcurrentStreams := by decide
  have m₆ := m₅.tail
    (.claim (@Process.Step.claim disp _ false c _ _ _ (by rintro ⟨⟩) hidle k₅) k₅ rfl)
  obtain ⟨-, m, found, hm, hfound, -, hread⟩ := dispatched_command n₁ k₂ hfirst m₆
    (List.mem_append_right _ (List.mem_singleton_self c)) hkey
  obtain ⟨a, rfl, -⟩ := List.map_eq_singleton_iff.mp (hids ▸ hfound.keys)
  have hclaimed := n₂.trans m₆
  exact ⟨_, c, m, _, hclaimed, List.mem_append_right _ (List.mem_singleton_self c), hm, hread⟩

end HermesGateway.System
