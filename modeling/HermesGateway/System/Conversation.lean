import HermesGateway.Library.Decimal
import HermesGateway.Peer.Message
import HermesGateway.Peer.Provenance
import HermesGateway.System.Fleet

/-!
# Conversations

An operation is submitted to the conversation that a reader finds in the body of the request, and
this is the one whose name is the device and the flow of the claim. The name starts with the length
of the device, so that it can be taken apart whatever characters there are in it, and the flow is
that of the thread the native call was made in.

Different names must not be hashed to one UUID. No hash function is injective, so this is asked of
the names that were hashed only.

## Main definitions

* `Fleet.Submits` — an operation was submitted to a conversation
* `Fleet.names` — the names that were hashed

## Main results

* `contextName_inj` — a name tells the device and the flow
* `conversation_isolation` — conversations are threads of devices
-/

namespace HermesGateway.System

open Broker BrokerStore Client Peer

/-- **The name tells the device and the flow**, whatever characters they have. -/
theorem contextName_inj {device device' flow flow' : String} :
    contextName device flow = contextName device' flow' ↔ device = device' ∧ flow = flow' := by
  constructor
  · intro h
    have hchars := String.ofList_inj.mp h
    obtain ⟨hlength, hrest⟩ := toDigits_append_inj (by decide) hchars
    obtain ⟨hdevice, hflow⟩ :=
      List.append_inj hrest (by rwa [String.length_toList, String.length_toList])
    exact ⟨String.toList_inj.mp hdevice, String.toList_inj.mp (List.cons.inj hflow).2⟩
  · rintro ⟨rfl, rfl⟩
    rfl

namespace Fleet

/-- The operation was submitted, in a request whose message has this `contextId`. -/
def Submits (F : Fleet) (peer : HermesBrokerPeer) (k : Key) (context : String) : Prop :=
  .sendStreamingMessage k ∈ F.broker.rpcs ∧ ∃ c ∈ F.claimed, c.key = k ∧
    ∃ id tenant b, peer.body id tenant c = some b ∧ readContext b.dumps = some context

/-- The attachments of the operation are text, as `accept` asks of them. -/
def Textual (F : Fleet) (k : Key) : Prop :=
  ∀ c ∈ F.claimed, c.key = k → ∀ x ∈ c.attachments, x.2.IsValidUTF8

/-- The names that were hashed. -/
def names (F : Fleet) : Set String :=
  {name | ∃ c ∈ F.claimed, contextName c.deviceId c.request.flowId.text = name}

/-- The thread an operation comes from. -/
def thread? (F : Fleet) (k : Key) : Option Uuid := (F.native? k).map NativeOrigin.threadId

section

variable {disp : BrokerDispatcher} {stores : Device → ClientStore} {F F' : Fleet} {k : Key}
  {peer : HermesBrokerPeer}

/-- What was claimed has the flow of a thread of its device. -/
theorem Inv.thread_of_claimed (h : F.Inv) {c : Claim} (hc : c ∈ F.claimed) :
    ∃ thread, F.thread? c.key = some thread ∧
      (F.clients c.deviceId).tables.flows.lookup thread = some c.request.flowId := by
  obtain ⟨row, hrow, hflow⟩ := h.flows c hc
  obtain ⟨r, hr, hflow'⟩ := h.rows c.key row hrow
  refine ⟨r.origin.threadId, by rw [thread?, native?, hr]; rfl, ?_⟩
  rw [← hflow, ← hflow']
  exact (h.threaded c.deviceId).rows _ r hr

/-- A claim has the flow of another one of its device if it has its thread. -/
theorem Inv.flow_eq_iff (h : F.Inv) {c c' : Claim} (hc : c ∈ F.claimed) (hc' : c' ∈ F.claimed)
    (hd : c.deviceId = c'.deviceId) :
    c.request.flowId = c'.request.flowId ↔ F.thread? c.key = F.thread? c'.key := by
  obtain ⟨thread, hthread, hflow⟩ := h.thread_of_claimed hc
  obtain ⟨thread', hthread', hflow'⟩ := h.thread_of_claimed hc'
  rw [hthread, hthread', Option.some.injEq]
  rw [← hd] at hflow'
  constructor
  · intro heq
    exact (h.threaded c.deviceId).thread_eq hflow (heq ▸ hflow')
  · rintro rfl
    exact Option.some.inj (hflow.symm.trans hflow')

/-- The context of a submission is that of its claim. -/
theorem Submits.context {context : String} (h : F.Submits peer k context) : ∃ c ∈ F.claimed,
    c.key = k ∧ peer.peerContext c.deviceId c.request.flowId.text = context := by
  obtain ⟨-, c, hc, hkey, id, tenant, b, hb, hcontext⟩ := h
  exact ⟨c, hc, hkey, Option.some.inj ((readContext_body hb).symm.trans hcontext)⟩

/-- A claim of textual attachments that was submitted. -/
theorem submits_of_claimed (hsent : .sendStreamingMessage k ∈ F.broker.rpcs) {c : Claim}
    (hc : c ∈ F.claimed) (hkey : c.key = k) (htext : F.Textual k) :
    F.Submits peer k (peer.peerContext c.deviceId c.request.flowId.text) := by
  obtain ⟨m, hm⟩ := @exists_message peer c (htext c hc hkey)
  have hbody : peer.body "bridge-1" none c =
      some (rpcBody "bridge-1" none "SendStreamingMessage" [("message", m)]) := by
    rw [HermesBrokerPeer.body, hm]
    rfl
  exact ⟨hsent, c, hc, hkey, _, _, _, hbody, readContext_body hbody⟩

/-- What was submitted was submitted to one conversation. -/
theorem Inv.submits_unique (h : F.Inv) {context context' : String}
    (hk : F.Submits peer k context) (hk' : F.Submits peer k context') : context = context' := by
  have hdistinct := h.once.distinct
  rw [h.claims] at hdistinct
  obtain ⟨c, hc, hkey, rfl⟩ := hk.context
  obtain ⟨c', hc', hkey', rfl⟩ := hk'.context
  rw [List.inj_on_of_nodup_map hdistinct hc hc' (hkey.trans hkey'.symm)]

theorem Inv.exists_submits (h : F.Inv) (hsent : .sendStreamingMessage k ∈ F.broker.rpcs)
    (htext : F.Textual k) : ∃! context, F.Submits peer k context := by
  have hclaimed := h.once.claimed_of_sent hsent
  rw [h.claims] at hclaimed
  obtain ⟨c, hc, hkey⟩ := List.mem_map.mp hclaimed
  have hsubmits := @submits_of_claimed _ _ peer hsent c hc hkey htext
  exact ⟨_, hsubmits, fun context hcontext => h.submits_unique hcontext hsubmits⟩

/-- **Two operations go to one conversation** if they come from one thread of one device. -/
theorem Inv.context_eq_iff (h : F.Inv) (hnames : Set.InjOn peer.uuid5 F.names) {k' : Key}
    {context context' : String} (hk : F.Submits peer k context) (hk' : F.Submits peer k' context') :
    ∃ thread thread', F.thread? k = some thread ∧ F.thread? k' = some thread' ∧
      (context = context' ↔ k.1 = k'.1 ∧ thread = thread') := by
  obtain ⟨c, hc, rfl, rfl⟩ := hk.context
  obtain ⟨c', hc', rfl, rfl⟩ := hk'.context
  obtain ⟨thread, hthread, -⟩ := h.thread_of_claimed hc
  obtain ⟨thread', hthread', -⟩ := h.thread_of_claimed hc'
  refine ⟨thread, thread', hthread, hthread', ?_⟩
  rw [HermesBrokerPeer.peerContext, HermesBrokerPeer.peerContext, text_injective.eq_iff,
    hnames.eq_iff ⟨c, hc, rfl⟩ ⟨c', hc', rfl⟩, contextName_inj, text_injective.eq_iff]
  refine and_congr_right fun hd => ?_
  rw [h.flow_eq_iff hc hc' hd, hthread, hthread', Option.some.injEq]

end

end Fleet

/-- **Conversation isolation.** In every run of the fleet, an operation is submitted with one
`contextId`, the one a reader finds in the request, and two are submitted with the same one if and
only if they come from the same device and the same native thread, as long as `uuid5` does not
collide on the names that were hashed.
`create` gives an operation the flow of its thread, which the thread keeps and no other thread has.
The name that is hashed tells the device and the flow, whatever their characters. -/
theorem conversation_isolation {disp : BrokerDispatcher} {stores : Device → ClientStore}
    {peer : HermesBrokerPeer} {F : Fleet} (h : Fleet.Run disp stores Fleet.initial F)
    (hnames : Set.InjOn peer.uuid5 F.names) :
    (∀ k, (∀ context context', F.Submits peer k context → F.Submits peer k context' →
        context = context') ∧
      (.sendStreamingMessage k ∈ F.broker.rpcs → F.Textual k →
        ∃! context, F.Submits peer k context)) ∧
    (∀ k k' context context', F.Submits peer k context → F.Submits peer k' context' →
      ∃ thread thread', F.thread? k = some thread ∧ F.thread? k' = some thread' ∧
        (context = context' ↔ k.1 = k'.1 ∧ thread = thread')) ∧
    (∀ d origin prompt artifactIds wait clock uuids op s', (stores d).create origin prompt
      artifactIds wait ⟨(F.clients d).tables, clock, uuids⟩ = .ok (op, s') →
      ∃ r, s'.tables.operation? op = some r ∧ r.origin = origin ∧
        s'.tables.flows.lookup origin.threadId = some r.flowId) ∧
    (∀ d thread flow, (F.clients d).tables.flows.lookup thread = some flow →
      (∀ F', Fleet.Run disp stores F F' →
        (F'.clients d).tables.flows.lookup thread = some flow) ∧
      ∀ thread', (F.clients d).tables.flows.lookup thread' = some flow → thread' = thread) ∧
    ∀ device device' flow flow' : String,
      contextName device flow = contextName device' flow' ↔ device = device' ∧ flow = flow' := by
  have hinv := Fleet.inv_of_run h Fleet.inv_initial
  refine ⟨fun k => ⟨fun _ _ => hinv.submits_unique, hinv.exists_submits⟩, ?_, ?_, ?_,
    fun _ _ _ _ => contextName_inj⟩
  · exact fun k k' context context' => hinv.context_eq_iff hnames
  · intro d origin prompt artifactIds wait clock uuids op s' hcreate
    exact create_flow (hinv.threaded d) (hinv.distinct d) hcreate
  · intro d thread flow hflow
    refine ⟨fun F' hrun => Fleet.run_lookup hrun hflow, fun thread' hflow' => ?_⟩
    exact (hinv.threaded d).thread_eq hflow' hflow

/-- The two names hashed in the run below, and what they are hashed to. -/
def hashed (name : String) : Uuid :=
  if name = "6:laptop:00000000-0000-0000-0000-00000000000b" then
    169632298762637113709356299377740042962
  else 207271857012370700037010493256551258088

theorem conversation_isolation_pair : ∃ F : Fleet,
    Fleet.Run ⟨BrokerStore.default, fun _ => "", fun _ => none⟩
      (fun _ => ⟨ClientSettings.default, fun _ => ""⟩) Fleet.initial F ∧
    Set.InjOn hashed F.names ∧
    F.Submits ⟨A2AClient.plain, 16777216, fun _ => true, hashed⟩ ("laptop", 10)
      "7f9dfe0c-1b18-5dc0-94e4-ddcdfd7752d2" ∧
    F.Submits ⟨A2AClient.plain, 16777216, fun _ => true, hashed⟩ ("laptop", 20)
      "9bef1b8b-fe70-5c41-b006-7d976e3a57e8" ∧
    F.thread? ("laptop", 10) ≠ F.thread? ("laptop", 20) := by
  obtain ⟨D, L, posts, c, hrun, hkey, hflow, hattachments, -, -, -, -, hnext⟩ :=
    Fleet.two_threads
  let disp : BrokerDispatcher := ⟨BrokerStore.default, fun _ => "", fun _ => none⟩
  let peer : HermesBrokerPeer := ⟨A2AClient.plain, 16777216, fun _ => true, hashed⟩
  obtain ⟨o, t, hclaim, hnext⟩ := Tx.exists_of_succeeds hnext
  obtain ⟨c', rfl, hc'⟩ := Option.map_eq_some_iff.mp (of_decide_eq_true hnext)
  obtain ⟨hkey', hc'⟩ := Prod.mk.inj hc'
  obtain ⟨hflow', hattachments'⟩ := Prod.mk.inj hc'
  -- the second operation is claimed and submitted as well
  let B : Process := Fleet.submitting L c.key
  let B₁ : Process :=
    ⟨t.ledger, [⟨c.key, .submit, .waiting⟩, ⟨c'.key, .submit, .created⟩], [c.key, c'.key], [], none,
      [.sendStreamingMessage c.key], [c.key, c'.key]⟩
  let B₂ : Process :=
    ⟨t.ledger, [⟨c.key, .submit, .waiting⟩, ⟨c'.key, .submit, .waiting⟩], [c.key, c'.key], [], none,
      [.sendStreamingMessage c.key, .sendStreamingMessage c'.key], [c.key, c'.key]⟩
  let F := Fleet.single D B₂ posts [c, c']
  have hstep₁ : Process.Step disp B (.claimed c'.key) B₁ :=
    @Process.Step.claim disp B true c' _ _ t (fun _ => rfl) (show 1 < 4 by decide) hclaim
  have hstep₂ : Process.Step disp B₁ .silent B₂ :=
    @Process.Step.task disp B₁ [⟨c.key, .submit, .waiting⟩] [] _ _ none _ _ _ rfl (.start rfl)
  have hrun' : Fleet.Run disp (fun _ => ⟨ClientSettings.default, fun _ => ""⟩) Fleet.initial F :=
    (hrun.tail (.claim hstep₁ hclaim rfl)).tail
      (.broker hstep₂ (show Fleet.Posted _ .silent from trivial) fun k hk => by cases hk)
  have hname : contextName c.deviceId c.request.flowId.text =
      "6:laptop:00000000-0000-0000-0000-00000000000b" := by
    rw [show c.deviceId = "laptop" from congrArg Prod.fst hkey, hflow]
    decide +kernel
  have hname' : contextName c'.deviceId c'.request.flowId.text =
      "6:laptop:00000000-0000-0000-0000-000000000015" := by
    rw [show c'.deviceId = "laptop" from congrArg Prod.fst hkey', hflow']
    decide +kernel
  have hnames : Set.InjOn peer.uuid5 F.names := by
    have hne : hashed (contextName c.deviceId c.request.flowId.text) ≠
        hashed (contextName c'.deviceId c'.request.flowId.text) := by
      rw [hname, hname']
      decide +kernel
    rintro _ ⟨x, hx, rfl⟩ _ ⟨y, hy, rfl⟩ heq
    rcases List.mem_pair.mp hx with rfl | rfl <;> rcases List.mem_pair.mp hy with rfl | rfl
    · rfl
    · exact absurd heq hne
    · exact absurd heq.symm hne
    · rfl
  have htext (k : Key) : F.Textual k := by
    intro x hx _ y hy
    rcases List.mem_pair.mp hx with rfl | rfl
    · simp [hattachments] at hy
    · simp [hattachments'] at hy
  have hcontext : peer.peerContext c.deviceId c.request.flowId.text =
      "7f9dfe0c-1b18-5dc0-94e4-ddcdfd7752d2" := by
    rw [HermesBrokerPeer.peerContext, hname]
    decide +kernel
  have hcontext' : peer.peerContext c'.deviceId c'.request.flowId.text =
      "9bef1b8b-fe70-5c41-b006-7d976e3a57e8" := by
    rw [HermesBrokerPeer.peerContext, hname']
    decide +kernel
  have hsubmits : F.Submits peer ("laptop", 10) "7f9dfe0c-1b18-5dc0-94e4-ddcdfd7752d2" :=
    hcontext ▸ Fleet.submits_of_claimed (hkey ▸ List.mem_cons_self) List.mem_cons_self hkey
      (htext _)
  have hsubmits' : F.Submits peer ("laptop", 20) "9bef1b8b-fe70-5c41-b006-7d976e3a57e8" :=
    hcontext' ▸ Fleet.submits_of_claimed (hkey' ▸ List.mem_cons_of_mem _ List.mem_cons_self)
      (List.mem_cons_of_mem _ List.mem_cons_self) hkey' (htext _)
  obtain ⟨thread, thread', hthread, hthread', hiff⟩ :=
    (conversation_isolation hrun' hnames).2.1 _ _ _ _ hsubmits hsubmits'
  refine ⟨F, hrun', hnames, hsubmits, hsubmits', ?_⟩
  rw [hthread, hthread']
  intro heq
  exact absurd (hiff.mpr ⟨rfl, Option.some.inj heq⟩) (by decide)

end HermesGateway.System
