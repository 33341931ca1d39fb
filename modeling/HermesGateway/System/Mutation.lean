import HermesGateway.Peer.Posts
import HermesGateway.System.Fleet

/-!
# Hermes is asked once

The whole way from a native call to a request: the client gives the call one operation, the broker
claims the operation once, the task of a claim makes one call, and that call is one request. Nothing
on the way is lost by a crash so that it would be done again.

## Main definitions

* `Fleet.sends` — a submission of an operation of a native call

## Main results

* `mutation_at_most_once` — one submission for each native call, one cancellation for each operation
-/

namespace HermesGateway.System

open Broker BrokerStore Client Peer

namespace Fleet

/-- A submission of an operation that comes from the native call. -/
def sends (F : Fleet) (d : Device) (o : NativeOrigin) : Rpc → Bool
  | .sendStreamingMessage k => k.1 = d ∧ F.native? k = some o
  | _ => false

variable {disp : BrokerDispatcher} {stores : Device → ClientStore} {F F' : Fleet} {k : Key}

/-- A native call has one operation. -/
theorem Inv.key_eq (h : F.Inv) {k' : Key} {o : NativeOrigin} (hd : k.1 = k'.1)
    (ho : F.native? k = some o) (ho' : F.native? k' = some o) : k = k' := by
  obtain ⟨d, op⟩ := k
  obtain ⟨d', op'⟩ := k'
  obtain rfl : d = d' := hd
  obtain ⟨r, hr, rfl⟩ := Option.map_eq_some_iff.mp ho
  obtain ⟨r', hr', horigin⟩ := Option.map_eq_some_iff.mp ho'
  exact congrArg (Prod.mk d) ((h.distinct d).operation_eq hr hr' horigin.symm)

/-- The submissions of a native call are submissions of one operation. -/
theorem Inv.countP_sends (h : F.Inv) (d : Device) (o : NativeOrigin) :
    F.broker.rpcs.countP (F.sends d o) ≤ 1 := by
  by_cases hsome : ∃ k : Key, k.1 = d ∧ F.native? k = some o
  · obtain ⟨k, hd, ho⟩ := hsome
    refine le_trans (List.countP_mono_left fun rpc _ hrpc => ?_) (h.once.countP_submits k)
    cases rpc with
    | sendStreamingMessage k' =>
      obtain ⟨hd', ho'⟩ := of_decide_eq_true hrpc
      exact decide_eq_true (h.key_eq (hd'.trans hd.symm) ho' ho)
    | getTask | cancelTask => cases hrpc
  · have hzero : F.broker.rpcs.countP (F.sends d o) = 0 := by
      refine List.countP_eq_zero.mpr fun rpc _ hrpc => ?_
      cases rpc with
      | sendStreamingMessage k => exact hsome ⟨k, of_decide_eq_true hrpc⟩
      | getTask | cancelTask => cases hrpc
    exact hzero.trans_le (Nat.zero_le 1)

/-- What was submitted comes from a native call. -/
theorem Inv.native_of_sent (h : F.Inv) (hsent : .sendStreamingMessage k ∈ F.broker.rpcs) :
    ∃ o, F.native? k = some o := by
  have hclaimed := h.once.claimed_of_sent hsent
  rw [h.claims] at hclaimed
  obtain ⟨c, hc, rfl⟩ := List.mem_map.mp hclaimed
  obtain ⟨row, hrow, -⟩ := h.flows c hc
  obtain ⟨r, hr, -⟩ := h.rows c.key row hrow
  exact ⟨r.origin, by rw [native?, hr]; rfl⟩

/-- What a step of the fleet is to the broker. -/
theorem Step.process (hstep : Step disp stores F F') :
    F'.broker = F.broker ∨ ∃ act, Process.Step disp F.broker act F'.broker := by
  cases hstep with
  | broker hbroker => exact .inr ⟨_, hbroker⟩
  | claim hbroker => exact .inr ⟨_, hbroker⟩
  | client | post => exact .inl rfl

theorem run_process (hrun : Run disp stores F F') : Process.Run disp F.broker F'.broker := by
  induction hrun with
  | refl => exact .refl
  | tail _ hstep ih =>
    rcases hstep.process with hsame | hprocess
    · exact hsame ▸ ih
    · exact ih.tail hprocess

/-- An operation that leaves `accepted` for a settled state is never submitted. -/
theorem Inv.never_submitted (h : F.Inv) (hstep : Step disp stores F F') {r r' : OperationRow}
    (hr : F.broker.ledger.operation? k = some r) (haccepted : r.state = .accepted)
    (hr' : F'.broker.ledger.operation? k = some r')
    (hdirect : r'.state = .canceled ∨ r'.state = .failed) {F'' : Fleet}
    (hrun : Run disp stores F' F'') : .sendStreamingMessage k ∉ F''.broker.rpcs := by
  rcases hstep.process with hsame | ⟨act, hprocess⟩
  · rw [hsame, hr] at hr'
    rw [← Option.some.inj hr', haccepted] at hdirect
    rcases hdirect with hstate | hstate <;> cases hstate
  · exact h.once.never_submitted h.broker hprocess hr haccepted hr' hdirect (run_process hrun)

end Fleet

theorem sends_isRead {F : Fleet} {d : Device} {o : NativeOrigin} (rpc : Rpc)
    (h : F.sends d o rpc = true) : Rpc.isRead rpc = false := by
  cases rpc with
  | sendStreamingMessage => rfl
  | getTask | cancelTask => cases h

theorem cancels_isRead {k : Key} (rpc : Rpc) (h : Rpc.cancels k rpc = true) :
    Rpc.isRead rpc = false := by
  cases rpc with
  | cancelTask => rfl
  | getTask | sendStreamingMessage => cases h

/-- **End-to-end at-most-once mutation.** In every run of the fleet, whatever the peer answers, at
most one `SendStreamingMessage` is sent for the operations of one native call of a device, and every
submitted operation comes from a native call. At most one `CancelTask` is sent for an operation. An
operation that leaves `accepted` directly for `canceled` or `failed` is never submitted. -/
theorem mutation_at_most_once {disp : BrokerDispatcher} {stores : Device → ClientStore} {F : Fleet}
    (h : Fleet.Run disp stores Fleet.initial F) (answers : ℕ → Option (List Answer)) :
    (∀ d o, (posted F.broker.rpcs answers).countP (F.sends d o) ≤ 1) ∧
    (∀ k, .sendStreamingMessage k ∈ posted F.broker.rpcs answers → ∃ o, F.native? k = some o) ∧
    (∀ k, (posted F.broker.rpcs answers).countP (Rpc.cancels k) ≤ 1) ∧
    ∀ F' k r r', Fleet.Step disp stores F F' → F.broker.ledger.operation? k = some r →
      r.state = .accepted → F'.broker.ledger.operation? k = some r' →
      (r'.state = .canceled ∨ r'.state = .failed) →
      ∀ F'', Fleet.Run disp stores F' F'' → .sendStreamingMessage k ∉ F''.broker.rpcs := by
  have hinv := Fleet.inv_of_run h Fleet.inv_initial
  refine ⟨fun d o => ?_, fun k hk => ?_, fun k => ?_, ?_⟩
  · exact (countP_posted sends_isRead _ _).trans (hinv.countP_sends d o)
  · exact hinv.native_of_sent (mem_of_posted hk)
  · exact (countP_posted cancels_isRead _ _).trans (hinv.once.countP_cancels k)
  · intro F' k r r' hstep hr haccepted hr' hdirect F'' hrun
    exact hinv.never_submitted hstep hr haccepted hr' hdirect hrun

theorem mutation_at_most_once_pair : ∃ F F' : Fleet,
    Fleet.Run ⟨BrokerStore.default, fun _ => "", fun _ => none⟩
      (fun _ => ⟨ClientSettings.default, fun _ => ""⟩) Fleet.initial F ∧
    posted F.broker.rpcs (fun _ => some [.broken]) = [.sendStreamingMessage ("laptop", 10)] ∧
    F.native? ("laptop", 10) = some ⟨1, 2, "a"⟩ ∧
    (posted F.broker.rpcs fun _ => some [.broken]).countP (F.sends "laptop" ⟨1, 2, "a"⟩) ≤ 1 ∧
    (posted F.broker.rpcs fun _ => some [.broken]).countP (Rpc.cancels ("laptop", 10)) ≤ 1 ∧
    (F'.broker.ledger.operation? ("laptop", 20)).map OperationRow.state = some .canceled ∧
    ∀ F'', Fleet.Run ⟨BrokerStore.default, fun _ => "", fun _ => none⟩
      (fun _ => ⟨ClientSettings.default, fun _ => ""⟩) F' F'' →
      .sendStreamingMessage ("laptop", 20) ∉ F''.broker.rpcs := by
  obtain ⟨D, L, posts, c, hrun, hkey, -, -, ho, -, hwaits, hcancel, -⟩ := Fleet.two_threads
  rw [hkey] at hrun
  obtain ⟨reply, t, hserve, hstate⟩ := Tx.exists_of_succeeds hcancel
  obtain ⟨r, hr, haccepted⟩ := Option.map_eq_some_iff.mp hwaits
  obtain ⟨r', hr', hcanceled⟩ := Option.map_eq_some_iff.mp (of_decide_eq_true hstate)
  let F := Fleet.single D (Fleet.submitting L ("laptop", 10)) posts [c]
  let F' := { F with broker := { F.broker with ledger := t.ledger } }
  have hstep : Fleet.Step ⟨BrokerStore.default, fun _ => "", fun _ => none⟩
      (fun _ => ⟨ClientSettings.default, fun _ => ""⟩) F F' :=
    .broker (.serve hserve) trivial fun k hk => by cases hk
  obtain ⟨hsends, -, hcancels, hnever⟩ := mutation_at_most_once hrun fun _ => some [.broken]
  refine ⟨F, F', hrun, rfl, ?_, hsends _ _, hcancels _, ?_, ?_⟩
  · rw [Fleet.native?, Fleet.row?_single]
    exact ho
  · rw [hr', Option.map_some, hcanceled]
  · exact hnever F' ("laptop", 20) r r' hstep hr haccepted hr' (.inl hcanceled)

end HermesGateway.System
