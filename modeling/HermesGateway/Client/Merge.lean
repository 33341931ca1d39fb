import HermesGateway.Client.Calls

/-!
# Merging snapshots of the broker

`accept_snapshot` compares JSON values. On the JSON of the broker's snapshots its tests are about
the fields of the records, whether the value came in or was stored with its keys in order before.

## Main results

* `stale_iff`, `exactResolution_iff`, `differs_iff` — the tests of `accept_snapshot`, on records
* `Reads.ingest` — a snapshot of the right flow is not refused
-/

namespace HermesGateway.Client

open ClientStore

/-- A snapshot as the client stores it. -/
def stored (s : Snapshot) : Json := s.toJson.sortKeys

/-! ### Members -/

section

variable (s p : Snapshot)

theorem member_stored (key : String) : member key (stored s) = (member key s.toJson).sortKeys := by
  rw [member, stored, Json.get?_sortKeys s.tidy_toJson, member]
  cases s.toJson.get? key <;> rfl

/-- The members that are texts or `null`. -/
theorem member_toJson :
    member "operation_id" s.toJson = .str s.operationId.text ∧
      member "flow_id" s.toJson = .str s.flowId.text ∧
      member "state" s.toJson = .str s.state.text ∧
      member "result_id" s.toJson = (s.resultId.map fun u => Json.str u.text).getD .null ∧
      member "remote_task_id" s.toJson = (s.remoteTaskId.map Json.str).getD .null := by
  refine ⟨rfl, rfl, rfl, rfl, rfl⟩

theorem stateOf_toJson : stateOf s.toJson = some s.state := by
  rw [stateOf, (member_toJson s).2.2.1]
  exact OpState.ofText?_text s.state

theorem stateOf_stored : stateOf (stored s) = some s.state := by
  rw [stateOf, member_stored, (member_toJson s).2.2.1]
  exact OpState.ofText?_text s.state

theorem operationOf_toJson : operationOf s.toJson = some s.operationId := by
  rw [operationOf, (member_toJson s).1, Json.str?, Option.bind_some, nativeUuid_text]

theorem resultId_stored :
    member "result_id" (stored s) = (s.resultId.map fun u => Json.str u.text).getD .null := by
  rw [member_stored, (member_toJson s).2.2.2.1]
  cases s.resultId <;> rfl

theorem handle_stored :
    member "remote_task_id" (stored s) = (s.remoteTaskId.map Json.str).getD .null := by
  rw [member_stored, (member_toJson s).2.2.2.2]
  cases s.remoteTaskId <;> rfl

/-! ### The tests of `accept_snapshot` -/

theorem same_resultId :
    same (member "result_id" (stored p)) (member "result_id" s.toJson) = true ↔
      p.resultId = s.resultId := by
  rw [resultId_stored, (member_toJson s).2.2.2.1]
  cases hp : p.resultId <;> cases hs : s.resultId <;>
    simp [same, text_injective.eq_iff]

theorem same_handle :
    same (member "remote_task_id" (stored p)) (member "remote_task_id" s.toJson) = true ↔
      p.remoteTaskId = s.remoteTaskId := by
  rw [handle_stored, (member_toJson s).2.2.2.2]
  cases hp : p.remoteTaskId <;> cases hs : s.remoteTaskId <;> simp [same]

theorem text_injective_opState : Function.Injective OpState.text := by
  intro a b h
  have := congrArg OpState.ofText? h
  rwa [OpState.ofText?_text, OpState.ofText?_text, Option.some.injEq] at this

theorem same_state :
    same (member "state" (stored p)) (member "state" s.toJson) = true ↔ p.state = s.state := by
  rw [member_stored, (member_toJson p).2.2.1, (member_toJson s).2.2.1]
  simp [same, text_injective_opState.eq_iff]

theorem truthy_handle :
    truthy (member "remote_task_id" (stored p)) = true ↔
      p.remoteTaskId ≠ none ∧ p.remoteTaskId ≠ some "" := by
  rw [handle_stored]
  cases hp : p.remoteTaskId <;> simp [truthy]

theorem stale_iff : Stale (some (stored p)) ↔ p.state.Terminal := by
  simp [Stale, stateOf_stored]

theorem terminalSnapshot_iff : TerminalSnapshot s.toJson ↔ s.state.Terminal := by
  simp [TerminalSnapshot, stateOf_toJson]

theorem exactResolution_iff : ExactResolution (some (stored p)) s.toJson ↔
    p.state = .outcomeUnknown ∧ s.state.Final ∧ p.remoteTaskId ≠ none ∧ p.remoteTaskId ≠ some "" ∧
      p.remoteTaskId = s.remoteTaskId ∧ p.resultId = s.resultId := by
  simp [ExactResolution, stateOf_stored, stateOf_toJson, truthy_handle, same_handle, same_resultId,
    and_assoc]

theorem differs_iff : Differs (some (stored p)) s.toJson ↔
    p.state ≠ s.state ∨ p.resultId ≠ s.resultId ∨
      same (member "result" (stored p)) (member "result" s.toJson) = false ∨
      same (member "error" (stored p)) (member "error" s.toJson) = false := by
  simp [Differs, ← Bool.not_eq_true, same_state, same_resultId]

end

/-! ### Ingesting a snapshot -/

section

variable {store : ClientStore} {σ : Session} {s : Snapshot}

/-- The value is the JSON of a snapshot, whatever the order of its members. -/
structure Reads (v : Json) (s : Snapshot) : Prop where
  isObj : v.isObj = true
  operationId : member "operation_id" v = .str s.operationId.text
  flowId : member "flow_id" v = .str s.flowId.text
  state : stateOf v = some s.state
  resultId : member "result_id" v = (s.resultId.map fun u => Json.str u.text).getD .null
  required : ∀ key ∈ ClientStore.required, v.get? key ≠ none

theorem reads_toJson (s : Snapshot) : Reads s.toJson s where
  isObj := rfl
  operationId := (member_toJson s).1
  flowId := (member_toJson s).2.1
  state := stateOf_toJson s
  resultId := (member_toJson s).2.2.2.1
  required := by simp [ClientStore.required, Snapshot.toJson, Json.get?, List.lookup_cons]

theorem reads_stored (s : Snapshot) : Reads (stored s) s where
  isObj := rfl
  operationId := by rw [member_stored, (member_toJson s).1, Json.sortKeys]
  flowId := by rw [member_stored, (member_toJson s).2.1, Json.sortKeys]
  state := stateOf_stored s
  resultId := resultId_stored s
  required key hkey := by
    rw [stored, Json.get?_sortKeys s.tidy_toJson]
    simpa using (reads_toJson s).required key hkey

variable {v : Json}

theorem Reads.operationOf (h : Reads v s) : operationOf v = some s.operationId := by
  rw [Client.operationOf, h.operationId, Json.str?, Option.bind_some, nativeUuid_text]

/-- A snapshot of the broker passes the checks. -/
theorem Reads.passes (h : Reads v s) (hresult : s.state.Terminal → s.resultId ≠ none)
    {seq : Option ℤ} (hseq : ∀ n, seq = some n → 0 ≤ n) :
    Passes v seq (s.operationId, s.flowId) where
  operationId := h.operationOf
  flowId := by rw [flowIdOf, h.flowId, Json.str?, Option.bind_some, nativeUuid_text]
  state := ⟨s.state, h.state⟩
  required := h.required
  resultId := by
    rw [ResultIdOk, h.resultId]
    cases hid : s.resultId with
    | none => exact .inl rfl
    | some id =>
      refine .inr ⟨id.text, rfl, ?_⟩
      rw [nativeUuid_text]
      exact Option.some_ne_none id
  terminal := by
    rintro ⟨state, hstate, hterminal⟩ hnull
    rw [← Option.some.inj (h.state.symm.trans hstate)] at hterminal
    obtain ⟨id, hid⟩ := Option.ne_none_iff_exists'.mp (hresult hterminal)
    rw [h.resultId, hid] at hnull
    cases hnull
  cursor := hseq

/-- A snapshot of the right flow is not refused. -/
theorem Reads.ingest (h : Reads v s) (hresult : s.state.Terminal → s.resultId ≠ none)
    {seq : Option ℤ} (hseq : ∀ n, seq = some n → 0 ≤ n)
    (hflow : ∀ r, σ.tables.operation? s.operationId = some r → r.flowId = s.flowId) :
    ∃ σ', store.ingest v seq none σ = .ok ((), σ') := by
  have hagrees : σ.tables.Agrees s.operationId s.flowId := fun r hr _ => (hflow r hr).symm
  obtain ⟨σ', haccept⟩ :=
    @acceptSnapshot_of_passes store σ v seq _ _ (h.passes hresult hseq) hagrees
  have hfine : ¬ (v.isObj = false ∨ (none : Option Uuid).any
      (fun op => member "operation_id" v ≠ .str op.text) = true) := by
    simp [h.isObj]
  refine ⟨σ', ?_⟩
  rw [ClientStore.ingest, Tx.bind_of_ok (Tx.refuse_of_not hfine), haccept]

end

end HermesGateway.Client
