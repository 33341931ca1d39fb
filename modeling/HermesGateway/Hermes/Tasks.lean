import HermesGateway.Hermes.ContextLimiter
import HermesGateway.Library.Json
import HermesGateway.Library.Retention

/-!
# The tasks of Hermes

`TaskStore` with the changes of the patch. A task ends once: what a terminal record says stays as
it is. The store keeps the records of ended tasks for the readers, but not all of them: whenever a
task ends, the oldest ended ones beyond five hundred are dropped, in the order in which the tasks
were created and not in the order in which they ended.

Identifiers are random; that none is drawn twice is a hypothesis. `fail_orphans` and the
cancellation of a task change the store by calls of `complete`.

## Main definitions

* `TaskStore.create`, `TaskStore.setState`, `TaskStore.complete` — the methods
* `Op.run`, `stored` — a sequence of calls
* `Op.note`, `history` — the same calls, when nothing is dropped

## Main results

* `stored_eq_keep` — the store is its history, seen through the limit
* `tasks_kept` — which tasks a reader finds, and as what
-/

namespace HermesGateway.Hermes

/-! ### Records -/

/-- The states of a task. -/
inductive TaskState
  | submitted
  | working
  | inputRequired
  | completed
  | failed
  | canceled
  | rejected
deriving DecidableEq, Repr

/-- The text of a state. -/
def TaskState.text : TaskState → String
  | submitted => "TASK_STATE_SUBMITTED"
  | working => "TASK_STATE_WORKING"
  | inputRequired => "TASK_STATE_INPUT_REQUIRED"
  | completed => "TASK_STATE_COMPLETED"
  | failed => "TASK_STATE_FAILED"
  | canceled => "TASK_STATE_CANCELED"
  | rejected => "TASK_STATE_REJECTED"

/-- Membership in `TERMINAL_STATES`. -/
def TaskState.terminal : TaskState → Bool
  | completed | failed | canceled | rejected => true
  | submitted | working | inputRequired => false

/-- The diagnostics of a refusal: those of the limiter, whose delay can be written, or those of the
limit of turns. -/
inductive Diagnostics
  | rateLimited (denial : Denial) (sound : (Json.int denial.retryAfterSeconds).Sound)
  | turnLimit
deriving DecidableEq

/-- The members of the diagnostics. -/
def Diagnostics.members : Diagnostics → List (String × Json)
  | rateLimited denial _ =>
    [("reason", .str denial.reason), ("peer_state", .str denial.peerState),
      ("execution_started", .bool denial.executionStarted),
      ("retry_after_seconds", .int denial.retryAfterSeconds), ("retry_at", .str denial.retryAt),
      ("recommended_action", .str denial.recommendedAction)]
  | turnLimit =>
    [("reason", .str "context_turn_limit"), ("peer_state", .str "rejected"),
      ("execution_started", .bool false), ("recommended_action", .str "contact_operator")]

/-- A record of the store. -/
structure TaskRecord where
  taskId : String
  contextId : String
  peer : String
  agentSlug : String
  tenant : String
  state : TaskState
  reply : String
  diagnostics : Option Diagnostics
deriving DecidableEq

/-- The record is one of an ended task. -/
def TaskRecord.ended (r : TaskRecord) : Bool := r.state.terminal

/-- `_tasks`, in the order of insertion. -/
abbrev Tasks := List TaskRecord

/-- The record under an identifier. -/
def Tasks.task? (T : Tasks) (taskId : String) : Option TaskRecord :=
  Table.lookup TaskRecord.taskId T taskId

/-! ### The store -/

namespace TaskStore

/-- The record of a new task. -/
def created (taskId contextId peer agentSlug tenant : String) : TaskRecord where
  taskId := taskId
  contextId := contextId
  peer := peer
  agentSlug := agentSlug
  tenant := tenant
  state := .submitted
  reply := ""
  diagnostics := none

/-- `create`: an assignment to a dictionary. -/
def create (taskId contextId peer agentSlug tenant : String) (T : Tasks) : Tasks :=
  let record := created taskId contextId peer agentSlug tenant
  match T.task? taskId with
  | some _ => Table.modify TaskRecord.taskId T taskId fun _ => record
  | none => T ++ [record]

/-- `_in_scope`. -/
def inScope (agentSlug tenant : String) (r : TaskRecord) : Bool :=
  ¬((agentSlug ≠ "" ∧ r.agentSlug ≠ agentSlug) ∨ (tenant ≠ "" ∧ r.tenant ≠ tenant))

/-- `get`. -/
def get (T : Tasks) (taskId agentSlug tenant : String) : Option TaskRecord :=
  (T.task? taskId).filter (inScope agentSlug tenant)

/-- `set_state`. -/
def setState (taskId : String) (state : TaskState) (T : Tasks) : Tasks :=
  Table.modify TaskRecord.taskId T taskId fun r => if r.ended then r else { r with state := state }

/-- `_trim_locked`. -/
def trimLocked (T : Tasks) : Tasks :=
  let terminal := (T.filter TaskRecord.ended).map TaskRecord.taskId
  T.filter fun r => r.taskId ∉ terminal.take (terminal.length - 500)

/-- The record of a task that is completed. -/
def completed (state : TaskState) (reply : String) (diagnostics : Option Diagnostics)
    (r : TaskRecord) : TaskRecord :=
  { r with state := state, reply := reply, diagnostics := diagnostics.or r.diagnostics }

/-- `complete`. -/
def complete (taskId : String) (state : TaskState) (reply : String)
    (diagnostics : Option Diagnostics) (T : Tasks) : Option TaskRecord × Tasks :=
  match T.task? taskId with
  | none => (none, T)
  | some r =>
    if r.ended then (none, T)
    else
      (some (completed state reply diagnostics r),
        trimLocked (Table.modify TaskRecord.taskId T taskId (completed state reply diagnostics)))

end TaskStore

open TaskStore

/-- A call that changes the store. `set_state` is called for tasks that are handed to an agent
only. -/
inductive Op
  | create (taskId contextId peer agentSlug tenant : String)
  | working (taskId : String)
  | complete (taskId : String) (state : TaskState) (reply : String)
      (diagnostics : Option Diagnostics)

/-- What a call does to the store. -/
def Op.run (op : Op) (T : Tasks) : Tasks :=
  match op with
  | create taskId contextId peer agentSlug tenant =>
    TaskStore.create taskId contextId peer agentSlug tenant T
  | working taskId => setState taskId .working T
  | complete taskId state reply diagnostics =>
    (TaskStore.complete taskId state reply diagnostics T).2

/-- The store after a sequence of calls. -/
def stored (ops : List Op) : Tasks := ops.foldl (fun T op => op.run T) []

/-- What a call does to the history: nothing is dropped. -/
def Op.note (op : Op) (H : Tasks) : Tasks :=
  match op with
  | create taskId contextId peer agentSlug tenant =>
    H ++ [created taskId contextId peer agentSlug tenant]
  | working taskId => setState taskId .working H
  | complete taskId state reply diagnostics =>
    Table.modify TaskRecord.taskId H taskId fun r =>
      if r.ended then r else completed state reply diagnostics r

/-- All the tasks of a sequence of calls. -/
def history (ops : List Op) : Tasks := ops.foldl (fun H op => op.note H) []

/-- The identifiers of the tasks that are created. -/
def createdIds : List Op → List String
  | [] => []
  | .create taskId _ _ _ _ :: ops => taskId :: createdIds ops
  | .working _ :: ops | .complete _ _ _ _ :: ops => createdIds ops

/-- How many tasks have ended that were created after one. -/
def endedAfter (ops : List Op) (taskId : String) : ℕ :=
  (Retention.later TaskRecord.taskId (history ops) taskId).countP TaskRecord.ended

/-! ### One call -/

section

variable {T H : Tasks} {taskId : String} {op : Op} {ops : List Op}

theorem trimLocked_eq_keep (h : Table.Keyed TaskRecord.taskId T) :
    trimLocked T = Retention.keep 500 TaskRecord.ended T := by
  rw [← Retention.filter_oldest h, trimLocked]
  simp only [List.length_map, List.countP_eq_length_filter]

theorem modify_eq_self {f : TaskRecord → TaskRecord}
    (h : ∀ r ∈ T, r.taskId = taskId → f r = r) : Table.modify TaskRecord.taskId T taskId f = T := by
  refine (List.map_congr_left fun r hr => ?_).trans (List.map_id T)
  split_ifs with hk
  · exact h r hr hk
  · rfl

/-- The update of a record by `complete`. -/
theorem modify_completed (hT : Table.Keyed TaskRecord.taskId T) {state : TaskState} {reply : String}
    {diagnostics : Option Diagnostics} {r : TaskRecord} (hr : T.task? taskId = some r)
    (hopen : r.ended = false) :
    Table.modify TaskRecord.taskId T taskId (completed state reply diagnostics) =
      Table.modify TaskRecord.taskId T taskId fun r =>
        if r.ended then r else completed state reply diagnostics r := by
  refine List.map_congr_left fun s hs => ?_
  by_cases hk : s.taskId = taskId
  · obtain rfl : s = r :=
      hT.eq_of_key_eq hs (Table.mem_of_lookup hr) (hk.trans (Table.key_of_lookup hr).symm)
    rw [if_pos hk, if_pos hk]
    exact (if_neg (by simp [hopen])).symm
  · rw [if_neg hk, if_neg hk]

theorem complete_of_open {state : TaskState} {reply : String} {diagnostics : Option Diagnostics}
    {r : TaskRecord} (hr : T.task? taskId = some r) (hopen : r.ended = false) :
    TaskStore.complete taskId state reply diagnostics T =
      (some (completed state reply diagnostics r),
        trimLocked (Table.modify TaskRecord.taskId T taskId
          (completed state reply diagnostics))) := by
  simp [TaskStore.complete, hr, hopen]

theorem complete_of_not_open {state : TaskState} {reply : String} {diagnostics : Option Diagnostics}
    (h : ∀ r, T.task? taskId = some r → r.ended = true) :
    TaskStore.complete taskId state reply diagnostics T = (none, T) := by
  unfold TaskStore.complete
  cases hrow : T.task? taskId with
  | none => rfl
  | some r => exact if_pos (h r hrow)

/-- The identifiers of the history. -/
theorem map_note (op : Op) (H : Tasks) :
    (op.note H).map TaskRecord.taskId = H.map TaskRecord.taskId ++ createdIds [op] := by
  have hmodify : ∀ (taskId : String) (f : TaskRecord → TaskRecord), (∀ r, (f r).taskId = r.taskId) →
      (Table.modify TaskRecord.taskId H taskId f).map TaskRecord.taskId =
        H.map TaskRecord.taskId := by
    intro taskId f hf
    rw [Table.modify, List.map_map]
    refine List.map_congr_left fun r _ => ?_
    rw [Function.comp_apply]
    split_ifs
    · exact hf r
    · rfl
  cases op with
  | create taskId contextId peer agentSlug tenant => rw [Op.note, List.map_append]; rfl
  | working taskId =>
    rw [Op.note, setState, hmodify _ _ (fun r => by split_ifs <;> rfl)]
    exact (List.append_nil _).symm
  | complete taskId state reply diagnostics =>
    rw [Op.note, hmodify _ _ (fun r => by split_ifs <;> rfl)]
    exact (List.append_nil _).symm

/-- **One call**, on the store that shows the history through the limit. -/
theorem Op.run_keep (hH : Table.Keyed TaskRecord.taskId (op.note H)) :
    op.run (Retention.keep 500 TaskRecord.ended H) =
      Retention.keep 500 TaskRecord.ended (op.note H) := by
  rw [Table.Keyed, map_note, List.nodup_append] at hH
  have hkeyed : Table.Keyed TaskRecord.taskId H := hH.1
  have hsub := Retention.keep_sublist 500 TaskRecord.ended H
  have hstore : Table.Keyed TaskRecord.taskId (Retention.keep 500 TaskRecord.ended H) :=
    hkeyed.sublist (hsub.map TaskRecord.taskId)
  cases op with
  | create taskId contextId peer agentSlug tenant =>
    have hnew : Tasks.task? (Retention.keep 500 TaskRecord.ended H) taskId = none := by
      refine Table.lookup_eq_none.mpr fun r hr heq => ?_
      exact hH.2.2 _ (List.mem_map_of_mem (hsub.subset hr)) taskId (by simp [createdIds]) heq
    rw [Op.run, TaskStore.create, hnew]
    exact (Retention.keep_append rfl H).symm
  | working taskId =>
    refine (Retention.keep_map (fun r => ?_) H).symm
    by_cases hk : r.taskId = taskId
    · cases hended : r.ended with
      | true => simp [hk, hended]
      | false => simp [hk, hended]; rfl
    · rw [if_neg hk]
  | complete taskId state reply diagnostics =>
    have hfind :=
      @Retention.lookup_keep _ _ _ TaskRecord.taskId TaskRecord.ended 500 _ hkeyed taskId
    by_cases hsome : ∃ r, Tasks.task? (Retention.keep 500 TaskRecord.ended H) taskId = some r ∧
        r.ended = false
    · obtain ⟨r, hrow, hopen⟩ := hsome
      rw [Op.run, complete_of_open hrow hopen, modify_completed hstore hrow hopen,
        trimLocked_eq_keep (Table.keyed_modify (fun r => by split_ifs <;> rfl) hstore)]
      refine Retention.keep_map_keep (fun s hs => ?_) H
      split_ifs
      · exact if_pos hs
      · rfl
    · -- what is not in the store is not in the history, or has ended and was dropped
      rw [Op.run, complete_of_not_open fun r hrow => by simpa using fun h => hsome ⟨r, hrow, h⟩]
      refine congrArg _ (modify_eq_self fun r hr hk => ?_).symm
      have hlookup : Table.lookup TaskRecord.taskId H taskId = some r :=
        hk ▸ hkeyed.mem_iff_lookup.mp hr
      refine if_pos ?_
      by_contra hopen
      rw [Bool.not_eq_true] at hopen
      refine hsome ⟨r, ?_, hopen⟩
      rw [Tasks.task?, hfind, hlookup, Option.filter_some_pos (by simp [hopen])]

/-! ### All calls -/

theorem createdIds_append (ops more : List Op) :
    createdIds (ops ++ more) = createdIds ops ++ createdIds more := by
  induction ops with
  | nil => rfl
  | cons op ops ih => cases op <;> simp [createdIds, ih]

theorem stored_snoc (ops : List Op) (op : Op) : stored (ops ++ [op]) = op.run (stored ops) := by
  rw [stored, List.foldl_append]
  rfl

theorem history_snoc (ops : List Op) (op : Op) : history (ops ++ [op]) = op.note (history ops) := by
  rw [history, List.foldl_append]
  rfl

theorem map_history (ops : List Op) :
    (history ops).map TaskRecord.taskId = createdIds ops := by
  induction ops using List.reverseRecOn with
  | nil => rfl
  | append_singleton ops op ih => rw [history_snoc, map_note, ih, createdIds_append]

theorem keyed_history (h : (createdIds ops).Nodup) :
    Table.Keyed TaskRecord.taskId (history ops) := by
  rw [Table.Keyed, map_history]
  exact h

/-- **The store is its history**, seen through the limit. -/
theorem stored_eq_keep (h : (createdIds ops).Nodup) :
    stored ops = Retention.keep 500 TaskRecord.ended (history ops) := by
  induction ops using List.reverseRecOn with
  | nil => rfl
  | append_singleton ops op ih =>
    have hbefore : (createdIds ops).Nodup := by
      rw [createdIds_append] at h
      exact h.of_append_left
    rw [stored_snoc, ih hbefore, history_snoc]
    refine Op.run_keep ?_
    rw [← history_snoc]
    exact keyed_history h

/-- A task of the history stays in it, and stays as it is once it has ended. -/
theorem history_append (ops more : List Op) {r : TaskRecord}
    (hr : (history ops).task? taskId = some r) :
    ∃ r', (history (ops ++ more)).task? taskId = some r' ∧ (r.ended = true → r' = r) := by
  induction more using List.reverseRecOn with
  | nil => exact ⟨r, by rw [List.append_nil, hr], fun _ => rfl⟩
  | append_singleton more op ih =>
    obtain ⟨r', hr', hended⟩ := ih
    rw [← List.append_assoc, history_snoc]
    have hmodify : ∀ (id : String) (f : TaskRecord → TaskRecord), (∀ r, (f r).taskId = r.taskId) →
        (∀ r : TaskRecord, r.ended = true → f r = r) →
        ∃ s, Tasks.task? (Table.modify TaskRecord.taskId (history (ops ++ more)) id f) taskId =
          some s ∧ (r.ended = true → s = r) := by
      intro id f hf hkeep
      rw [Tasks.task?, Table.lookup_modify hf, show Table.lookup TaskRecord.taskId
        (history (ops ++ more)) taskId = some r' from hr']
      split_ifs
      · refine ⟨f r', rfl, fun h => ?_⟩
        rw [hended h]
        exact hkeep r h
      · exact ⟨r', rfl, hended⟩
    cases op with
    | create =>
      refine ⟨r', ?_, hended⟩
      rw [Op.note, Tasks.task?, Table.lookup_insert, show Table.lookup TaskRecord.taskId
        (history (ops ++ more)) taskId = some r' from hr', Option.some_or]
    | working id =>
      exact hmodify id _ (fun r => by split_ifs <;> rfl) fun r h => if_pos h
    | complete id =>
      exact hmodify id _ (fun r => by split_ifs <;> rfl) fun r h => if_pos h

/-- The count only grows. -/
theorem endedAfter_le (ops more : List Op) (h : taskId ∈ createdIds ops) :
    endedAfter ops taskId ≤ endedAfter (ops ++ more) taskId := by
  induction more using List.reverseRecOn with
  | nil => rw [List.append_nil]
  | append_singleton more op ih =>
    refine Nat.le_trans ih ?_
    rw [endedAfter, endedAfter, ← List.append_assoc, history_snoc]
    have hmap : ∀ (id : String) (f : TaskRecord → TaskRecord), (∀ r, (f r).taskId = r.taskId) →
        (∀ r : TaskRecord, r.ended = true → f r = r) →
        (Retention.later TaskRecord.taskId (history (ops ++ more)) taskId).countP TaskRecord.ended ≤
          (Retention.later TaskRecord.taskId (Table.modify TaskRecord.taskId (history (ops ++ more))
            id f) taskId).countP TaskRecord.ended := by
      intro id f hf hkeep
      rw [Table.modify, Retention.later_map (fun r => by split_ifs <;> first | exact hf r | rfl)]
      refine Retention.countP_map_of_finished (fun r hr => ?_) _
      split_ifs
      · exact hkeep r hr
      · rfl
    cases op with
    | create =>
      have hmem : taskId ∈ (history (ops ++ more)).map TaskRecord.taskId := by
        rw [map_history, createdIds_append]
        exact List.mem_append_left _ h
      rw [Op.note, Retention.later_append hmem, List.countP_append]
      exact Nat.le_add_right _ _
    | working id => exact hmap id _ (fun r => by split_ifs <;> rfl) fun r h => if_pos h
    | complete id => exact hmap id _ (fun r => by split_ifs <;> rfl) fun r h => if_pos h

/-- **What a reader finds**: every task that was created, as it is, unless it has ended and so have
five hundred that were created after it. Such a task is not found again, and until then an ended
one is found as it was when it ended. -/
theorem tasks_kept {more : List Op} (h : (createdIds (ops ++ more)).Nodup) :
    (stored ops).countP TaskRecord.ended ≤ 500 ∧
    ∀ taskId ∈ createdIds ops, ∃ r, (history ops).task? taskId = some r ∧
      (stored ops).task? taskId =
        (if r.ended = true ∧ 500 ≤ endedAfter ops taskId then none else some r) ∧
      endedAfter ops taskId ≤ endedAfter (ops ++ more) taskId ∧
      (r.ended = true → (stored (ops ++ more)).task? taskId =
        if 500 ≤ endedAfter (ops ++ more) taskId then none else some r) := by
  have hbefore : (createdIds ops).Nodup := by
    rw [createdIds_append] at h
    exact h.of_append_left
  -- what the limit leaves of a record
  have hfind : ∀ {ops : List Op} {taskId : String} {r : TaskRecord}, (createdIds ops).Nodup →
      (history ops).task? taskId = some r → (stored ops).task? taskId =
        if r.ended = true ∧ 500 ≤ endedAfter ops taskId then none else some r := by
    intro ops taskId r hops hr
    rw [stored_eq_keep hops, Tasks.task?, Retention.lookup_keep (keyed_history hops),
      show Table.lookup TaskRecord.taskId (history ops) taskId = some r from hr]
    split_ifs with hgone
    · exact Option.filter_some_neg (by simpa [endedAfter] using hgone)
    · refine Option.filter_some_pos ?_
      by_cases hended : r.ended = true
      · simpa [hended, endedAfter] using fun hmany => hgone ⟨hended, hmany⟩
      · simp [hended]
  refine ⟨?_, fun taskId hid => ?_⟩
  · rw [stored_eq_keep hbefore, Retention.countP_keep]
    exact Nat.min_le_left _ _
  · have hle := endedAfter_le ops more hid
    rw [← map_history] at hid
    obtain ⟨s, hs, rfl⟩ := List.mem_map.mp hid
    have hr : (history ops).task? s.taskId = some s := (keyed_history hbefore).mem_iff_lookup.mp hs
    refine ⟨s, hr, hfind hbefore hr, hle, fun hended => ?_⟩
    obtain ⟨r', hr', hsame⟩ := history_append ops more hr
    rw [hfind h hr', hsame hended, hended]
    simp only [true_and]

/-- A refused task, and another one after it. -/
theorem tasks_kept_refused : ∃ r, r.state = .rejected ∧
    (stored [.create "task-1" "ctx" "peer" "" "", .complete "task-1" .rejected "no" none,
      .create "task-2" "ctx" "peer" "" ""]).task? "task-1" = some r := by
  obtain ⟨-, hkept⟩ := @tasks_kept [.create "task-1" "ctx" "peer" "" "",
    .complete "task-1" .rejected "no" none] [.create "task-2" "ctx" "peer" "" ""] (by decide)
  obtain ⟨r, hr, -, -, hlater⟩ := hkept "task-1" (by decide)
  obtain rfl : r = ⟨"task-1", "ctx", "peer", "", "", .rejected, "no", none⟩ :=
    (Option.some.inj hr).symm
  exact ⟨_, rfl, (hlater rfl).trans (if_neg (by decide))⟩

end

end HermesGateway.Hermes
