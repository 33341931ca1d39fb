import HermesGateway.Broker.Dispatcher

/-!
# What is kept of a refusal

A peer may turn a task away and say why. Its text is free, and so is the metadata it attaches; of
both only a few members are looked at, each against a fixed vocabulary or range.

## Main definitions

* `Verdict` — all the broker looks at of a task that was turned away
* `Allowlisted` — the members the details may have

## Main results

* `peerErrorDetails_eq` — the details are a function of the verdict
* `allowlisted_of_mem` — they have no other members
-/

namespace HermesGateway.Broker

/-- The peer turned the task away. -/
def TaskResult.Turned (task : TaskResult) : Prop :=
  task.state = "rejected" ∨ task.state = "input_required"

instance (task : TaskResult) : Decidable task.Turned := inferInstanceAs (Decidable (_ ∨ _))

/-- The code a task that was turned away is recorded with. -/
def TaskResult.refusalCode (task : TaskResult) : ErrorCode :=
  if task.state = "input_required" then .peerRequiresInput else .peerRejected

/-- What the peer attached under `DIAGNOSTICS_URI`. -/
def TaskResult.diagnostics (task : TaskResult) : Option Json :=
  (task.raw.get? "metadata").bind fun m => m.get? diagnosticsUri

/-- What is looked at of a task that was turned away: its state, the values of the diagnostics that
are valid, and whether the text is the turn-limit message of a peer without diagnostics. -/
structure Verdict where
  state : String
  reason : Option PeerReason
  recommendedAction : Option PeerAction
  executionStarted : Option Bool
  retryAfterSeconds : Option (Fin 86401)
  retryAt : Option String
  turnLimit : Bool
deriving DecidableEq

/-- A `bool`. -/
def boolOf : Json → Option Bool
  | .bool b => some b
  | _ => none

theorem toNat_delay_lt {n : ℤ} (h : 0 ≤ n ∧ n ≤ 86400) : n.toNat < 86401 := by omega

/-- An `int` in the range of `retry_after_seconds`. -/
def delayOf : Json → Option (Fin 86401)
  | .int n => if h : 0 ≤ n ∧ n ≤ 86400 then some ⟨n.toNat, toNat_delay_lt h⟩ else none
  | _ => none

namespace BrokerDispatcher

variable (disp : BrokerDispatcher)

/-- The text of an instant with an offset, rendered again. -/
def instantOf (v : Json) : Option String :=
  v.str?.bind fun instant => if instant.length ≤ 40 then disp.reformat instant else none

/-- The verdict of a task. -/
def verdict (task : TaskResult) : Verdict where
  state := task.state
  reason :=
    ((task.diagnostics.bind fun v => v.get? "reason").bind Json.str?).bind PeerReason.ofText?
  recommendedAction :=
    ((task.diagnostics.bind fun v => v.get? "recommended_action").bind Json.str?).bind
      PeerAction.ofText?
  executionStarted := (task.diagnostics.bind fun v => v.get? "execution_started").bind boolOf
  retryAfterSeconds := (task.diagnostics.bind fun v => v.get? "retry_after_seconds").bind delayOf
  retryAt := (task.diagnostics.bind fun v => v.get? "retry_at").bind disp.instantOf
  turnLimit := task.text.length ≤ 1024 ∧ legacyTurnLimit task.contextId task.text = true

end BrokerDispatcher

/-- The details of a verdict. -/
def Verdict.details (v : Verdict) : PeerDetails :=
  let input := v.state = "input_required"
  match v.reason with
  | some reason =>
    { reason := reason
      peerState := v.state
      recommendedAction :=
        v.recommendedAction.getD (if input then .provideInput else .contactOperator)
      executionStarted := v.executionStarted
      retryAfterSeconds := v.retryAfterSeconds
      retryAt := v.retryAt }
  | none =>
    { reason :=
        if v.state = "rejected" ∧ v.turnLimit = true then .contextTurnLimit
        else if input then .inputRequired else .peerRejected
      peerState := v.state
      recommendedAction := if input then .provideInput else .contactOperator
      executionStarted := none
      retryAfterSeconds := none
      retryAt := none }

/-- A member the details may have. -/
inductive Allowlisted (disp : BrokerDispatcher) : String × Json → Prop
  | reason (reason : PeerReason) : Allowlisted disp ("reason", .str reason.text)
  | peerState {state : String} (h : state = "rejected" ∨ state = "input_required") :
      Allowlisted disp ("peer_state", .str state)
  | recommendedAction (action : PeerAction) :
      Allowlisted disp ("recommended_action", .str action.text)
  | executionStarted (b : Bool) : Allowlisted disp ("execution_started", .bool b)
  | retryAfterSeconds {n : ℕ} (h : n ≤ 86400) : Allowlisted disp ("retry_after_seconds", .int n)
  | retryAt {instant text : String} (h : disp.reformat instant = some text) :
      Allowlisted disp ("retry_at", .str text)

section

variable {disp : BrokerDispatcher} {task : TaskResult}

/-- **The details are a function of the verdict**: nothing else of the task reaches them. -/
theorem peerErrorDetails_eq (disp : BrokerDispatcher) (task : TaskResult) :
    disp.peerErrorDetails task = (disp.verdict task).details := by
  have hlegacy : (task.state = "rejected" ∧ task.text.length ≤ 1024 ∧
      legacyTurnLimit task.contextId task.text = true) ↔
      task.state = "rejected" ∧ (disp.verdict task).turnLimit = true := by
    rw [BrokerDispatcher.verdict, decide_eq_true_iff]
  unfold BrokerDispatcher.peerErrorDetails
  rw [← TaskResult.diagnostics]
  cases hreason : (disp.verdict task).reason with
  | none =>
    have hnone : (task.diagnostics.bind fun v =>
        ((v.get? "reason").bind Json.str?).bind PeerReason.ofText?) = none := by
      rw [← hreason, BrokerDispatcher.verdict]
      cases task.diagnostics <;> rfl
    have hdetails : (disp.verdict task).details =
        { reason :=
            if task.state = "rejected" ∧ (disp.verdict task).turnLimit = true then .contextTurnLimit
            else if task.state = "input_required" then .inputRequired else .peerRejected
          peerState := task.state
          recommendedAction :=
            if task.state = "input_required" then .provideInput else .contactOperator
          executionStarted := none
          retryAfterSeconds := none
          retryAt := none } := by
      rw [Verdict.details, hreason]
      rfl
    rw [hdetails]
    cases hvalue : task.diagnostics with
    | none =>
      simp only [hlegacy]
      split_ifs <;> rfl
    | some value =>
      rw [hvalue, Option.bind_some] at hnone
      simp only [Option.bind_some, hnone, hlegacy]
      split_ifs <;> rfl
  | some reason =>
    cases hvalue : task.diagnostics with
    | none => simp [BrokerDispatcher.verdict, hvalue] at hreason
    | some value =>
      have hreason' : ((value.get? "reason").bind Json.str?).bind PeerReason.ofText? =
        some reason := by
        simpa [BrokerDispatcher.verdict, hvalue] using hreason
      simp only [hreason', Option.bind_some, Verdict.details, hreason]
      simp only [BrokerDispatcher.verdict, hvalue, Option.bind_some]
      congr 1
      · cases value.get? "execution_started" with
        | none => rfl
        | some v => cases v <;> rfl
      · cases value.get? "retry_after_seconds" with
        | none => rfl
        | some v => cases v <;> rfl
      · cases value.get? "retry_at" with
        | none => rfl
        | some v => rfl

/-- **The details have no other members**, and each has its value from a vocabulary or a range, or
is an instant that was rendered again. -/
theorem allowlisted_of_mem (hturned : task.Turned) {members : List (String × Json)}
    (hmembers : (disp.peerErrorDetails task).toJson = .obj members) {m : String × Json}
    (hm : m ∈ members) : Allowlisted disp m := by
  have hstate : (disp.peerErrorDetails task).peerState = task.state := by
    rw [peerErrorDetails_eq, Verdict.details]
    split <;> rfl
  have hinstant : ∀ text, (disp.peerErrorDetails task).retryAt = some text →
      ∃ instant, disp.reformat instant = some text := by
    intro text htext
    rw [peerErrorDetails_eq, Verdict.details] at htext
    split at htext
    · obtain ⟨v, -, hv⟩ := Option.bind_eq_some_iff.mp htext
      obtain ⟨instant, -, hinstant⟩ := Option.bind_eq_some_iff.mp hv
      split_ifs at hinstant
      exact ⟨instant, hinstant⟩
    · cases htext
  generalize disp.peerErrorDetails task = d at hmembers hstate hinstant
  rw [PeerDetails.toJson, Json.obj.injEq] at hmembers
  subst hmembers
  simp only [List.mem_append, List.mem_cons, List.not_mem_nil, or_false, Option.mem_toList,
    Option.map_eq_some_iff] at hm
  rcases hm with ((((rfl | rfl | rfl) | ⟨b, -, rfl⟩) | ⟨n, -, rfl⟩) | ⟨text, htext, rfl⟩)
  · exact .reason d.reason
  · exact .peerState (hstate ▸ hturned)
  · exact .recommendedAction d.recommendedAction
  · exact .executionStarted b
  · exact .retryAfterSeconds (Nat.lt_succ_iff.mp n.isLt)
  · obtain ⟨instant, hinstant⟩ := hinstant text htext
    exact .retryAt hinstant

end

end HermesGateway.Broker
