import HermesGateway.System.Endings

/-!
# What a refusal comes to

With the patch Hermes refuses a submission for one of two limits and says which, as diagnostics. The
details the broker records are these diagnostics, member by member, whether it reads the stream of
the submission or the task afterwards. The first event of the stream is enough: what the rest of it
finds in the store of Hermes does not matter.

So the delay a device is shown is the one the limiter computed, and what it says of the limiter is
true.

## Main definitions

* `refused` — the ending of a submission that is refused with diagnostics
* `Renders` — an instant of the limiter is one the broker renders again

## Main results

* `details_of_refused` — the details are the diagnostics
* `refusal_told` — for the limiter, with the truth of the delay
-/

namespace HermesGateway.System

open Broker BrokerDispatcher Hermes Peer

/-! ### Endings -/

/-- The text of the diagnostics. -/
def refusalText : Diagnostics → String
  | .rateLimited _ _ =>
    "Context submission rate limit reached; wait before a new explicit submission."
  | .turnLimit => "Context total-turn limit reached; ask the operator to review peer policy."

/-- A submission that is refused with diagnostics, of which `_emit_terminal` finds these. -/
def refused (taskId contextId : String) (d : Diagnostics) (found : Option Diagnostics) :
    Ending where
  taskId := taskId
  contextId := contextId
  state := .rejected
  text := refusalText d
  way := .ended "" (some d) found
  settled := by decide

/-- An instant of the limiter is rendered again as itself, and is not too long. -/
structure Renders (limiter : GatewayContextLimiter) (disp : BrokerDispatcher) : Prop where
  reformat : ∀ t, disp.reformat (limiter.isoformat t) = some (limiter.isoformat t)
  length_le : ∀ t, (limiter.isoformat t).length ≤ 40

/-! ### Details -/

section

variable {limiter : GatewayContextLimiter} {disp : BrokerDispatcher} {calls : List Call} {c : Call}
  {denial : Denial}

/-- The members of a denial. -/
theorem denial_eq (h : limiter.decision calls c = some denial) : denial =
    { reason := "context_rate_limited"
      peerState := "rejected"
      executionStarted := false
      retryAfterSeconds := denial.retryAfterSeconds
      retryAt := limiter.isoformat (c.wall + denial.retryAfterSeconds)
      recommendedAction := "wait_then_submit_new" } := by
  have hanswer : ∃ ts, limiter.answer c ts = some denial := by
    rw [GatewayContextLimiter.decision, GatewayContextLimiter.admitCall] at h
    cases hts : limiter.answer c (timesOf (sweep c.now (limiter.buckets calls)) c.key) with
    | none =>
      rw [hts] at h
      cases h
    | some denial' =>
      rw [hts] at h
      exact ⟨_, hts.trans h⟩
  obtain ⟨ts, hts⟩ := hanswer
  cases ts with
  | nil => cases hts
  | cons oldest rest =>
    rw [GatewayContextLimiter.answer] at hts
    split_ifs at hts
    rw [← Option.some.inj hts]

/-- The delay of a denial can be written. -/
theorem sound_delay (h : Nondecreasing (calls ++ [c]))
    (hdenied : limiter.decision calls c = some denial) :
    (Json.int denial.retryAfterSeconds).Sound := by
  obtain ⟨_, _, -, -, -, -, hmin, hmax⟩ := GatewayContextLimiter.denied h hdenied
  obtain ⟨n, hn⟩ := Int.eq_ofNat_of_zero_le (by omega : 0 ≤ denial.retryAfterSeconds)
  rw [hn]
  exact (tidy_int_of_lt (by omega)).sound

/-- The details of a result with such diagnostics are the diagnostics. -/
def Tells (disp : BrokerDispatcher) (d : Diagnostics) (r : TaskResult) : Prop :=
  r.state = "rejected" ∧ ∃ ms, (disp.peerErrorDetails r).toJson = .obj ms ∧ ms.Perm d.members

theorem tells_turnLimit {r : TaskResult} (hstate : r.state = "rejected")
    (hdiagnostics : r.diagnostics = some (.obj Diagnostics.turnLimit.members)) :
    Tells disp .turnLimit r := by
  have hdetails : disp.peerErrorDetails r =
      { reason := .contextTurnLimit
        peerState := "rejected"
        recommendedAction := .contactOperator
        executionStarted := some false
        retryAfterSeconds := none
        retryAt := none } := by
    rw [peerErrorDetails_eq, Verdict.details]
    simp only [BrokerDispatcher.verdict, hdiagnostics, hstate]
    rfl
  refine ⟨hstate, _, by rw [hdetails]; rfl, ?_⟩
  decide

/-- **The details are the diagnostics**, for a denial. -/
theorem tells_rateLimited (hrenders : Renders limiter disp) (h : Nondecreasing (calls ++ [c]))
    (hdenied : limiter.decision calls c = some denial)
    (sound : (Json.int denial.retryAfterSeconds).Sound) {r : TaskResult}
    (hstate : r.state = "rejected")
    (hdiagnostics : r.diagnostics = some (.obj (Diagnostics.rateLimited denial sound).members)) :
    Tells disp (.rateLimited denial sound) r := by
  obtain ⟨_, _, -, -, -, -, hmin, hmax⟩ := GatewayContextLimiter.denied h hdenied
  have hdenial := denial_eq hdenied
  obtain ⟨n, hn⟩ := Int.eq_ofNat_of_zero_le (by omega : 0 ≤ denial.retryAfterSeconds)
  rw [hn] at hdenial hmin hmax
  subst hdenial
  have hdelay : delayOf (.int n) = some ⟨n, by omega⟩ := dif_pos ⟨by omega, by omega⟩
  have hinstant : disp.instantOf (.str (limiter.isoformat (c.wall + (n : ℤ)))) =
      some (limiter.isoformat (c.wall + (n : ℤ))) := by
    rw [BrokerDispatcher.instantOf, Json.str?, Option.bind_some, if_pos (hrenders.length_le _),
      hrenders.reformat]
  have hdetails : disp.peerErrorDetails r =
      { reason := .contextRateLimited
        peerState := "rejected"
        recommendedAction := .waitThenSubmitNew
        executionStarted := some false
        retryAfterSeconds := some ⟨n, by omega⟩
        retryAt := some (limiter.isoformat (c.wall + (n : ℤ))) } := by
    rw [peerErrorDetails_eq, ← hdelay, ← hinstant, Verdict.details]
    simp only [BrokerDispatcher.verdict, hdiagnostics, hstate]
    rfl
  have hjson : (disp.peerErrorDetails r).toJson = .obj [("reason", .str "context_rate_limited"),
      ("peer_state", .str "rejected"), ("recommended_action", .str "wait_then_submit_new"),
      ("execution_started", .bool false), ("retry_after_seconds", .int n),
      ("retry_at", .str (limiter.isoformat (c.wall + (n : ℤ))))] := by
    rw [hdetails]
    rfl
  exact ⟨hstate, _, hjson, ((List.perm_append_singleton _ _).symm.cons _).cons _⟩

end

/-! ### Refusals -/

section

variable {limiter : GatewayContextLimiter} {disp : BrokerDispatcher} {peer : HermesBrokerPeer}
  {calls : List Call} {c : Call} {denial : Denial} {taskId contextId : String} {d : Diagnostics}
  {found : Option Diagnostics}

/-- The peer takes a snapshot of 256 bytes, and writes one of a text in ASCII. -/
structure Roomy (peer : HermesBrokerPeer) : Prop where
  size : 256 ≤ peer.maxSnapshotBytes
  writes {text : String} :
    (∀ c ∈ text.toList, c.toNat < 128) → peer.writes (snapshotOf [] text) = true

theorem ascii_refusalText (d : Diagnostics) :
    ∀ c ∈ (stripped (refusalText d)).toList, c.toNat < 128 := by
  cases d with
  | rateLimited _ _ =>
    change ∀ c ∈ (stripped
      "Context submission rate limit reached; wait before a new explicit submission.").toList,
        c.toNat < 128
    decide +kernel
  | turnLimit => decide +kernel

theorem fits_refused (hroom : Roomy peer) (fresh : ℕ → Generated) :
    Fits peer fresh (refused taskId contextId d found) := by
  have hnone (n : ℕ) : artifactsOf (fresh n) (refused taskId contextId d found).state
      (refused taskId contextId d found).text = [] := if_neg fun h => by cases h.2
  refine ⟨fun n artifacts text hartifacts htext => ?_, fun n => ?_⟩
  · rw [hnone, or_self] at hartifacts
    subst hartifacts
    rcases htext with rfl | rfl
    · exact hroom.writes (by simp)
    · exact hroom.writes (ascii_refusalText d)
  rw [hnone]
  refine le_trans ?_ hroom.size
  change snapshotSize [] (stripped (refusalText d)) ≤ 256
  cases d with
  | rateLimited _ _ =>
    change snapshotSize [] (stripped
      "Context submission rate limit reached; wait before a new explicit submission.") ≤ 256
    decide +kernel
  | turnLimit => decide +kernel

/-- Both ways tell a refusal, whatever is found of it at the end of the stream. -/
theorem refused_told (hne : taskId ≠ "") (hcontext : contextId ≠ "")
    (hroom : Roomy peer) {fresh : ℕ → Generated} {id : String}
    (hunbroken : ∀ envelope ∈ envelopes (messageStream id 0 fresh
      (refused taskId contextId d found)), envelope.Unbroken)
    (htells : ∀ r : TaskResult, r.state = "rejected" → r.diagnostics = some (.obj d.members) →
      Tells disp d r)
    (context : String) (fresh' : Generated) (user agentSlug tenant : String) :
    ∃ events r after r',
      peer.client.sse "SendStreamingMessage" id (sseText (messageStream id 0 fresh
        (refused taskId contextId d found))) = (events, none) ∧
      (peer.collect context .initial events).1 = r :: after ∧ Tells disp d r ∧
      peer.client.parseTask (toTask fresh' ((refused taskId contextId d found).record user agentSlug
        tenant)) "" = .ok r' ∧ Tells disp d r' := by
  have hview : ∀ {r : TaskResult} {text : String},
      viewOf r = endingView (refused taskId contextId d found) text → Tells disp d r :=
    fun h => htells _ (congrArg View.state h) (congrArg View.diagnostics h)
  obtain ⟨r, after, hresults, hr⟩ := @stream_at_once peer fresh (refused taskId contextId d found)
    hne hcontext (fits_refused hroom fresh) context
    (((refused taskId contextId d found).closing fresh).map Event.json)
  obtain ⟨r', hread, hr'⟩ := @parseTask_record peer (refused taskId contextId d found) hne hcontext
    fresh' user agentSlug tenant ""
  exact ⟨_, r, after, r', sse_messageStream 0 hunbroken, hresults, hview hr, hread, hview hr'⟩

/-- What the store of Hermes has of a refusal. -/
theorem record_refused (user agentSlug tenant : String) :
    (refused taskId contextId d found).record user agentSlug tenant =
      TaskStore.completed .rejected (refusalText d) (some d)
        (TaskStore.created taskId contextId user agentSlug tenant) := rfl

/-- What the broker does with a refusal. -/
theorem observe_tells {r : TaskResult} (h : Tells disp d r) : disp.observe r =
    .saveHandle r.taskId (.get fun current => if current.state.Final then .done else
      .finish .failed (some (.errorDetails (disp.peerErrorDetails r))) (some .peerRejected)
        (some "peer could not complete the operation") .done) := by
  have hturned : r.state = "rejected" ∨ r.state = "input_required" := .inl h.1
  have hsettles : ¬ settles r.state = false := by
    rw [h.1]
    decide
  have hcode : ¬ r.state = "input_required" := by
    rw [h.1]
    decide
  rw [BrokerDispatcher.observe, if_neg hsettles, if_pos hturned, if_neg hcode]

/-- **A denial of the limiter reaches the broker** on both ways, as details that are its diagnostics
member by member; and what they say of the limiter is true: the next submission for the key that
comes when the delay is over is admitted, and any that comes more than a second before is denied. -/
theorem refusal_told (hrenders : Renders limiter disp) (h : Nondecreasing (calls ++ [c]))
    (hdenied : limiter.decision calls c = some denial) (hne : taskId ≠ "")
    (hcontext : contextId ≠ "") (hroom : Roomy peer)
    {fresh : ℕ → Generated} {id : String}
    (hunbroken : ∀ envelope ∈ envelopes (messageStream id 0 fresh
      (refused taskId contextId (.rateLimited denial (sound_delay h hdenied)) found)),
        envelope.Unbroken)
    (context : String) (fresh' : Generated) (user agentSlug tenant : String) :
    (∃ events r after r',
      peer.client.sse "SendStreamingMessage" id (sseText (messageStream id 0 fresh
        (refused taskId contextId (.rateLimited denial (sound_delay h hdenied)) found))) =
          (events, none) ∧
      (peer.collect context .initial events).1 = r :: after ∧
      peer.client.parseTask (toTask fresh' (TaskStore.completed .rejected
        (refusalText (.rateLimited denial (sound_delay h hdenied)))
          (some (.rateLimited denial (sound_delay h hdenied)))
            (TaskStore.created taskId contextId user agentSlug tenant))) "" = .ok r' ∧
      ∀ x ∈ [r, r'], Tells disp (.rateLimited denial (sound_delay h hdenied)) x ∧
        disp.observe x = .saveHandle x.taskId (.get fun current =>
          if current.state.Final then .done else
            .finish .failed (some (.errorDetails (disp.peerErrorDetails x))) (some .peerRejected)
              (some "peer could not complete the operation") .done)) ∧
      ∀ middle c', Nondecreasing (calls ++ c :: (middle ++ [c'])) → c'.key = c.key →
        (limiter.admissions (calls ++ c :: middle) c.key = limiter.admissions calls c.key →
          c.now + denial.retryAfterSeconds ≤ c'.now →
          limiter.decision (calls ++ c :: middle) c' = none) ∧
        (c'.now < c.now + denial.retryAfterSeconds - 1 →
          limiter.decision (calls ++ c :: middle) c' ≠ none) := by
  obtain ⟨events, r, after, r', hsse, hresults, hr, hread, hr'⟩ := refused_told hne hcontext hroom
    hunbroken (fun r => tells_rateLimited hrenders h hdenied (sound_delay h hdenied)) context fresh'
    user agentSlug tenant
  rw [record_refused] at hread
  refine ⟨⟨events, r, after, r', hsse, hresults, hread, fun x hx => ?_⟩, fun middle c' hall hkey =>
    GatewayContextLimiter.after_denial hall hkey hdenied⟩
  have htells : Tells disp (.rateLimited denial (sound_delay h hdenied)) x := by
    rw [List.mem_cons, List.mem_singleton] at hx
    rcases hx with rfl | rfl
    · exact hr
    · exact hr'
  exact ⟨htells, observe_tells htells⟩

/-- The same for the limit of turns. -/
theorem turnLimit_told (hne : taskId ≠ "") (hcontext : contextId ≠ "")
    (hroom : Roomy peer) {fresh : ℕ → Generated} {id : String}
    (hunbroken : ∀ envelope ∈ envelopes (messageStream id 0 fresh
      (refused taskId contextId .turnLimit found)), envelope.Unbroken)
    (context : String) (fresh' : Generated) (user agentSlug tenant : String) :
    ∃ events r after r',
      peer.client.sse "SendStreamingMessage" id (sseText (messageStream id 0 fresh
        (refused taskId contextId .turnLimit found))) = (events, none) ∧
      (peer.collect context .initial events).1 = r :: after ∧ Tells disp .turnLimit r ∧
      peer.client.parseTask (toTask fresh' ((refused taskId contextId .turnLimit found).record user
        agentSlug tenant)) "" = .ok r' ∧ Tells disp .turnLimit r' :=
  refused_told hne hcontext hroom hunbroken (fun _ => tells_turnLimit) context fresh' user agentSlug
    tenant

end

/-- A limiter that renders the instant 1060 seconds after the epoch. -/
def sixthLimiter : GatewayContextLimiter := ⟨fun _ => "1970-01-01T00:17:40+00:00"⟩

/-- What it answers to the sixth submission of a minute. -/
def sixthDenial : Denial :=
  ⟨"context_rate_limited", "rejected", false, 1, "1970-01-01T00:17:40+00:00",
    "wait_then_submit_new"⟩

theorem sound_sixthDenial : (Json.int sixthDenial.retryAfterSeconds).Sound :=
  (@tidy_int_of_lt 1 (by decide)).sound

theorem refusal_told_sixth : ∃ events r after,
    HermesBrokerPeer.plain.client.sse "SendStreamingMessage" "bridge-1" (sseText (messageStream
      "bridge-1" 0 plainFresh (refused "task-6" "context"
        (.rateLimited sixthDenial sound_sixthDenial) none))) = (events, none) ∧
    (HermesBrokerPeer.plain.collect "" .initial events).1 = r :: after ∧ r.state = "rejected" := by
  have hrenders : Renders sixthLimiter { BrokerDispatcher.default with reformat := some } := by
    refine ⟨fun _ => rfl, fun _ => ?_⟩
    change "1970-01-01T00:17:40+00:00".length ≤ 40
    decide
  have hclock : Nondecreasing ([0, 1, 2, 3, 4].map (fun t =>
      (⟨⟨"peer", "agent", "tenant", "context"⟩, t, 1000 + t⟩ : Call)) ++
        [⟨⟨"peer", "agent", "tenant", "context"⟩, 59, 1059⟩]) := by
    unfold Nondecreasing
    decide +kernel
  have hdenied : sixthLimiter.decision ([0, 1, 2, 3, 4].map fun t =>
      (⟨⟨"peer", "agent", "tenant", "context"⟩, t, 1000 + t⟩ : Call))
        ⟨⟨"peer", "agent", "tenant", "context"⟩, 59, 1059⟩ = some sixthDenial := by decide +kernel
  have hunbroken : ∀ envelope ∈ envelopes (messageStream "bridge-1" 0 plainFresh
      (refused "task-6" "context" (.rateLimited sixthDenial sound_sixthDenial) none)),
        envelope.Unbroken := by decide +kernel
  obtain ⟨⟨events, r, after, r', hsse, hresults, -, hx⟩, -⟩ := @refusal_told _ _
    HermesBrokerPeer.plain _ _ _ "task-6" "context" none hrenders hclock hdenied (by decide)
    (by decide) ⟨by decide, fun _ => rfl⟩ plainFresh "bridge-1" hunbroken "" (plainFresh 0) "peer"
    "" ""
  exact ⟨events, r, after, hsse, hresults, (hx r List.mem_cons_self).1.1⟩

end HermesGateway.System
