import HermesGateway.Broker.Attribution
import HermesGateway.Broker.Diagnostics
import HermesGateway.Broker.Settlement

/-!
# What a refusal shows

A task that the peer turned away fails its operation with the details of its verdict, under an
envelope that is taken off again when a snapshot is made. Nothing but the observation of such a task
records the codes of a refusal. So whatever is shown of a refused operation, in any run, is fixed by
the verdict of a task the peer returned for it: its text, its artifacts and the rest of its metadata
are not shown, and two runs in which they differ cannot be told apart by it.

## Main definitions

* `Prog.Finishes` — what every `finish` of a coroutine asks for
* `Process.PeerRun` — runs in which the peer returns certain results only
* `Alike` — equality up to handle, fresh identifier and timestamps

## Main results

* `Process.Step.programs` — a rule for properties of all the coroutines of the broker
* `refusal_contained` — what is shown of a refused operation, in one run and in two
-/

namespace HermesGateway.Broker

open BrokerStore BrokerDispatcher

/-! ### The coroutines of the broker -/

/-- A property of coroutines, by operation, that all those of the dispatcher have when the results
they observe have `Q`. -/
structure Closed (disp : BrokerDispatcher) (Q : Key → TaskResult → Prop) (G : Key → Prog → Prop) :
    Prop where
  observe : ∀ k result, Q k result → G k (disp.observe result)
  call : ∀ k p p' tx s s', G k p → disp.call k p = some tx → tx s = .ok (p', s') → G k p'
  raise : ∀ k e, G k (.raise e)
  handler : ∀ k (job : Job) terminal e, G k (job.handler terminal e)
  unknown : ∀ k, G k unknown
  sweep : ∀ k, G k sweep

/-- The coroutine of a task has the property, or is going to. -/
def Phase.Has (Q : TaskResult → Prop) (G : Prog → Prop) : Phase → Prop
  | .created | .waiting => True
  | .queued result => Q result
  | .observing _ p | .ending p | .settling p => G p

/-- Every coroutine of the broker has the property. -/
structure Process.Programs (Q : Key → TaskResult → Prop) (G : Key → Prog → Prop) (B : Process) :
    Prop where
  tasks : ∀ t ∈ B.tasks, t.phase.Has (Q t.key) (G t.key)
  orphans : ∀ x ∈ B.orphans, G x.1 x.2

section

variable {disp : BrokerDispatcher} {Q : Key → TaskResult → Prop} {G : Key → Prog → Prop}
  {B B' : Process} {act : Act} {t : Task} {L L' : Ledger}

/-- One transition of a task: but for a result it has just received, what is left of it has the
property. -/
theorem TaskStep.programs {others new : List Task} {p : Option Prog} {orphans : List (Key × Prog)}
    {rpcs : List Rpc} (hclosed : Closed disp Q G) (ht : t.phase.Has (Q t.key) (G t.key))
    (h : TaskStep disp others L t p L' new orphans rpcs) :
    (∀ t' ∈ new, t'.key = t.key ∧
      (t'.phase.Has (Q t.key) (G t.key) ∨ ∃ result, t'.phase = .queued result)) ∧
    ∀ x ∈ orphans, x.1 = t.key ∧ G t.key x.2 := by
  have one : ∀ {phase : Phase},
      (phase.Has (Q t.key) (G t.key) ∨ ∃ result, phase = .queued result) →
      ∀ t' ∈ [({ t with phase := phase } : Task)], t'.key = t.key ∧
        (t'.phase.Has (Q t.key) (G t.key) ∨ ∃ result, t'.phase = .queued result) := by
    intro phase hphase t' ht'
    rw [List.mem_singleton.mp ht']
    exact ⟨rfl, hphase⟩
  cases h with
  | start => exact ⟨one (.inl trivial), by simp⟩
  | fail => exact ⟨one (.inl (hclosed.handler _ _ _ _)), by simp⟩
  | eof | deadline => exact ⟨one (.inl (hclosed.unknown _)), by simp⟩
  | receive => exact ⟨one (.inr ⟨_, rfl⟩), by simp⟩
  | dismiss | abort | finish => exact ⟨by simp, by simp⟩
  | lock hp =>
    rw [hp] at ht
    exact ⟨one (.inl (hclosed.observe _ _ ht)), by simp⟩
  | commit hp hcall htx | commitEnding hp hcall htx | settle hp hcall htx =>
    rw [hp] at ht
    exact ⟨one (.inl (hclosed.call _ _ _ _ _ _ ht hcall htx)), by simp⟩
  | refuse => exact ⟨one (.inl (hclosed.raise _ _)), by simp⟩
  | refuseEnding | handle => exact ⟨one (.inl (hclosed.handler _ _ _ _)), by simp⟩
  | observed =>
    refine ⟨?_, by simp⟩
    split_ifs
    · exact one (.inl trivial)
    · simp
  | deadlineInCall _ hp =>
    rw [hp] at ht
    refine ⟨one (.inl (hclosed.unknown _)), fun x hx => ?_⟩
    rw [List.mem_singleton.mp hx]
    exact ⟨rfl, ht⟩

/-- **One step of the broker** keeps a property of all coroutines, if the results it takes up are
such. -/
theorem Process.Step.programs (hclosed : Closed disp Q G) (h : B.Programs Q G)
    (hstep : Process.Step disp B act B')
    (hqueued : ∀ t ∈ B'.tasks, ∀ result, t.phase = .queued result → Q t.key result) :
    B'.Programs Q G := by
  cases hstep with
  | serve | purge | reap | unclaimed => exact ⟨h.tasks, h.orphans⟩
  | @claimCancel heard c =>
    refine ⟨fun t ht => ?_, h.orphans⟩
    rcases List.mem_append.mp ht with ht | ht
    · exact h.tasks t ht
    · cases heard with
      | false => exact absurd ht List.not_mem_nil
      | true =>
        obtain ⟨x, -, rfl⟩ := Option.map_eq_some_iff.mp (Option.mem_toList.mp ht)
        trivial
  | reconcile =>
    refine ⟨fun t ht => ?_, h.orphans⟩
    rcases mem_startReads ht with ht | ⟨r, -, handle, -, rfl⟩
    · exact h.tasks t ht
    · trivial
  | @claim heard c =>
    refine ⟨fun t ht => ?_, h.orphans⟩
    rcases List.mem_append.mp ht with ht | ht
    · exact h.tasks t ht
    · cases heard with
      | false => exact absurd ht List.not_mem_nil
      | true =>
        rw [List.mem_singleton.mp ht]
        trivial
  | @task before after new t p L' orphans rpcs hmem hnext =>
    obtain ⟨hnew, hcut⟩ := hnext.programs hclosed (h.tasks t (by simp [hmem]))
    refine ⟨fun t' ht' => ?_, fun x hx => ?_⟩
    · rcases List.mem_append.mp ht' with hin | hin
      · rcases List.mem_append.mp hin with hin | hin
        · exact h.tasks t' (by simp [hmem, hin])
        · obtain ⟨hkey, hhas | ⟨result, hphase⟩⟩ := hnew t' hin
          · rw [hkey]
            exact hhas
          · rw [hphase]
            exact hqueued t' ht' result hphase
      · exact h.tasks t' (by simp [hmem, hin])
    · rcases List.mem_append.mp hx with hx | hx
      · exact h.orphans x hx
      · obtain ⟨hkey, hg⟩ := hcut x hx
        rw [hkey]
        exact hg
  | orphan hmem | forget hmem =>
    exact ⟨h.tasks, fun x hx => h.orphans x ((mem_split hmem).mpr (.inr hx))⟩
  | shutdown =>
    refine ⟨fun t ht => ?_, fun x hx => ?_⟩
    · obtain ⟨t', -, hmem⟩ := List.mem_flatMap.mp ht
      rw [eq_of_mem_canceled hmem]
      exact hclosed.unknown _
    · rcases List.mem_append.mp hx with hx | hx
      · exact h.orphans x hx
      · obtain ⟨t, ht, hmem⟩ := List.mem_flatMap.mp hx
        have hhas := h.tasks t ht
        obtain ⟨hkey, ⟨terminal, hphase⟩ | hphase | hphase⟩ := phase_of_mem_abandoned hmem
        all_goals
          rw [hphase] at hhas
          rw [hkey]
          exact hhas
  | sweep =>
    refine ⟨fun t ht => ?_, h.orphans⟩
    rw [List.mem_singleton.mp ht]
    exact hclosed.sweep _
  | restart =>
    exact ⟨fun _ ht => absurd ht List.not_mem_nil, fun _ hx => absurd hx List.not_mem_nil⟩

/-- Who waits for a call has the property. -/
theorem Process.Programs.awaits {k : Key} {p : Prog} (h : B.Programs Q G)
    (hwaits : B.Awaits k p) : G k p := by
  rcases hwaits with ⟨t, ht, rfl, hphase⟩ | horphan
  · have hhas := h.tasks t ht
    rcases hphase with ⟨terminal, hphase⟩ | hphase | hphase <;> rwa [hphase] at hhas
  · exact h.orphans _ horphan

end

/-! ### Who records a refusal -/

/-- The codes of a refusal. -/
def refusalCodes : List ErrorCode := [.peerRejected, .peerRequiresInput]

/-- What every `finish` of the coroutine asks for. -/
def Prog.Finishes (F : OpState → Option ResultBody → Option ErrorCode → Option String → Prop) :
    Prog → Prop
  | .done | .raise _ => True
  | .saveHandle _ next => next.Finishes F
  | .get next => ∀ s, (next s).Finishes F
  | .putArtifact _ _ _ next => ∀ d, (next d).Finishes F
  | .finish state result code message next => F state result code message ∧ next.Finishes F

/-- The message of a refusal. -/
def refusalMessage : String := "peer could not complete the operation"

/-- An outcome with the code of a refusal is that of a task among `Q`, with the details of its
verdict. -/
def Refuses (disp : BrokerDispatcher) (Q : TaskResult → Prop) (state : OpState)
    (result : Option ResultBody) (code : Option ErrorCode) (message : Option String) : Prop :=
  ∀ c ∈ refusalCodes, code = some c → ∃ task, Q task ∧ task.Turned ∧ c = task.refusalCode ∧
    state = .failed ∧ result = some (.errorDetails (disp.peerErrorDetails task)) ∧
    message = some refusalMessage

section

variable {disp : BrokerDispatcher} {Q : TaskResult → Prop}

/-- An outcome with another code is none. -/
theorem refuses_of_code {state : OpState} {result : Option ResultBody} {code : Option ErrorCode}
    {message : Option String} (h : ∀ c ∈ refusalCodes, code ≠ some c) :
    Refuses disp Q state result code message := fun c hc hcode => absurd hcode (h c hc)

theorem unknown_refuses : unknown.Finishes (Refuses disp Q) :=
  ⟨refuses_of_code (by decide), trivial⟩

theorem sweep_refuses : sweep.Finishes (Refuses disp Q) := by
  intro s
  dsimp only
  split_ifs
  · exact unknown_refuses
  · trivial

theorem handler_refuses (job : Job) (terminal : Bool) (e : Failure) :
    (job.handler terminal e).Finishes (Refuses disp Q) := by
  have hcoded : ∀ {codes : List ErrorCode} {code : ErrorCode} {message : Option String},
      code ∈ codes → (∀ c ∈ refusalCodes, c ∉ codes) →
      (Prog.finish .failed none (some code) message .done).Finishes (Refuses disp Q) := by
    intro codes code message hcode hother
    refine ⟨refuses_of_code fun c hc heq => hother c hc ?_, trivial⟩
    obtain rfl := Option.some.inj heq
    exact hcode
  cases job with
  | submit =>
    cases e with
    | database => trivial
    | other => exact unknown_refuses
    | broker e =>
      simp only [Job.handler]
      split_ifs with h
      · exact hcoded h.2 (by decide)
      · exact unknown_refuses
  | reconcile handle =>
    cases e with
    | database | other => trivial
    | broker e =>
      simp only [Job.handler]
      split_ifs with h
      · exact hcoded h (by decide)
      · trivial
  | cancel handle => cases e <;> trivial

theorem storeParts_finishes
    {F : OpState → Option ResultBody → Option ErrorCode → Option String → Prop}
    {next : List Descriptor → Prog} (hnext : ∀ ds, (next ds).Finishes F)
      (parts : List (Option Json)) :
    ∀ ds, (disp.storeParts parts ds next).Finishes F := by
  induction parts with
  | nil => exact hnext
  | cons part rest ih =>
    intro ds
    rw [storeParts]
    cases disp.partAction part with
    | skip => exact ih ds
    | fail e => trivial
    | store content contentType => exact fun d => ih _

/-- An observation refuses the operation only for the task it observes. -/
theorem observe_refuses {task : TaskResult} (htask : Q task) :
    (disp.observe task).Finishes (Refuses disp Q) := by
  rw [observe]
  change Prog.Finishes _ (ite _ _ _)
  by_cases hsettles : settles task.state = false
  · rw [if_pos hsettles]
    trivial
  rw [if_neg hsettles]
  intro current
  beta_reduce
  by_cases hfinal : current.state.Final
  · rw [if_pos hfinal]
    trivial
  rw [if_neg hfinal]
  by_cases hturned : task.state = "rejected" ∨ task.state = "input_required"
  · rw [if_pos hturned]
    refine ⟨fun c hc hcode => ⟨task, htask, hturned, ?_, rfl, rfl, rfl⟩, trivial⟩
    exact (Option.some.inj hcode).symm
  rw [if_neg hturned]
  refine storeParts_finishes (fun ds => ?_) _ _
  cases OpState.ofText? task.state with
  | none => trivial
  | some state => exact ⟨refuses_of_code (by decide), trivial⟩

theorem call_finishes {F : OpState → Option ResultBody → Option ErrorCode → Option String → Prop}
    {k : Key} {p p' : Prog} {tx : StoreTx Prog} {s s' : Session} (h : p.Finishes F)
    (hcall : disp.call k p = some tx) (htx : tx s = .ok (p', s')) : p'.Finishes F := by
  cases commits_of_call hcall htx with
  | saveHandle => exact h
  | @get _ snap => exact h snap
  | @putArtifact _ _ _ _ d => exact h d
  | finish => exact h.2

/-- The coroutines of the dispatcher refuse an operation only for a task that was returned for
it. -/
theorem closed_refuses (disp : BrokerDispatcher) (Q : Key → TaskResult → Prop) :
    Closed disp Q fun k p => p.Finishes (Refuses disp (Q k)) where
  observe _ _ htask := observe_refuses htask
  call _ _ _ _ _ _ h hcall htx := call_finishes h hcall htx
  raise _ _ := trivial
  handler _ job terminal e := handler_refuses job terminal e
  unknown _ := unknown_refuses
  sweep _ := sweep_refuses

end

/-! ### Rows and snapshots -/

/-- The operation was refused. -/
def OperationRow.Refused (r : OperationRow) : Prop := ∃ c ∈ refusalCodes, r.errorCode = some c

/-- The snapshot says that the operation was refused. -/
def ShowsRefusal (s : Snapshot) : Prop := ∃ e, s.error = some e ∧ e.code ∈ refusalCodes

/-- The row of an operation that was refused with `task`, whatever happened to it since. -/
structure OperationRow.RefusedBy (disp : BrokerDispatcher) (task : TaskResult) (r : OperationRow) :
    Prop where
  state : r.state = .failed
  errorCode : r.errorCode = some task.refusalCode
  errorMessage : r.errorMessage = some refusalMessage
  result : r.result = none ∨ r.result = some (.errorDetails (disp.peerErrorDetails task))
  resultExpiresAt : r.resultExpiresAt ≠ none

/-- The snapshot shows the details of `task`, as long as they are kept, and nothing else of it. -/
structure ShowsVerdict (disp : BrokerDispatcher) (task : TaskResult) (s : Snapshot) : Prop where
  state : s.state = .failed
  result : s.result = none
  error : ∃ details, s.error = some ⟨task.refusalCode, some refusalMessage, details⟩ ∧
    ∀ d ∈ details, d = disp.peerErrorDetails task

/-- Equality up to handle, fresh identifier and timestamps. -/
structure Alike (s s' : Snapshot) : Prop where
  operationId : s.operationId = s'.operationId
  flowId : s.flowId = s'.flowId
  state : s.state = s'.state
  result : s.result = s'.result
  error : s.error = s'.error

/-- What is shown of a ledger is that of refusals with tasks among `Q`. -/
def Contained (disp : BrokerDispatcher) (Q : Key → TaskResult → Prop) (L : Ledger) : Prop :=
  ∀ k, (∀ r, L.operation? k = some r → r.Refused → ∃ task, Q k task ∧ task.Turned ∧
      r.RefusedBy disp task) ∧
    ∀ s ∈ L.published k, s.operationId = k.2 ∧ (ShowsRefusal s → ∃ task, Q k task ∧ task.Turned ∧
      ShowsVerdict disp task s)

section

variable {disp : BrokerDispatcher} {Q : Key → TaskResult → Prop} {task : TaskResult}
  {r : OperationRow} {t₁ t₂ : Time} {act : Act} {L L' : Ledger} {ks : List Key}

theorem refusalCode_mem (task : TaskResult) : task.refusalCode ∈ refusalCodes := by
  unfold TaskResult.refusalCode
  split_ifs <;> decide

/-- What is shown of a refused row: the details, or the refusal without them, or that the result has
expired. -/
theorem OperationRow.RefusedBy.render (h : r.RefusedBy disp task) (t₁ t₂ : Time) :
    (render r t₁ t₂).state = .failed ∧ (render r t₁ t₂).result = none ∧
      ((render r t₁ t₂).error = some expiredError ∨ ShowsVerdict disp task (render r t₁ t₂)) := by
  have hbase : r.baseError = some ⟨task.refusalCode, some refusalMessage, none⟩ := by
    rw [OperationRow.baseError, h.errorCode, h.errorMessage]
    rfl
  obtain ⟨expires, hexpires⟩ := Option.ne_none_iff_exists'.mp h.resultExpiresAt
  have hpair : (renderResult r t₁ t₂).1 = none ∧
      ((renderResult r t₁ t₂).2 = some expiredError ∨
        ∃ details, (renderResult r t₁ t₂).2 =
          some ⟨task.refusalCode, some refusalMessage, details⟩ ∧
          ∀ d ∈ details, d = disp.peerErrorDetails task) := by
    have hnone : ∃ details : Option PeerDetails,
        r.baseError = some ⟨task.refusalCode, some refusalMessage, details⟩ ∧
          ∀ d ∈ details, d = disp.peerErrorDetails task :=
      ⟨none, hbase, fun _ hd => (by cases hd)⟩
    rcases h.result with hresult | hresult
    · rw [renderResult, hresult, hexpires]
      dsimp only
      split_ifs
      · exact ⟨rfl, .inl rfl⟩
      · exact ⟨rfl, .inr hnone⟩
    · rw [renderResult, hresult, hexpires]
      dsimp only
      have hheld : heldResult r (.errorDetails (disp.peerErrorDetails task)) =
          (none,
            some ⟨task.refusalCode, some refusalMessage, some (disp.peerErrorDetails task)⟩) := by
        simp only [heldResult, hbase]
      split_ifs
      · rw [hheld]
        exact ⟨rfl, .inr ⟨_, rfl, fun d hd => (Option.some.inj hd).symm⟩⟩
      · exact ⟨rfl, .inl rfl⟩
      · exact ⟨rfl, .inr hnone⟩
  exact ⟨h.state, hpair.1, hpair.2.imp id fun herror => ⟨h.state, hpair.1, herror⟩⟩

/-- A snapshot shows a refusal only of a row that was refused. -/
theorem refused_of_render (h : ShowsRefusal (render r t₁ t₂)) : r.Refused := by
  obtain ⟨e, he, hcode⟩ := h
  have hcases : (renderResult r t₁ t₂).2 = some e := he
  have hbase : ∀ {e' : SnapshotError}, r.baseError = some e' → r.errorCode = some e'.code := by
    intro e' h'
    rw [OperationRow.baseError, Option.map_eq_some_iff] at h'
    obtain ⟨c, hc, rfl⟩ := h'
    exact hc
  have hexpired : ¬ e = expiredError := by
    rintro rfl
    exact absurd hcode (by decide)
  refine ⟨e.code, hcode, ?_⟩
  unfold renderResult at hcases
  split at hcases
  · split_ifs at hcases
    · unfold heldResult at hcases
      split at hcases
      · next error _ hsome _ =>
        obtain rfl := Option.some.inj hcases
        exact (hbase hsome : r.errorCode = some error.code)
      · exact hbase hcases
    · exact absurd (Option.some.inj hcases).symm hexpired
    · exact hbase hcases
  · split_ifs at hcases
    · exact absurd (Option.some.inj hcases).symm hexpired
    · exact hbase hcases
  · exact hbase hcases

/-- One step of an operation shows refusals with tasks among `Q` only, if the step of the broker
that makes it does not ask for another. -/
theorem KeyStep.contained {R : Time → Time → Prop} {Q : TaskResult → Prop} {k : Key}
    {o o' : Option OperationRow} {ss : List Snapshot} (h : KeyStep R act.Causes k o ss o')
    (hasks : ∀ state result code message next,
      act = .call k (.finish state result code message next) →
      Refuses disp Q state result code message)
    (hold : ∀ r ∈ o, r.Refused → ∃ task, Q task ∧ task.Turned ∧ r.RefusedBy disp task) :
    (∀ r ∈ o', r.Refused → ∃ task, Q task ∧ task.Turned ∧ r.RefusedBy disp task) ∧
      ∀ s ∈ ss, s.operationId = k.2 ∧ (ShowsRefusal s → ∃ task, Q task ∧ task.Turned ∧
        ShowsVerdict disp task s) := by
  -- a snapshot of a row shows what the row says
  have shown : ∀ {r : OperationRow} {t₁ t₂ : Time}, r.key = k →
      (r.Refused → ∃ task, Q task ∧ task.Turned ∧ r.RefusedBy disp task) →
      (∀ r' ∈ some r, r'.Refused → ∃ task, Q task ∧ task.Turned ∧ r'.RefusedBy disp task) ∧
      ∀ s ∈ [render r t₁ t₂], s.operationId = k.2 ∧ (ShowsRefusal s → ∃ task, Q task ∧
        task.Turned ∧ ShowsVerdict disp task s) := by
    intro r t₁ t₂ hkey hr
    refine ⟨by rintro _ ⟨⟩; exact hr, fun s hs => ?_⟩
    obtain rfl := List.mem_singleton.mp hs
    refine ⟨congrArg Prod.snd hkey, fun hrefusal => ?_⟩
    obtain ⟨task, htask, hturned, hrow⟩ := hr (refused_of_render hrefusal)
    refine ⟨task, htask, hturned, (hrow.render t₁ t₂).2.2.resolve_left fun hexpired => ?_⟩
    obtain ⟨e, he, hcode⟩ := hrefusal
    obtain rfl := Option.some.inj (hexpired.symm.trans he)
    exact absurd hcode (by decide)
  -- an operation that is not definitive was not refused
  have hlive : ∀ {r : OperationRow}, r ∈ o → ¬ r.state.Final → ¬ r.Refused := by
    intro r hr hopen hrefused
    obtain ⟨task, -, -, hrow⟩ := hold r hr hrefused
    rw [hrow.state] at hopen
    exact hopen (by decide)
  cases h with
  | same => exact ⟨hold, by simp⟩
  | @insert request digest now t₁ t₂ hop =>
    refine shown (congrArg (Prod.mk k.1) hop) ?_
    rintro ⟨c, -, hcode⟩
    cases hcode
  | @edit r e t₁ t₂ hkey hallowed hknown =>
    refine shown ((e.key_row r).trans hkey) ?_
    cases e with
    | claim claimedAt now =>
      have haccepted : r.state = .accepted := hallowed
      exact fun hrefused => absurd hrefused (@hlive r rfl (by rw [haccepted]; decide))
    | handle handle now => exact fun hrefused => absurd hrefused (@hlive r rfl hallowed.1)
    | cancel now =>
      rintro ⟨c, hc, hcode⟩
      obtain rfl : ErrorCode.cancelUnconfirmed = c := Option.some.inj hcode
      exact absurd hc (by decide)
    | finish state result code message expires fresh now =>
      rintro ⟨c, hc, hcode⟩
      obtain rfl : code = some c := hcode
      rcases hknown with ⟨-, -, hown⟩ | ⟨next, hact⟩
      · exact absurd hc (show c ∉ refusalCodes from fun hc => absurd (hown c rfl)
          (by revert hc; cases c <;> decide))
      · rw [hkey] at hact
        obtain ⟨task, htask, hturned, rfl, rfl, rfl, rfl⟩ := hasks _ _ _ _ _ hact c hc rfl
        refine ⟨task, htask, hturned, ⟨rfl, rfl, rfl, .inr rfl, ?_⟩⟩
        have hsome : expires.isSome = true := hallowed.2.2
        exact Option.isSome_iff_ne_none.mp hsome
  | poll | cancelClaim =>
    refine ⟨?_, by simp⟩
    rintro _ ⟨⟩ hrefused
    obtain ⟨task, htask, hturned, hrow⟩ := hold _ rfl hrefused
    exact ⟨task, htask, hturned, hrow.state, hrow.errorCode, hrow.errorMessage, hrow.result,
      hrow.resultExpiresAt⟩
  | @purge r now =>
    refine ⟨?_, by simp⟩
    rintro _ ⟨⟩ hrefused
    have hresult : (purgedRow now r).result = none ∨ (purgedRow now r).result = r.result := by
      unfold purgedRow
      split
      · split_ifs
        · exact .inl rfl
        · exact .inr rfl
      · exact .inr rfl
    obtain ⟨x, hx⟩ := purgedRow_eq now r
    rw [hx] at hrefused hresult ⊢
    obtain ⟨task, htask, hturned, hrow⟩ := hold r rfl hrefused
    refine ⟨task, htask, hturned, hrow.state, hrow.errorCode, hrow.errorMessage, ?_,
      hrow.resultExpiresAt⟩
    rcases hresult with hnone | hsame
    · exact .inl hnone
    · rw [hsame]
      exact hrow.result

/-- The moves of a step show refusals with tasks among `Q` only. -/
theorem Contained.of_caused (h : Contained disp Q L) (hmoves : Caused act L ks L')
    (hasks : ∀ k state result code message next,
      act = .call k (.finish state result code message next) →
      Refuses disp (Q k) state result code message) : Contained disp Q L' :=
  hmoves.invariant (I := Contained disp Q) (fun {a l b} hI hmove k => by
    obtain ⟨ss, hstep, hpublished, -⟩ := hmove.keyStep (Q := act.Causes) (fun _ _ _ h => h) k
    obtain ⟨hrows, hsnaps⟩ := hstep.contained (hasks k) (hI k).1
    refine ⟨hrows, fun s hs => ?_⟩
    rw [hpublished] at hs
    rcases List.mem_append.mp hs with hs | hs
    · exact (hI k).2 s hs
    · exact hsnaps s hs) h

end

/-! ### Runs -/

namespace Process

/-- Runs in which the peer returns for each operation results among `Q` only. -/
abbrev PeerRun (disp : BrokerDispatcher) (Q : Key → TaskResult → Prop) : Process → Process → Prop :=
  Relation.ReflTransGen fun B B' => ∃ act, Step disp B act B' ∧
    ∀ t ∈ B'.tasks, ∀ result, t.phase = .queued result → Q t.key result

/-- What a request, an event or a later read may show of an operation. -/
def Shows (B : Process) (k : Key) (s : Snapshot) : Prop :=
  s ∈ B.ledger.published k ∨ ∃ r t₁ t₂, B.ledger.operation? k = some r ∧ s = render r t₁ t₂

variable {disp : BrokerDispatcher} {Q : Key → TaskResult → Prop} {B B' : Process}

/-- **Every run** shows refusals with tasks the peer returned for the operation only. -/
theorem PeerRun.contained (h : PeerRun disp Q initial B) : B.Inv ∧
    B.Programs Q (fun k p => p.Finishes (Refuses disp (Q k))) ∧ Contained disp Q B.ledger := by
  induction h with
  | refl =>
    exact ⟨inv_initial, ⟨fun _ ht => absurd ht List.not_mem_nil,
      fun _ hx => absurd hx List.not_mem_nil⟩, fun k => ⟨fun _ hr => (by cases hr),
      fun _ hs => absurd hs List.not_mem_nil⟩⟩
  | tail _ hlast ih =>
    obtain ⟨act, hstep, hqueued⟩ := hlast
    obtain ⟨hinv, hprograms, hcontained⟩ := ih
    obtain ⟨ks, hmoves⟩ := hstep.caused hinv.keyed
    refine ⟨(hstep.disciplined hinv).2,
      hstep.programs (closed_refuses disp Q) hprograms hqueued, hcontained.of_caused hmoves ?_⟩
    rintro k state result code message next rfl
    exact (hprograms.awaits hstep.of_call.1).1

/-- What a run shows of an operation and calls a refusal shows a verdict. -/
theorem PeerRun.verdict (h : PeerRun disp Q initial B) {k : Key} {s : Snapshot}
    (hshown : B.Shows k s) (hrefusal : ShowsRefusal s) :
    s.operationId = k.2 ∧ ∃ task, Q k task ∧ task.Turned ∧ ShowsVerdict disp task s := by
  obtain ⟨-, -, hcontained⟩ := h.contained
  rcases hshown with hpublished | ⟨r, t₁, t₂, hr, rfl⟩
  · obtain ⟨hid, hverdict⟩ := (hcontained k).2 s hpublished
    exact ⟨hid, hverdict hrefusal⟩
  · obtain ⟨task, htask, hturned, hrow⟩ := (hcontained k).1 r hr (refused_of_render hrefusal)
    refine ⟨congrArg Prod.snd (key_of_operation? hr), task, htask, hturned,
      (hrow.render t₁ t₂).2.2.resolve_left fun hexpired => ?_⟩
    obtain ⟨e, he, hcode⟩ := hrefusal
    obtain rfl := Option.some.inj (hexpired.symm.trans he)
    exact absurd hcode (by decide)

end Process

section

variable {disp : BrokerDispatcher} {task task' : TaskResult} {s s' : Snapshot}

/-- The state is part of the verdict, so the code is a function of it. -/
theorem refusalCode_of_verdict (h : disp.verdict task = disp.verdict task') :
    task.refusalCode = task'.refusalCode := by
  have hstate : task.state = task'.state := congrArg Verdict.state h
  rw [TaskResult.refusalCode, TaskResult.refusalCode, hstate]

theorem peerErrorDetails_of_verdict (h : disp.verdict task = disp.verdict task') :
    disp.peerErrorDetails task = disp.peerErrorDetails task' := by
  rw [peerErrorDetails_eq, peerErrorDetails_eq, h]

/-- Snapshots that show the same verdict are alike, when both show its details or neither does. -/
theorem ShowsVerdict.alike (h : ShowsVerdict disp task s) (h' : ShowsVerdict disp task' s')
    (hverdict : disp.verdict task = disp.verdict task') (hid : s.operationId = s'.operationId)
    (hkept : (s.error.bind SnapshotError.details).isSome =
      (s'.error.bind SnapshotError.details).isSome) (hflow : s.flowId = s'.flowId) :
        Alike s s' := by
  obtain ⟨details, herror, hdetails⟩ := h.error
  obtain ⟨details', herror', hdetails'⟩ := h'.error
  have hsame : details = details' := by
    rw [herror, herror', Option.bind_some, Option.bind_some] at hkept
    cases details with
    | none =>
      cases details' with
      | none => rfl
      | some d' => cases hkept
    | some d =>
      cases details' with
      | none => cases hkept
      | some d' =>
        rw [hdetails d rfl, hdetails' d' rfl, peerErrorDetails_of_verdict hverdict]
  refine ⟨hid, hflow, h.state.trans h'.state.symm, h.result.trans h'.result.symm, ?_⟩
  rw [herror, herror', refusalCode_of_verdict hverdict, hsame]

/-- Two tasks with one verdict make the dispatcher do the same, but for the handle it saves. -/
theorem observe_of_verdict (hturned : task.Turned)
    (h : disp.verdict task = disp.verdict task') :
    ∃ rest, disp.observe task = .saveHandle task.taskId rest ∧
      disp.observe task' = .saveHandle task'.taskId rest := by
  have hstate : task.state = task'.state := congrArg Verdict.state h
  have hturned' : task.state = "rejected" ∨ task.state = "input_required" := hturned
  refine ⟨_, rfl, ?_⟩
  rw [observe, ← hstate, peerErrorDetails_of_verdict h]
  simp only [if_pos hturned']

end

/-- **Peer diagnostics do not leak.** Whatever a run shows of an operation and calls a refusal has
no result, and as error a code and a message that are fixed and, as long as they are kept, the
details of a task the peer returned for it, whose members are all on the list; what is shown of it
later, when they have expired, says only that. And if in two runs the tasks that were turned away
had the same verdicts, what the runs show of the operation is the same up to handle, fresh
identifier and timestamps, whatever else the tasks contained: the dispatcher makes the same calls
for them. -/
theorem refusal_contained {disp : BrokerDispatcher} {Q : Key → TaskResult → Prop} {B : Process}
    (hrun : Process.PeerRun disp Q Process.initial B) {k : Key} {s : Snapshot}
    (hshown : B.Shows k s) (hrefusal : ShowsRefusal s) :
    (∃ task, Q k task ∧ task.Turned ∧ ShowsVerdict disp task s ∧
      ∀ members, (disp.peerErrorDetails task).toJson = .obj members →
        ∀ m ∈ members, Allowlisted disp m) ∧
    (∀ r t₁ t₂, B.ledger.operation? k = some r → r.Refused → (render r t₁ t₂).result = none ∧
      ((render r t₁ t₂).error = some expiredError ∨ ShowsRefusal (render r t₁ t₂))) ∧
    (∀ Q' B' s', Process.PeerRun disp Q' Process.initial B' → B'.Shows k s' → ShowsRefusal s' →
      (∀ task task', Q k task → Q' k task' → task.Turned → task'.Turned →
        disp.verdict task = disp.verdict task') →
      (s.error.bind SnapshotError.details).isSome = (s'.error.bind SnapshotError.details).isSome →
      s.flowId = s'.flowId → Alike s s') ∧
    ∀ task task', task.Turned → disp.verdict task = disp.verdict task' →
      ∃ rest, disp.observe task = .saveHandle task.taskId rest ∧
        disp.observe task' = .saveHandle task'.taskId rest := by
  obtain ⟨hid, task, htask, hturned, hverdict⟩ := hrun.verdict hshown hrefusal
  refine ⟨⟨task, htask, hturned, hverdict, fun _ hmembers _ hm =>
    allowlisted_of_mem hturned hmembers hm⟩, fun r t₁ t₂ hr hrefused => ?_,
    fun Q' B' s' hrun' hshown' hrefusal' hsame hkept hflow => ?_,
    fun _ _ hturned h => observe_of_verdict hturned h⟩
  · obtain ⟨task', -, -, hrow⟩ := (hrun.contained.2.2 k).1 r hr hrefused
    obtain ⟨-, hresult, herror⟩ := hrow.render t₁ t₂
    refine ⟨hresult, herror.imp id fun hshows => ?_⟩
    obtain ⟨details, herror, -⟩ := hshows.error
    exact ⟨_, herror, refusalCode_mem task'⟩
  · obtain ⟨hid', task', htask', hturned', hverdict'⟩ := hrun'.verdict hshown' hrefusal'
    exact hverdict.alike hverdict' (hsame _ _ htask htask' hturned hturned') (hid.trans hid'.symm)
      hkept hflow

/-- A task the peer turned away, with diagnostics and free text. -/
def turnedTask : TaskResult :=
  ⟨"t", "c", "rejected", "free text", [], .obj [("metadata", .obj [(diagnosticsUri, .obj
    [("reason", .str "context_rate_limited"), ("retry_after_seconds", .int 32),
      ("message", .str "free text")])])]⟩

theorem refusal_contained_rejected :
    ∃ B s, Process.PeerRun ⟨BrokerStore.default, fun _ => "", fun _ => none⟩
        (fun _ result => result = turnedTask) Process.initial B ∧
      s.error = some ⟨.peerRejected, some refusalMessage, some ⟨.contextRateLimited, "rejected",
        .contactOperator, none, some 32, none⟩⟩ ∧ s.result = none ∧ B.Shows ("laptop", 1) s := by
  let disp : BrokerDispatcher := ⟨BrokerStore.default, fun _ => "", fun _ => none⟩
  let asked : Prog := .finish .failed (some (.errorDetails (disp.peerErrorDetails turnedTask)))
    (some .peerRejected) (some refusalMessage) .done
  let next : Snapshot → Prog := fun current => if current.state.Final then .done else asked
  have hobserve : disp.observe turnedTask = .saveHandle "t" (.get next) := by
    rw [observe, if_neg (by decide)]
    rfl
  have hsave := @saveHandle_claimedLedger BrokerStore.default "t" (by decide) (by decide)
    (by decide) rfl
  -- the operation is still open, and the refusal is recorded
  have hruns : (Tx.succeeds (BrokerStore.get ("laptop", 1)
      ⟨handledLedger BrokerStore.default "t", fun _ => 0, fun _ => 0⟩) fun current s₁ =>
    ¬ current.state.Final ∧ Tx.succeeds (BrokerStore.default.finish ("laptop", 1) .failed
      (some (.errorDetails (disp.peerErrorDetails turnedTask))) (some .peerRejected)
      (some refusalMessage) ⟨s₁.ledger, fun _ => 0, fun _ => 7⟩) (fun snap s₂ =>
        snap ∈ s₂.ledger.published ("laptop", 1) ∧
          snap.error = some ⟨.peerRejected, some refusalMessage, some ⟨.contextRateLimited,
            "rejected", .contactOperator, none, some 32, none⟩⟩) = true) = true := by
    decide +kernel
  obtain ⟨current, s₁, hget, hruns⟩ := Tx.exists_of_succeeds hruns
  obtain ⟨hopen, hruns⟩ := of_decide_eq_true hruns
  obtain ⟨snap, s₂, hfinish, hshown⟩ := Tx.exists_of_succeeds hruns
  obtain ⟨hpublished, herror⟩ := of_decide_eq_true hshown
  have hnext : next current = asked := if_neg hopen
  have hsole : ∀ {L : Ledger} {phase : Phase} {rpcs : List Rpc},
      (∀ result, phase = .queued result → result = turnedTask) →
      ∀ t ∈ (soleTask L phase rpcs).tasks, ∀ result, t.phase = .queued result →
        result = turnedTask := by
    intro L phase rpcs hphase t ht result hqueued
    rw [List.mem_singleton.mp ht] at hqueued
    exact hphase result hqueued
  have hrun : Process.PeerRun disp (fun _ result => result = turnedTask) Process.initial
      (observer s₂.ledger .done) := by
    exact (((((((Relation.ReflTransGen.single
      ⟨_, step_accept disp, fun _ ht => absurd ht List.not_mem_nil⟩).tail
      ⟨_, step_claim disp, hsole (by rintro _ ⟨⟩)⟩).tail
      ⟨_, step_start disp _, hsole (by rintro _ ⟨⟩)⟩).tail
      ⟨_, @step_receive disp _ turnedTask (by decide), hsole (by rintro _ ⟨⟩; rfl)⟩).tail
      ⟨_, hobserve ▸ step_lock disp _, hsole (by rintro _ ⟨⟩)⟩).tail
      ⟨_, step_commit disp rfl (Tx.map_eq_ok.mpr ⟨(), hsave, rfl⟩), hsole (by rintro _ ⟨⟩)⟩).tail
      ⟨_, step_commit disp rfl (Tx.map_eq_ok.mpr ⟨current, hget, hnext⟩),
        hsole (by rintro _ ⟨⟩)⟩).tail
      ⟨_, step_commit disp rfl (Tx.map_eq_ok.mpr ⟨snap, hfinish, rfl⟩), hsole (by rintro _ ⟨⟩)⟩
  have hshows : (observer s₂.ledger .done).Shows ("laptop", 1) snap := .inl hpublished
  obtain ⟨⟨task, -, -, hverdict, -⟩, -⟩ := refusal_contained hrun hshows ⟨_, herror, by decide⟩
  exact ⟨_, snap, hrun, herror, hverdict.result, hshows⟩

end HermesGateway.Broker
