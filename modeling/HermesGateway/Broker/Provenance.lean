import HermesGateway.Broker.Attribution

/-!
# What stands behind a completion

A coroutine completes an operation only after it has saved a handle, and with the outcome that was
reported for that handle. So whatever is known of the reports the peer has made, as a property of
the operation and the handle they name, is known of the handle of every completed operation.

## Main definitions

* `Prog.Backed` — every completion the coroutine may record stands on the handle it saved
* `Process.Backed` — so does every completion, recorded or on its way

## Main results

* `Process.Step.backed` — a step that takes up no report of a completion but one that stands keeps
  this
-/

namespace HermesGateway.Broker

open BrokerStore BrokerDispatcher

/-! ### Handles stay -/

section

variable {R : Time → Time → Prop} {P : Ledger → OperationRow → Edit → Prop}
  {Q : OperationRow → Edit → Prop} {k : Key} {L L' : Ledger} {ks : List Key} {handle : String}

/-- A handle that is not empty is never replaced. -/
theorem KeyStep.keeps_handle {r : OperationRow} {ss : List Snapshot} {o' : Option OperationRow}
    (h : KeyStep R Q k (some r) ss o') (hne : handle ≠ "") (hr : r.remoteTaskId = some handle) :
    ∃ r', o' = some r' ∧ r'.remoteTaskId = some handle := by
  cases h with
  | same | poll | cancelClaim => exact ⟨_, rfl, hr⟩
  | @purge _ now => exact ⟨_, rfl, (remoteTaskId_purgedRow now r).trans hr⟩
  | @edit _ e _ _ hkey hallowed =>
    cases e with
    | claim | finish | cancel => exact ⟨_, rfl, hr⟩
    | handle handle' now =>
      rcases hallowed.2.1 with hnone | hempty
      · exact absurd (hr.symm.trans hnone) (by simp)
      · exact absurd (Option.some.inj (hr.symm.trans hempty)) hne

theorem handle_of_trace {r : OperationRow} (hmoves : Trace (Move R P) L ks L')
    (hr : L.operation? k = some r) (hne : handle ≠ "") (hhandle : r.remoteTaskId = some handle) :
    ∃ r', L'.operation? k = some r' ∧ r'.remoteTaskId = some handle :=
  hmoves.invariant (I := fun L => ∃ r', L.operation? k = some r' ∧ r'.remoteTaskId = some handle)
    (fun ⟨r', hr', hhandle'⟩ hmove => by
      obtain ⟨ss, hstep, -⟩ := hmove.keyStep (Q := fun _ _ => True) (fun _ _ _ _ => trivial) k
      rw [hr'] at hstep
      exact hstep.keeps_handle hne hhandle') ⟨r, hr, hhandle⟩

end

/-! ### Coroutines -/

/-- Every completion the coroutine may record stands on the handle it saved last, or on `ok` if it
has saved none. -/
def Prog.Backed (P : String → Prop) : Prog → Prop → Prop
  | .done, _ | .raise _, _ => True
  | .saveHandle handle next, _ => next.Backed P (P handle)
  | .get next, ok => ∀ s, (next s).Backed P ok
  | .putArtifact _ _ _ next, ok => ∀ d, (next d).Backed P ok
  | .finish state _ _ _ next, ok => (state = .completed → ok) ∧ next.Backed P ok

section

variable {P P' : String → Prop} {ok ok' : Prop} {p : Prog}

theorem Prog.Backed.mono (hP : ∀ handle, P handle → P' handle) (hok : ok → ok')
    (h : p.Backed P ok) : p.Backed P' ok' := by
  induction p generalizing ok ok' with
  | done | raise => trivial
  | saveHandle handle next ih => exact ih (hP handle) h
  | get next ih => exact fun s => ih s hok (h s)
  | putArtifact content digest contentType next ih => exact fun d => ih d hok (h d)
  | finish state result code message next ih => exact ⟨fun hstate => hok (h.1 hstate), ih hok h.2⟩

/-- A coroutine that records unknown outcomes only. -/
theorem Prog.Mild.backed : ∀ {p : Prog}, p.Mild → p.Backed P ok
  | .done, _ | .raise _, _ => trivial
  | .saveHandle _ _, h | .putArtifact _ _ _ _, h => h.elim
  | .get _, h => fun s => Prog.Mild.backed (h s)
  | .finish _ _ _ _ _, h => ⟨fun hstate => by simp [h.1] at hstate, Prog.Mild.backed h.2.2⟩

theorem handler_backed (job : Job) (terminal : Bool) (e : Failure) :
    (job.handler terminal e).Backed P ok := by
  have hfailed : ∀ code message, (Prog.finish .failed none code message .done).Backed P ok :=
    fun _ _ => ⟨fun h => (by cases h), trivial⟩
  cases job <;> cases e <;> simp only [Job.handler] <;> try split_ifs
  all_goals first | trivial | exact hfailed _ _ | exact unknown_mild.backed

theorem storeParts_backed (disp : BrokerDispatcher) {next : List Descriptor → Prog}
    (hnext : ∀ ds, (next ds).Backed P ok) (parts : List (Option Json)) :
    ∀ ds, (disp.storeParts parts ds next).Backed P ok := by
  induction parts with
  | nil => exact hnext
  | cons part rest ih =>
    intro ds
    rw [storeParts]
    cases disp.partAction part with
    | skip => exact ih ds
    | fail e => trivial
    | store content contentType => exact fun d => ih _

/-- An observation completes the operation only if the peer reported a completion of the task
whose handle it saves. -/
theorem observe_backed (disp : BrokerDispatcher) {task : TaskResult}
    (h : task.state = "completed" → P task.taskId) : (disp.observe task).Backed P ok := by
  rw [observe]
  change Prog.Backed P _ (P task.taskId)
  by_cases hsettles : settles task.state = false
  · rw [if_pos hsettles]
    trivial
  rw [if_neg hsettles]
  intro current
  beta_reduce
  by_cases hfinal : current.state.Final
  · rw [if_pos hfinal]
    trivial
  rw [if_neg hfinal]
  by_cases hturned : task.state = "rejected" ∨ task.state = "input_required"
  · rw [if_pos hturned]
    exact ⟨fun hstate => (by cases hstate), trivial⟩
  rw [if_neg hturned]
  refine storeParts_backed disp ?_ _ _
  intro ds
  cases hstate : OpState.ofText? task.state with
  | none => trivial
  | some state =>
    refine ⟨?_, trivial⟩
    rintro rfl
    exact h (OpState.text_of_ofText? hstate).symm

end

/-! ### Calls -/

/-- The operation is settled, or has a handle on which a completion may stand. -/
def Acknowledged (P : String → Prop) (L : Ledger) (k : Key) : Prop :=
  ∃ r, L.operation? k = some r ∧
    (r.state.Final ∨ ∃ handle, r.remoteTaskId = some handle ∧ handle ≠ "" ∧ P handle)

section

variable {P P' : String → Prop} {k : Key} {L L' : Ledger} {ks : List Key}

theorem Acknowledged.mono (h : Acknowledged P L k) (hP : ∀ handle, P handle → P' handle) :
    Acknowledged P' L k := by
  obtain ⟨r, hr, hfinal | ⟨handle, hhandle, hne, hp⟩⟩ := h
  · exact ⟨r, hr, .inl hfinal⟩
  · exact ⟨r, hr, .inr ⟨handle, hhandle, hne, hP handle hp⟩⟩

theorem Acknowledged.of_trace {R : Time → Time → Prop} {Q : Ledger → OperationRow → Edit → Prop}
    (h : Acknowledged P L k) (hmoves : Trace (Move R Q) L ks L') : Acknowledged P L' k := by
  obtain ⟨r, hr, hfinal | ⟨handle, hhandle, hne, hp⟩⟩ := h
  · obtain ⟨r', hr', hdesc⟩ := descends_of_trace hmoves hr
    exact ⟨r', hr', .inl (hdesc.settled hfinal ▸ hfinal)⟩
  · obtain ⟨r', hr', hhandle'⟩ := handle_of_trace hmoves hr hne hhandle
    exact ⟨r', hr', .inr ⟨handle, hhandle', hne, hp⟩⟩

/-- **One call** leaves a coroutine whose completions stand on the handle it saved. -/
theorem call_backed {disp : BrokerDispatcher} {p p' : Prog} {tx : StoreTx Prog} {s s' : Session}
    (h : p.Backed P (Acknowledged P s.ledger k)) (hcall : disp.call k p = some tx)
    (htx : tx s = .ok (p', s')) (hmoves : ∃ ks, Authored (.call k p) s.ledger ks s'.ledger) :
    p'.Backed P (Acknowledged P s'.ledger k) := by
  obtain ⟨ks, hmoves⟩ := hmoves
  have hkept : Acknowledged P s.ledger k → Acknowledged P s'.ledger k := fun hack =>
    hack.of_trace hmoves
  cases commits_of_call hcall htx with
  | @saveHandle handle next hm =>
    obtain ⟨hne, r, hr, hhandle⟩ := handled_of_saveHandle hm
    refine Prog.Backed.mono (fun _ h => h) (fun hp => ⟨r, hr, ?_⟩) h
    rcases hhandle with hhandle | hfinal
    · exact .inr ⟨handle, hhandle, hne, hp⟩
    · exact .inl hfinal
  | @get _ snap => exact Prog.Backed.mono (fun _ h => h) hkept (h snap)
  | @putArtifact _ _ _ _ d => exact Prog.Backed.mono (fun _ h => h) hkept (h d)
  | finish => exact Prog.Backed.mono (fun _ h => h) hkept h.2

end

/-! ### Tasks -/

/-- What stands behind a task in this phase. -/
def Phase.Backed (P : String → Prop) (L : Ledger) (k : Key) : Phase → Prop
  | .created | .waiting => True
  | .queued result => result.state = "completed" → P result.taskId
  | .observing _ p | .ending p | .settling p => p.Backed P (Acknowledged P L k)

section

variable {disp : BrokerDispatcher} {P P' : String → Prop} {L L' : Ledger} {k : Key} {ks : List Key}
  {t : Task}

theorem Phase.Backed.mono {phase : Phase} (hP : ∀ handle, P handle → P' handle)
    (h : phase.Backed P L k) : phase.Backed P' L k := by
  cases phase with
  | created | waiting => trivial
  | queued result => exact fun hstate => hP _ (h hstate)
  | observing | ending | settling => exact Prog.Backed.mono hP (fun hack => hack.mono hP) h

theorem Phase.Backed.of_trace {R : Time → Time → Prop} {Q : Ledger → OperationRow → Edit → Prop}
    {phase : Phase} (h : phase.Backed P L k) (hmoves : Trace (Move R Q) L ks L') :
    phase.Backed P L' k := by
  cases phase with
  | created | waiting => trivial
  | queued result => exact h
  | observing | ending | settling =>
    exact Prog.Backed.mono (fun _ hp => hp) (fun hack => hack.of_trace hmoves) h

/-- **One transition of a task**: but for a result it has just received, what is left of it is
backed again. -/
theorem TaskStep.backed {others new : List Task} {p : Option Prog} {orphans : List (Key × Prog)}
    {rpcs : List Rpc} (ht : t.phase.Backed P L t.key)
    (h : TaskStep disp others L t p L' new orphans rpcs) :
    (∀ t' ∈ new, t'.key = t.key ∧
      (t'.phase.Backed P L' t.key ∨ ∃ result, t'.phase = .queued result)) ∧
    ∀ x ∈ orphans, x.1 = t.key ∧ x.2.Backed P (Acknowledged P L' t.key) := by
  have one : ∀ {phase : Phase} {L' : Ledger},
      (phase.Backed P L' t.key ∨ ∃ result, phase = .queued result) →
      ∀ t' ∈ [({ t with phase := phase } : Task)], t'.key = t.key ∧
        (t'.phase.Backed P L' t.key ∨ ∃ result, t'.phase = .queued result) := by
    intro phase L' hphase t' ht'
    rw [List.mem_singleton.mp ht']
    exact ⟨rfl, hphase⟩
  cases h with
  | start => exact ⟨one (.inl trivial), by simp⟩
  | fail => exact ⟨one (.inl (handler_backed _ _ _)), by simp⟩
  | eof | deadline => exact ⟨one (.inl unknown_mild.backed), by simp⟩
  | receive => exact ⟨one (.inr ⟨_, rfl⟩), by simp⟩
  | dismiss | abort | finish => exact ⟨by simp, by simp⟩
  | @lock result hp hfree =>
    rw [hp] at ht
    have hobserve : (disp.observe result).Backed P (Acknowledged P L t.key) :=
      observe_backed disp ht
    exact ⟨one (.inl hobserve), by simp⟩
  | commit hp hcall htx | commitEnding hp hcall htx | settle hp hcall htx =>
    rw [hp] at ht
    have hcalled := call_backed (s := ⟨L, _, _⟩) ht hcall htx (call_authored hcall htx)
    exact ⟨one (.inl hcalled), by simp⟩
  | refuse => exact ⟨one (.inl trivial), by simp⟩
  | refuseEnding | handle => exact ⟨one (.inl (handler_backed _ _ _)), by simp⟩
  | observed hp =>
    refine ⟨?_, by simp⟩
    split_ifs
    · exact one (.inl trivial)
    · simp
  | deadlineInCall hjob hp =>
    rw [hp] at ht
    refine ⟨one (.inl unknown_mild.backed), fun x hx => ?_⟩
    rw [List.mem_singleton.mp hx]
    exact ⟨rfl, ht⟩

end

/-! ### The process -/

/-- What stands behind the completions of the broker, recorded or on their way. -/
structure Process.Backed (P : Key → String → Prop) (B : Process) : Prop where
  tasks : ∀ t ∈ B.tasks, t.phase.Backed (P t.key) B.ledger t.key
  orphans : ∀ x ∈ B.orphans, x.2.Backed (P x.1) (Acknowledged (P x.1) B.ledger x.1)
  completed : ∀ k r, B.ledger.operation? k = some r → r.state = .completed →
    ∃ handle, r.remoteTaskId = some handle ∧ handle ≠ "" ∧ P k handle

namespace Process

variable {disp : BrokerDispatcher} {P P' : Key → String → Prop} {B B' : Process} {act : Act}

theorem backed_initial : initial.Backed P where
  tasks _ h := absurd h List.not_mem_nil
  orphans _ h := absurd h List.not_mem_nil
  completed _ _ h := by cases h

theorem Backed.mono (h : B.Backed P) (hP : ∀ k handle, P k handle → P' k handle) :
    B.Backed P' where
  tasks t ht := (h.tasks t ht).mono (hP t.key)
  orphans x hx := Prog.Backed.mono (hP x.1) (fun hack => hack.mono (hP x.1)) (h.orphans x hx)
  completed k r hr hstate := by
    obtain ⟨handle, hhandle, hne, hp⟩ := h.completed k r hr hstate
    exact ⟨handle, hhandle, hne, hP k handle hp⟩

/-- Who waits for a call is backed. -/
theorem Backed.awaits {k : Key} {p : Prog} (h : B.Backed P) (hwaits : B.Awaits k p) :
    p.Backed (P k) (Acknowledged (P k) B.ledger k) := by
  rcases hwaits with ⟨t, ht, rfl, hphase⟩ | horphan
  · have hback := h.tasks t ht
    rcases hphase with ⟨terminal, hphase⟩ | hphase | hphase <;> rwa [hphase] at hback
  · exact h.orphans _ horphan

/-- What is recorded as completed stands on a handle. -/
theorem Step.completed (hinv : B.Inv) (h : B.Backed P) (hstep : Step disp B act B') (k : Key)
    (r' : OperationRow) (hr' : B'.ledger.operation? k = some r') (hstate : r'.state = .completed) :
    ∃ handle, r'.remoteTaskId = some handle ∧ handle ≠ "" ∧ P k handle := by
  obtain ⟨ks, hmoves⟩ := hstep.authored hinv.keyed
  have hkept : ∀ r handle, B.ledger.operation? k = some r → r.remoteTaskId = some handle →
      handle ≠ "" → P k handle →
      ∃ handle, r'.remoteTaskId = some handle ∧ handle ≠ "" ∧ P k handle := by
    intro r handle hr hhandle hne hp
    obtain ⟨r'', hr'', hhandle'⟩ := handle_of_trace hmoves hr hne hhandle
    obtain rfl := Option.some.inj (hr'.symm.trans hr'')
    exact ⟨handle, hhandle', hne, hp⟩
  by_cases hact : ∃ result code message next,
      act = .call k (.finish .completed result code message next)
  · obtain ⟨result, code, message, next, rfl⟩ := hact
    obtain ⟨hwaits, -⟩ := hstep.of_call
    obtain ⟨r, hr, hsettled⟩ := (h.awaits hwaits).1 rfl
    rcases hsettled with hfinal | ⟨handle, hhandle, hne, hp⟩
    · obtain ⟨r'', hr'', hdesc⟩ := descends_of_trace hmoves hr
      obtain rfl := Option.some.inj (hr'.symm.trans hr'')
      obtain ⟨handle, hhandle, hne, hp⟩ :=
        h.completed k r hr ((hdesc.settled hfinal).symm.trans hstate)
      exact hkept r handle hr hhandle hne hp
    · exact hkept r handle hr hhandle hne hp
  · obtain ⟨r, hr, hcompleted⟩ := completed_of_authored hmoves hr' hstate
      fun result code message next heq => hact ⟨result, code, message, next, heq⟩
    obtain ⟨handle, hhandle, hne, hp⟩ := h.completed k r hr hcompleted
    exact hkept r handle hr hhandle hne hp

/-- **One step of the broker** keeps every completion backed, if the results it takes up are. -/
theorem Step.backed (hinv : B.Inv) (h : B.Backed P) (hstep : Step disp B act B')
    (hqueued : ∀ t ∈ B'.tasks, ∀ result, t.phase = .queued result → result.state = "completed" →
      P t.key result.taskId) : B'.Backed P := by
  obtain ⟨ks, hmoves⟩ := hstep.authored hinv.keyed
  have hold : ∀ t ∈ B.tasks, t.phase.Backed (P t.key) B'.ledger t.key := fun t ht =>
    (h.tasks t ht).of_trace hmoves
  have horphan : ∀ x ∈ B.orphans, x.2.Backed (P x.1) (Acknowledged (P x.1) B'.ledger x.1) :=
    fun x hx => Prog.Backed.mono (fun _ hp => hp) (fun hack => hack.of_trace hmoves)
      (h.orphans x hx)
  have hrows := hstep.completed hinv h
  cases hstep with
  | serve | purge | reap | unclaimed => exact ⟨hold, horphan, hrows⟩
  | @claimCancel heard c =>
    refine ⟨fun t ht => ?_, horphan, hrows⟩
    rcases List.mem_append.mp ht with ht | ht
    · exact hold t ht
    · cases heard with
      | false => exact absurd ht List.not_mem_nil
      | true =>
        obtain ⟨x, -, rfl⟩ := Option.map_eq_some_iff.mp (Option.mem_toList.mp ht)
        trivial
  | reconcile =>
    refine ⟨fun t ht => ?_, horphan, hrows⟩
    rcases mem_startReads ht with ht | ⟨r, -, handle, -, rfl⟩
    · exact hold t ht
    · trivial
  | @claim heard c =>
    refine ⟨fun t ht => ?_, horphan, hrows⟩
    rcases List.mem_append.mp ht with ht | ht
    · exact hold t ht
    · cases heard with
      | false => exact absurd ht List.not_mem_nil
      | true =>
        rw [List.mem_singleton.mp ht]
        trivial
  | @task before after new t p L' orphans rpcs hmem hnext =>
    obtain ⟨hnew, hcut⟩ := hnext.backed (h.tasks t (by simp [hmem]))
    refine ⟨fun t' ht' => ?_, fun x hx => ?_, hrows⟩
    · rcases List.mem_append.mp ht' with hin | hin
      · rcases List.mem_append.mp hin with hin | hin
        · exact hold t' (by simp [hmem, hin])
        · obtain ⟨hkey, hback | ⟨result, hphase⟩⟩ := hnew t' hin
          · rw [hkey]
            exact hback
          · rw [hphase]
            exact hqueued t' ht' result hphase
      · exact hold t' (by simp [hmem, hin])
    · rcases List.mem_append.mp hx with hx | hx
      · exact horphan x hx
      · obtain ⟨hkey, hback⟩ := hcut x hx
        rw [hkey]
        exact hback
  | orphan hmem | forget hmem =>
    exact ⟨hold, fun x hx => horphan x ((mem_split hmem).mpr (.inr hx)), hrows⟩
  | shutdown =>
    refine ⟨fun t ht => ?_, fun x hx => ?_, hrows⟩
    · obtain ⟨t', -, hmem⟩ := List.mem_flatMap.mp ht
      rw [eq_of_mem_canceled hmem]
      exact unknown_mild.backed
    · rcases List.mem_append.mp hx with hx | hx
      · exact horphan x hx
      · obtain ⟨t', ht', hmem⟩ := List.mem_flatMap.mp hx
        have hback := hold t' ht'
        obtain ⟨hkey, ⟨terminal, hphase⟩ | hphase | hphase⟩ := phase_of_mem_abandoned hmem
        all_goals
          rw [hphase] at hback
          rw [hkey]
          exact hback
  | sweep =>
    refine ⟨fun t ht => ?_, horphan, hrows⟩
    rw [List.mem_singleton.mp ht]
    exact sweep_mild.backed
  | restart => exact ⟨fun _ ht => absurd ht List.not_mem_nil,
      fun _ hx => absurd hx List.not_mem_nil, hrows⟩

end Process

end HermesGateway.Broker
