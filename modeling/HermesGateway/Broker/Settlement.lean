import HermesGateway.Broker.Failures
import HermesGateway.Broker.Runs
import Mathlib.Algebra.Order.BigOperators.Group.List

/-!
# Settlement of a terminal result

Between a terminal result of the peer and the record of its outcome lie the checks of its parts.
The handlers of `_submit` and `_reconcile` fail the operation on a list of error codes, and leave
it unsettled on every other error. Two kinds of parts raise an error that is on neither list: a
`parts` member that cannot be iterated over, and a raw part whose media type `put_artifact`
refuses. Two texts do: a result text that has no bytes in UTF-8, when the result is measured, and a
handle that has none or holds a NUL, when it is bound to the statement that saves it. A result that
comes to one of these leaves the operation running or of unknown outcome; every other terminal
result settles it.

## Main definitions

* `Handling` — the handling of a delivered result, while others use the store
* `BrokerDispatcher.Settleable` — the parts and the text come to no error that is on neither list
* `Settles` — every handling of a result that comes to its end leaves the operation definitive

## Main results

* `handling_of_taskStep` — the transitions of a task are those of a handling, unless they
  interrupt it
* `final_of_handling` — a settleable result settles the operation
* `unbound_unsettled`, `exists_unsettled` — any other does not
* `settles_iff` — both together
-/

namespace HermesGateway.Broker

open BrokerStore BrokerDispatcher

/-! ### Handling a result -/

/-- Where the handling of a result is: in the observation, in the exception handler, or over. -/
inductive Stage
  | observing (p : Prog)
  | settling (p : Prog)
  | ended

/-- The operation has no handle but this one. -/
def Agrees (L : Ledger) (k : Key) (handle : String) : Prop :=
  ∀ r, L.operation? k = some r →
    r.remoteTaskId = none ∨ r.remoteTaskId = some "" ∨ r.remoteTaskId = some handle

/-- The handling of a terminal result goes on by a step of the task, or the store is used by
someone else meanwhile, who saves no other handle. No deadline, shutdown or failure of the
database falls into it; that the driver refuses a handle with a NUL is none, though the exception
is of the same class. -/
inductive Handling (disp : BrokerDispatcher) (k : Key) (job : Job) (handle : String) :
    Ledger × Stage → Ledger × Stage → Prop
  /-- Someone else's transaction. -/
  | other {L L' : Ledger} {x : Stage} (h : StoreStep disp.store L L')
      (hagrees : Agrees L' k handle) :
      Handling disp k job handle (L, x) (L', x)
  /-- A call of the observation commits. -/
  | commit {L : Ledger} {p p' : Prog} {tx : StoreTx Prog} {clock : ℕ → Time} {uuids : ℕ → Uuid}
      {s' : Session} (hcall : disp.call k p = some tx) (htx : tx ⟨L, clock, uuids⟩ = .ok (p', s')) :
      Handling disp k job handle (L, .observing p) (s'.ledger, .observing p')
  /-- A call of the observation is refused. -/
  | refuse {L : Ledger} {p : Prog} {tx : StoreTx Prog} {clock : ℕ → Time} {uuids : ℕ → Uuid}
      {e : Failure} (hcall : disp.call k p = some tx) (htx : tx ⟨L, clock, uuids⟩ = .error e)
      (he : e = .database → ∃ h next, p = .saveHandle h next ∧ ¬ Storable h) :
      Handling disp k job handle (L, .observing p) (L, .observing (.raise e))
  /-- The observation ends. -/
  | observed {L : Ledger} : Handling disp k job handle (L, .observing .done) (L, .ended)
  /-- The observation raises, and the handler takes over. -/
  | handle {L : Ledger} {e : Failure} :
      Handling disp k job handle (L, .observing (.raise e)) (L, .settling (job.handler true e))
  /-- A call of the handler commits. -/
  | settle {L : Ledger} {p p' : Prog} {tx : StoreTx Prog} {clock : ℕ → Time} {uuids : ℕ → Uuid}
      {s' : Session} (hcall : disp.call k p = some tx) (htx : tx ⟨L, clock, uuids⟩ = .ok (p', s')) :
      Handling disp k job handle (L, .settling p) (s'.ledger, .settling p')
  /-- A call of the handler is refused. -/
  | abort {L : Ledger} {p : Prog} {tx : StoreTx Prog} {clock : ℕ → Time} {uuids : ℕ → Uuid}
      {e : Failure} (hcall : disp.call k p = some tx) (htx : tx ⟨L, clock, uuids⟩ = .error e)
      (he : e ≠ .database) : Handling disp k job handle (L, .settling p) (L, .ended)
  /-- The handler ends. -/
  | finish {L : Ledger} {p : Prog} (hcall : disp.call k p = none) :
      Handling disp k job handle (L, .settling p) (L, .ended)

/-- The phases of a task a handling consists of. -/
def Stage.phase : Stage → Option Phase
  | .observing p => some (.observing true p)
  | .settling p => some (.settling p)
  | .ended => none

/-- The task at a stage of the handling. -/
def Stage.tasks (k : Key) (job : Job) (x : Stage) : List Task :=
  (x.phase.map fun phase => (⟨k, job, phase⟩ : Task)).toList

/-- A transition of a task that handles a terminal result is a step of the handling, unless a
deadline passes, which leaves a call behind, or the database fails a call. -/
theorem handling_of_taskStep {disp : BrokerDispatcher} {others new : List Task} {L L' : Ledger}
    {k : Key} {job : Job} {handle : String} {x : Stage} {phase : Phase} {label : Option Prog}
    {orphans : List (Key × Prog)} {rpcs : List Rpc} (hx : x.phase = some phase)
    (h : TaskStep disp others L ⟨k, job, phase⟩ label L' new orphans rpcs) :
    (∃ x', Handling disp k job handle (L, x) (L', x') ∧ new = x'.tasks k job) ∨ orphans ≠ [] ∨
    ∃ p tx, disp.call k p = some tx ∧ L' = L ∧
      (x = .observing p ∧ new = (Stage.observing (.raise .database)).tasks k job ∨
        x = .settling p ∧ new = []) := by
  cases x with
  | ended => cases hx
  | observing q =>
    obtain rfl := Option.some.inj hx
    cases h with
    | start hphase | fail hphase | eof hphase | receive hphase | dismiss hphase | lock hphase
    | commitEnding hphase | settle hphase | refuseEnding hphase | abort hphase => cases hphase
    | commit hphase hcall htx =>
      cases hphase
      exact .inl ⟨.observing _, .commit hcall htx, rfl⟩
    | @refuse terminal p tx clock uuids e hphase hcall htx =>
      cases hphase
      by_cases he : e = .database
      · subst he
        exact .inr (.inr ⟨q, tx, hcall, rfl, .inl ⟨rfl, rfl⟩⟩)
      · exact .inl ⟨.observing _, .refuse hcall (htx.resolve_right he) fun h => absurd h he, rfl⟩
    | observed hphase =>
      cases hphase
      exact .inl ⟨.ended, .observed, if_neg (by simp)⟩
    | handle hphase =>
      cases hphase
      exact .inl ⟨.settling _, .handle, rfl⟩
    | finish hphase =>
      rcases hphase with hphase | hphase <;> cases hphase
    | deadline hjob hphase =>
      rcases hphase with hphase | ⟨_, hphase⟩ <;> cases hphase
    | deadlineInCall => exact .inr (.inl (by simp))
  | settling q =>
    obtain rfl := Option.some.inj hx
    cases h with
    | start hphase | fail hphase | eof hphase | receive hphase | dismiss hphase | lock hphase
    | commit hphase | refuse hphase | observed hphase | handle hphase | commitEnding hphase
    | refuseEnding hphase => cases hphase
    | settle hphase hcall htx =>
      cases hphase
      exact .inl ⟨.settling _, .settle hcall htx, rfl⟩
    | abort hphase hcall =>
      cases hphase
      exact .inr (.inr ⟨q, _, hcall, rfl, .inr ⟨rfl, rfl⟩⟩)
    | finish hphase hcall =>
      rcases hphase with hphase | hphase
      · cases hphase
      · cases hphase
        exact .inl ⟨.ended, .finish hcall, rfl⟩
    | deadline hjob hphase =>
      rcases hphase with hphase | ⟨_, hphase⟩ <;> cases hphase
    | deadlineInCall => exact .inr (.inl (by simp))

/-! ### Results that settle -/

/-- The failure is on both lists of the handlers. -/
def Failure.Listed : Failure → Prop
  | .broker e => e.code ∈ artifactCodes.dropLast
  | _ => False

/-- The parts come to no error that is on neither list: before one that raises such an error, or
whose media type is refused, stands one that is too large or raises an error on both. Once they are
all stored the text is encoded. -/
def BrokerDispatcher.Settleable (disp : BrokerDispatcher) (text : String) :
    List (Option Json) → Prop
  | [] => disp.store.encodable text = true
  | part :: rest =>
    match disp.partAction part with
    | .skip => disp.Settleable text rest
    | .fail e => e.Listed
    | .store content contentType =>
      disp.store.settings.maxArtifactBytes < content.size ∨ ValidType contentType ∧
        (disp.store.settings.deviceQuotaBytes < content.size ∨ disp.Settleable text rest)

instance : DecidablePred Failure.Listed
  | .broker _ => inferInstanceAs (Decidable (_ ∈ _))
  | .database | .other => .isFalse id

instance BrokerDispatcher.decidableSettleable (disp : BrokerDispatcher) (text : String) :
    DecidablePred (disp.Settleable text)
  | [] => inferInstanceAs (Decidable (_ = _))
  | part :: rest =>
    have := disp.decidableSettleable text rest
    match h : disp.partAction part with
    | .skip => decidable_of_iff (disp.Settleable text rest) (by rw [Settleable, h])
    | .fail e => decidable_of_iff e.Listed (by rw [Settleable, h])
    | .store content contentType =>
      decidable_of_iff (disp.store.settings.maxArtifactBytes < content.size ∨
        ValidType contentType ∧
          (disp.store.settings.deviceQuotaBytes < content.size ∨ disp.Settleable text rest))
        (by rw [Settleable, h])

/-- The operation is definitive. -/
def Definitive (L : Ledger) (k : Key) : Prop := ∃ r, L.operation? k = some r ∧ r.state.Final

/-- However a result is delivered and whatever happens meanwhile, the operation is definitive when
the handling is over. -/
def Settles (disp : BrokerDispatcher) (result : TaskResult) : Prop :=
  ∀ (B : Process) (k : Key) (job : Job) (L' : Ledger), Process.Reachable disp B →
    (⟨k, job, .queued result⟩ : Task) ∈ B.tasks →
    job = .submit ∨ job = .reconcile result.taskId → Agrees B.ledger k result.taskId →
    Relation.ReflTransGen (Handling disp k job result.taskId)
      (B.ledger, .observing (disp.observe result)) (L', .ended) →
    Definitive L' k

/-- What is left of an observation ends by recording a definitive outcome, or raises an error on
both lists. -/
def Prog.Closes (store : BrokerStore) : Prog → Prop
  | .done | .saveHandle _ _ | .get _ => False
  | .raise e => e.Listed
  | .putArtifact content digest contentType next =>
    store.sha256 content = digest ∧
      (store.settings.maxArtifactBytes < content.size ∨ ValidType contentType ∧
        (store.settings.deviceQuotaBytes < content.size ∨ ∀ d, (next d).Closes store))
  | .finish state result _ _ next =>
    state.Final ∧ next = .done ∧ ∀ body ∈ result, store.encodes body = true

/-- Reads the operation, and closes unless it is definitive. -/
def Prog.Reads (store : BrokerStore) : Prog → Prop
  | .get next => ∀ current : Snapshot,
      (current.state.Final → next current = .done) ∧
        (¬ current.state.Final → (next current).Closes store)
  | _ => False

/-- Saves the handle, and reads the operation. -/
def Prog.Begins (store : BrokerStore) (handle : String) : Prog → Prop
  | .saveHandle h next => h = handle ∧ next.Reads store
  | _ => False

section

variable {disp : BrokerDispatcher} {k : Key} {job : Job} {handle : String} {L L' : Ledger}
  {x x' : Stage}

/-- What a stage promises of an operation that is not definitive yet. -/
def Stage.Open (store : BrokerStore) (L : Ledger) (k : Key) (handle : String) : Stage → Prop
  | .observing p => p.Begins store handle ∧ Agrees L k handle ∨ p.Reads store ∨ p.Closes store
  | .settling p => ∃ code message, p = .finish .failed none code message .done
  | .ended => False

/-- The invariant of a handling. -/
structure Handled (disp : BrokerDispatcher) (k : Key) (handle : String) (y : Ledger × Stage) :
    Prop where
  reachable : Reachable disp.store y.1
  present : ∃ r, y.1.operation? k = some r
  settled : Definitive y.1 k ∨ y.2.Open disp.store y.1 k handle

/-- A step of a handling uses the store once, or not at all. -/
theorem Handling.storeStep (h : Handling disp k job handle (L, x) (L', x')) :
    L' = L ∨ StoreStep disp.store L L' := by
  cases h with
  | other h => exact .inr h
  | commit hcall htx | settle hcall htx =>
    obtain ⟨x, hx, -⟩ := Process.performs_of_call hcall htx
    exact .inr ⟨x, _, hx⟩
  | refuse | observed | handle | abort | finish => exact .inl rfl

/-- An operation stays, and stays definitive. -/
theorem StoreStep.operation {store : BrokerStore} (hreach : Reachable store L)
    (hstep : StoreStep store L L') :
    ((∃ r, L.operation? k = some r) → ∃ r, L'.operation? k = some r) ∧
      (Definitive L k → Definitive L' k) := by
  obtain ⟨ks, hmoves⟩ := moves_of_run hreach keyed_empty
  obtain ⟨ks', hmoves'⟩ := hstep.moves (keyed_of_trace hmoves keyed_empty)
  constructor
  · rintro ⟨r, hr⟩
    obtain ⟨r', hr', -⟩ := descends_of_trace hmoves' hr
    exact ⟨r', hr'⟩
  · rintro ⟨r, hr, hfinal⟩
    obtain ⟨r', hr', hdesc⟩ := descends_of_trace hmoves' hr
    exact ⟨r', hr', hdesc.settled hfinal ▸ hfinal⟩

/-- `finish` with a definitive state leaves the operation definitive. -/
theorem definitive_of_finish {store : BrokerStore} {state : OpState} {result : Option ResultBody}
    {code : Option ErrorCode} {message : Option String} {s s' : Session} {snap : Snapshot}
    (hpresent : ∃ r, s.ledger.operation? k = some r) (hstate : state.Final)
    (h : store.finish k state result code message s = .ok (snap, s')) : Definitive s'.ledger k := by
  obtain ⟨r, hr⟩ := hpresent
  obtain ⟨hkept, hedited⟩ := finish_eq_ok hr h
  by_cases hfinal : r.state.Final
  · exact ⟨r, hkept hfinal, hfinal⟩
  · obtain ⟨expires, fresh, now, ⟨hrow, -⟩ | ⟨hrow, -⟩⟩ := hedited hfinal
    · exact ⟨_, hrow, hstate⟩
    · exact ⟨_, hrow, show OpState.failed.Final by decide⟩

/-- A call of an open observation commits. -/
theorem open_of_commit {p p' : Prog} {tx : StoreTx Prog} {s s' : Session}
    (hpresent : ∃ r, s.ledger.operation? k = some r)
    (hopen : (Stage.observing p).Open disp.store s.ledger k handle)
    (hcall : disp.call k p = some tx) (htx : tx s = .ok (p', s')) :
    Definitive s'.ledger k ∨ (Stage.observing p').Open disp.store s'.ledger k handle := by
  cases commits_of_call hcall htx with
  | saveHandle =>
    rcases hopen with ⟨⟨-, hreads⟩, -⟩ | hno | hno
    · exact .inr (.inr (.inl hreads))
    · exact absurd hno id
    · exact absurd hno id
  | get hget =>
    rcases hopen with ⟨hno, -⟩ | hreads | hno
    · exact absurd hno id
    · obtain ⟨r, _, hrow, hsnap⟩ := Tx.bind_eq_ok.mp hget
      obtain ⟨hr, rfl⟩ := row_eq_ok.mp hrow
      obtain ⟨rfl, rfl⟩ := snapshot_eq_ok hsnap
      by_cases hfinal : r.state.Final
      · exact .inl ⟨r, hr, hfinal⟩
      · exact .inr (.inr (.inr ((hreads _).2 hfinal)))
    · exact absurd hno id
  | @putArtifact content digest contentType next d hput =>
    rcases hopen with ⟨hno, -⟩ | hno | ⟨-, hgood⟩
    · exact absurd hno id
    · exact absurd hno id
    · obtain ⟨hsize, -, row, now, -, -, -, -, -, -, -, hquota, -, -⟩ := putArtifact_eq_ok hput
      rcases hgood with hlarge | ⟨-, hfull | hnext⟩
      · exact absurd hlarge (not_lt_of_ge hsize)
      · exact absurd hfull (not_lt_of_ge (le_trans (Nat.le_add_left _ _) hquota))
      · exact .inr (.inr (.inr (hnext d)))
  | finish hfinish =>
    rcases hopen with ⟨hno, -⟩ | hno | ⟨hstate, rfl, -⟩
    · exact absurd hno id
    · exact absurd hno id
    · exact .inl (definitive_of_finish hpresent hstate hfinish)

theorem terminal_of_final {s : OpState} (h : s.Final) : s.Terminal := by
  revert h
  cases s <;> decide

/-- A call of an open observation is refused with an error on both lists. -/
theorem open_of_refuse {p : Prog} {tx : StoreTx Prog} {s : Session} {e : Failure}
    (hreach : Reachable disp.store s.ledger) (hpresent : ∃ r, s.ledger.operation? k = some r)
    (hhandle : handle ≠ "" ∧ handle.length ≤ 512)
    (hbinds : Storable handle ∧ disp.store.encodable handle = true)
    (hopen : (Stage.observing p).Open disp.store s.ledger k handle)
    (hcall : disp.call k p = some tx) (htx : tx s = .error e)
    (he : e = .database → ∃ h next, p = .saveHandle h next ∧ ¬ Storable h) :
    e.Listed := by
  obtain ⟨r, hr⟩ := hpresent
  have hdated := dated_of_reachable hreach hr
  cases breaks_of_call hcall htx with
  | saveHandle herr =>
    rcases hopen with ⟨⟨rfl, -⟩, hagrees⟩ | hno | hno
    · obtain ⟨h, next', heq, hnot⟩ :=
        he (saveHandle_eq_error hr hdated hhandle hbinds (hagrees r hr) herr).1
      obtain ⟨rfl, -⟩ := Prog.saveHandle.inj heq
      exact absurd hbinds.1 hnot
    · exact absurd hno id
    · exact absurd hno id
  | get herr => exact absurd herr (get_ne_error hr hdated)
  | putArtifact herr =>
    rcases hopen with ⟨hno, -⟩ | hno | ⟨hdigest, hgood⟩
    · exact absurd hno id
    · exact absurd hno id
    · rcases putArtifact_eq_error hdigest herr with ⟨-, rfl⟩ | ⟨hsize, hbad, -⟩ |
        ⟨-, -, -, rfl⟩ | ⟨-, -, -, rfl⟩
      · show ErrorCode.artifactTooLarge ∈ artifactCodes.dropLast
        decide
      · rcases hgood with hlarge | ⟨hvalid, -⟩
        · exact absurd hlarge (not_lt_of_ge hsize)
        · exact absurd hvalid hbad
      · show ErrorCode.artifactQuota ∈ artifactCodes.dropLast
        decide
      · obtain ⟨h, next', heq, -⟩ := he rfl
        cases heq
  | finish herr =>
    rcases hopen with ⟨hno, -⟩ | hno | ⟨hstate, -, hencodes⟩
    · exact absurd hno id
    · exact absurd hno id
    · obtain ⟨h, next', heq, -⟩ :=
        he (finish_eq_error hr hdated (terminal_of_final hstate) hencodes herr).1
      cases heq

/-- The handlers fail the operation on an error that is on both lists. -/
theorem handler_of_listed {result : TaskResult} {e : Failure}
    (hjob : job = .submit ∨ job = .reconcile result.taskId) (he : e.Listed) :
    ∃ code message, job.handler true e = .finish .failed none code message .done := by
  cases e with
  | database | other => exact absurd he id
  | broker b =>
    have hmem : b.code ∈ artifactCodes.dropLast := he
    rcases hjob with rfl | rfl
    · refine ⟨some b.code, some b.message, if_pos ⟨rfl, ?_⟩⟩
      exact List.mem_of_mem_dropLast hmem
    · exact ⟨some b.code, some b.message, if_pos hmem⟩

/-- **One step of a handling** keeps the invariant. -/
theorem Handling.handled {result : TaskResult} {y y' : Ledger × Stage}
    (hjob : job = .submit ∨ job = .reconcile result.taskId)
    (hhandle : handle ≠ "" ∧ handle.length ≤ 512)
    (hbinds : Storable handle ∧ disp.store.encodable handle = true)
    (hinv : Handled disp k handle y)
    (h : Handling disp k job handle y y') : Handled disp k handle y' := by
  obtain ⟨L, x⟩ := y
  obtain ⟨L', x'⟩ := y'
  obtain ⟨hreach, hpresent, hsettled⟩ := hinv
  have hkeep : Reachable disp.store L' ∧ (∃ r, L'.operation? k = some r) ∧
      (Definitive L k → Definitive L' k) := by
    rcases h.storeStep with rfl | hstep
    · exact ⟨hreach, hpresent, id⟩
    · obtain ⟨hpresent', hfinal⟩ := hstep.operation (k := k) hreach
      exact ⟨hreach.tail hstep, hpresent' hpresent, hfinal⟩
  refine ⟨hkeep.1, hkeep.2.1, ?_⟩
  rcases hsettled with hfinal | hopen
  · exact .inl (hkeep.2.2 hfinal)
  cases h with
  | other h hagrees =>
    right
    cases x with
    | observing p => exact hopen.imp_left fun hbegins => ⟨hbegins.1, hagrees⟩
    | settling p => exact hopen
    | ended => exact hopen
  | @commit _ p p' tx clock uuids s' hcall htx =>
    exact open_of_commit (s := ⟨L, clock, uuids⟩) hpresent hopen hcall htx
  | @refuse _ p tx clock uuids e hcall htx he =>
    exact .inr (.inr (.inr (open_of_refuse (s := ⟨L, clock, uuids⟩) hreach hpresent hhandle hbinds
      hopen hcall htx he)))
  | observed =>
    rcases hopen with ⟨hno, -⟩ | hno | hno <;> exact absurd hno id
  | handle =>
    rcases hopen with ⟨hno, -⟩ | hno | hlisted
    · exact absurd hno id
    · exact absurd hno id
    · exact .inr (handler_of_listed hjob hlisted)
  | @settle _ p p' tx clock uuids s' hcall htx =>
    obtain ⟨code, message, rfl⟩ := hopen
    cases commits_of_call hcall htx with
    | finish hfinish =>
      exact .inl (definitive_of_finish (s := ⟨L, clock, uuids⟩) hpresent (by decide) hfinish)
  | @abort _ p tx clock uuids e hcall htx he =>
    obtain ⟨code, message, rfl⟩ := hopen
    obtain ⟨r, hr⟩ := hpresent
    cases breaks_of_call hcall htx with
    | finish herr =>
      exact absurd (finish_eq_error (s := ⟨L, clock, uuids⟩) hr (dated_of_reachable hreach hr)
        (by decide) (by simp) herr).1 he
  | finish hcall =>
    obtain ⟨code, message, rfl⟩ := hopen
    cases hcall

end

/-- The operation is not definitive, and there is a number for its next event. -/
structure Unsettled (L : Ledger) (k : Key) : Prop where
  row : ∃ r, L.operation? k = some r ∧ ¬ r.state.Final ∧ r.Dated
  room : L.sequence k.1 + 1 < bigintLimit

section

variable {disp : BrokerDispatcher} {k : Key} {job : Job} {handle : String} {L : Ledger}

/-- The operation can be read. -/
theorem exists_get (h : Unsettled L k) : ∃ current s',
    BrokerStore.get k ⟨L, fun _ => 0, fun _ => 0⟩ = .ok (current, s') ∧ ¬ current.state.Final ∧
      s'.ledger = L := by
  obtain ⟨r, hr, hfinal, hdated⟩ := h.row
  obtain ⟨current, s', hget⟩ := Tx.exists_ok (m := BrokerStore.get k)
    (s := ⟨L, fun _ => 0, fun _ => 0⟩) fun _ => get_ne_error hr hdated
  refine ⟨current, s', hget, ?_⟩
  obtain ⟨r', _, hrow, hsnap⟩ := Tx.bind_eq_ok.mp hget
  obtain ⟨hr', rfl⟩ := row_eq_ok.mp hrow
  obtain rfl := Option.some.inj (hr.symm.trans hr')
  obtain ⟨rfl, rfl⟩ := snapshot_eq_ok hsnap
  exact ⟨hfinal, rfl⟩

/-- The error a part raises is on both lists. -/
theorem listed_of_part {part : Json} {e : Failure} (h : disp.partAction (some part) = .fail e) :
    e.Listed := by
  have hlisted : ∀ {code message status}, code ∈ artifactCodes.dropLast →
      (brokerError code message status).Listed := id
  rw [partAction] at h
  split_ifs at h
  · cases h
    exact hlisted (by decide)
  · split at h
    · cases h
    · split_ifs at h
      · cases h
        exact hlisted (by decide)
      · split at h
        · cases h
          exact hlisted (by decide)
        · cases h
    · cases h
      exact hlisted (by decide)

/-- So it is on both lists unless the parts cannot be iterated over. -/
theorem listed_of_partAction {part : Option Json} {e : Failure}
    (h : disp.partAction part = .fail e) :
    e = .other ∨ e.Listed := by
  cases part with
  | none =>
    cases h
    exact .inl rfl
  | some part => exact .inr (listed_of_part h)

end

/-- A request of one byte. -/
def blankRequest : OperationRequest := ⟨1, 2, "x", []⟩

section

variable (store : BrokerStore)

/-- The row of the request. -/
def blankRow : OperationRow :=
  acceptedRow "laptop" blankRequest (store.sha256 (canonicalBytes blankRequest.toJson)) 0

/-- The expiry of an event at the first instant. -/
def blankExpiry : Time :=
  0 + seconds (min store.settings.eventTtlSeconds store.settings.resultTtlSeconds)

/-- The ledger when the request has been accepted. -/
def acceptedLedger : Ledger :=
  (insertOperation (Ledger.empty.withDevice "laptop") (blankRow store) blankRequest
    (0 + seconds store.settings.payloadTtlSeconds)).appendEvent "laptop" 1
    (render (blankRow store) 0 0) (blankExpiry store)

/-- The ledger when it has been claimed. -/
def claimedLedger : Ledger :=
  ((Edit.claim 0 0).ledger ("laptop", 1) (acceptedLedger store)).appendEvent "laptop" 2
    (render (claimedRow (blankRow store) 0) 0 0) (blankExpiry store)

theorem serve_blankRequest : store.serve "laptop" (.accept blankRequest)
    ⟨Ledger.empty, fun _ => 0, fun _ => 0⟩ =
      .ok (.snapshot (render (blankRow store) 0 0),
        ⟨acceptedLedger store, fun _ => 0, fun _ => 0⟩) := by
  have hread : ∀ u : Session, readLedger u = .ok (u.ledger, u) := fun _ => rfl
  have hclock : ∀ u : Session, utcnow u = .ok (u.clock 0, u.tick) := fun _ => rfl
  have hwrite : ∀ (f : Ledger → Ledger) (u : Session),
      writeLedger f u = .ok ((), { u with ledger := f u.ledger }) := fun _ _ => rfl
  have hpending : ¬ store.settings.maxPendingPerDevice ≤
      pending (Ledger.empty.withDevice "laptop") "laptop" :=
    Nat.not_le_of_lt store.settings.maxPendingPerDevice_pos
  have hbytes : ¬ store.settings.maxArtifactBytes < utf8Length blankRequest.prompt.toList + 0 :=
    not_lt_of_ge store.settings.maxArtifactBytes_pos
  have haccept : store.accept "laptop" blankRequest ⟨Ledger.empty, fun _ => 0, fun _ => 0⟩ =
      .ok ((render (blankRow store) 0 0, true),
        ⟨acceptedLedger store, fun _ => 0, fun _ => 0⟩) := by
    rw [accept, Tx.bind_of_ok (device_ok _ _), Tx.bind_of_ok (hread _)]
    simp only [show (Ledger.empty.withDevice "laptop").operation?
      ("laptop", blankRequest.operationId) = none from rfl]
    rw [Tx.bind_of_ok (hread _), Tx.bind_of_ok (Tx.refuse_of_not hpending),
      Tx.bind_of_ok (Tx.refuse_of_not (by decide)),
      Tx.bind_of_ok
        (show store.inputBytes "laptop" blankRequest.artifactIds _ = .ok (0, _) from rfl),
      Tx.bind_of_ok (Tx.refuse_of_not hbytes), Tx.bind_of_ok (hclock _), Tx.bind_of_ok (hwrite _ _)]
    rfl
  rw [BrokerStore.serve, Tx.bind_of_ok haccept]
  rfl

theorem claim_acceptedLedger : store.claim ⟨acceptedLedger store, fun _ => 0, fun _ => 0⟩ =
    .ok (some ⟨"laptop", blankRequest, []⟩, ⟨claimedLedger store, fun _ => 0, fun _ => 0⟩) := by
  have hread : ∀ u : Session, readLedger u = .ok (u.ledger, u) := fun _ => rfl
  have hclock : ∀ u : Session, utcnow u = .ok (u.clock 0, u.tick) := fun _ => rfl
  have hexpires : (0 : Time) < 0 + seconds store.settings.payloadTtlSeconds := by
    have hpos := store.settings.payloadTtl_pos
    show 0 < 0 + seconds _
    unfold seconds
    omega
  have hpay : (Table.lookup PayloadRow.key (acceptedLedger store).payloads ("laptop", 1)).filter
      (fun p => (0 : Time) < p.expiresAt) =
        some ⟨"laptop", 1, blankRequest, 0 + seconds store.settings.payloadTtlSeconds⟩ := by
    show Option.filter _ (some _) = _
    rw [Option.filter_some, if_pos (decide_eq_true hexpires)]
    rfl
  have hstate : ¬ (blankRow store).state ≠ .accepted := not_not.mpr rfl
  have hrow : ∀ u : Session, u.ledger = (acceptedLedger store).withDevice "laptop" →
      row ("laptop", 1) u = .ok (blankRow store, u) := by
    intro u hu
    refine row_eq_ok.mpr ⟨?_, rfl⟩
    rw [hu]
    rfl
  rw [claim, Tx.bind_of_ok (hread _)]
  simp only [show candidate (acceptedLedger store) = some (blankRow store) from rfl,
    show (blankRow store).key = ("laptop", 1) from rfl]
  rw [Tx.bind_of_ok (device_ok _ _), Tx.bind_of_ok (hrow _ rfl), if_neg hstate,
    Tx.bind_of_ok (hclock _), Tx.bind_of_ok (hread _)]
  generalize hfound : Option.filter _ _ = found
  obtain rfl : some _ = found := hpay.symm.trans hfound
  rfl

end

/-- The broker with the one task that submits the request. -/
def soleTask (L : Ledger) (phase : Phase) (rpcs : List Rpc) : Process :=
  ⟨L, [⟨("laptop", 1), .submit, phase⟩], [("laptop", 1)], [], none, rpcs, [("laptop", 1)]⟩

section

variable (disp : BrokerDispatcher)

theorem step_accept : Process.Step disp Process.initial
    (.serve "laptop" (.accept blankRequest) (.snapshot (render (blankRow disp.store) 0 0)))
    { Process.initial with ledger := acceptedLedger disp.store } :=
  Process.Step.serve (B := Process.initial) (serve_blankRequest disp.store)

theorem step_claim : Process.Step disp
    { Process.initial with ledger := acceptedLedger disp.store } (.claimed ("laptop", 1))
    (soleTask (claimedLedger disp.store) .created []) :=
  @Process.Step.claim disp { Process.initial with ledger := acceptedLedger disp.store } true _ _ _ _
    (fun _ => rfl) disp.store.settings.maxConcurrentStreams_pos (claim_acceptedLedger disp.store)

theorem step_start (L : Ledger) : Process.Step disp (soleTask L .created []) .silent
    (soleTask L .waiting [.sendStreamingMessage ("laptop", 1)]) :=
  @Process.Step.task disp (soleTask L .created []) [] [] _ _ _ _ _ _ rfl (.start rfl)

theorem step_receive (L : Ledger) {result : TaskResult} (hid : result.taskId ≠ "") :
    Process.Step disp (soleTask L .waiting [.sendStreamingMessage ("laptop", 1)]) .silent
      (soleTask L (.queued result) [.sendStreamingMessage ("laptop", 1)]) :=
  @Process.Step.task disp (soleTask L .waiting [.sendStreamingMessage ("laptop", 1)]) [] [] _ _ _ _
    _ _ rfl (.receive rfl (decide_eq_true hid))

theorem step_lock (L : Ledger) {result : TaskResult} : Process.Step disp
    (soleTask L (.queued result) [.sendStreamingMessage ("laptop", 1)]) .silent
    (soleTask L (.observing (settles result.state) (disp.observe result))
      [.sendStreamingMessage ("laptop", 1)]) :=
  @Process.Step.task disp (soleTask L (.queued result) [.sendStreamingMessage ("laptop", 1)]) [] []
    _ _ _ _ _ _ rfl (.lock rfl fun _ ht => absurd ht List.not_mem_nil)

end

/-- The broker with the one task observing. -/
def observer (L : Ledger) (p : Prog) : Process :=
  soleTask L (.observing true p) [.sendStreamingMessage ("laptop", 1)]

/-- A call of the one task. -/
theorem step_commit (disp : BrokerDispatcher) {L : Ledger} {p p' : Prog} {tx : StoreTx Prog}
    {clock : ℕ → Time} {uuids : ℕ → Uuid} {s' : Session}
    (hcall : disp.call ("laptop", 1) p = some tx) (htx : tx ⟨L, clock, uuids⟩ = .ok (p', s')) :
    Process.Step disp (observer L p) (.call ("laptop", 1) p) (observer s'.ledger p') :=
  @Process.Step.task disp (observer L p) [] [] _ _ (some p) _ _ _ rfl
    (.commit rfl hcall htx)

/-- The ledger when the handle of a first result has been saved. -/
def handledLedger (store : BrokerStore) (handle : String) : Ledger :=
  (((claimedLedger store).withDevice "laptop").updateOperation ("laptop", 1)
    fun r => handledRow r handle 0).appendEvent "laptop" 3
      (render (handledRow (claimedRow (blankRow store) 0) handle 0) 0 0) (blankExpiry store)

/-- `save_handle` on it comes to the statement the handle is bound to. -/
theorem saveHandle_binds (store : BrokerStore) {handle : String} (hid : handle ≠ "")
    (hlength : handle.length ≤ 512) :
    store.saveHandle ("laptop", 1) handle ⟨claimedLedger store, fun _ => 0, fun _ => 0⟩ =
      (do
        Tx.refuse (¬ Storable handle) .database
        Tx.refuse (store.encodable handle = false) .other
        writeLedger fun L => L.updateOperation ("laptop", 1) fun r => handledRow r handle 0
        let _ ← store.event ("laptop", 1) : StoreTx Unit)
      ⟨(claimedLedger store).withDevice "laptop", fun _ => 0, fun _ => 0⟩ := by
  have hvalid : ¬ (handle = "" ∨ 512 < handle.length) := by
    rintro (h | h)
    · exact hid h
    · exact absurd hlength (not_le_of_gt h)
  have hrow : ∀ u : Session, u.ledger = (claimedLedger store).withDevice "laptop" →
      row ("laptop", 1) u = .ok (claimedRow (blankRow store) 0, u) := by
    intro u hu
    refine row_eq_ok.mpr ⟨?_, rfl⟩
    rw [hu]
    rfl
  rw [saveHandle, Tx.bind_of_ok (Tx.refuse_of_not hvalid), Tx.bind_of_ok (device_ok _ _),
    Tx.bind_of_ok (hrow _ rfl)]
  rfl

theorem saveHandle_claimedLedger (store : BrokerStore) {handle : String} (hid : handle ≠ "")
    (hlength : handle.length ≤ 512) (hstorable : Storable handle)
    (hencodable : store.encodable handle = true) :
    store.saveHandle ("laptop", 1) handle ⟨claimedLedger store, fun _ => 0, fun _ => 0⟩ =
      .ok ((), ⟨handledLedger store handle, fun _ => 0, fun _ => 0⟩) := by
  rw [saveHandle_binds store hid hlength, Tx.bind_of_ok (Tx.refuse_of_not (not_not.mpr hstorable)),
    Tx.bind_of_ok (Tx.refuse_of_not (by simp [hencodable]))]
  rfl

theorem unsettled_handledLedger (store : BrokerStore) (handle : String) :
    Unsettled (handledLedger store handle) ("laptop", 1) := by
  refine ⟨⟨_, rfl, ?_, fun hsome => ?_⟩, ?_⟩
  · show ¬ OpState.running.Final
    decide
  · cases hsome
  · show 3 + 1 < bigintLimit
    norm_num [bigintLimit]

/-- The last call of an observation, once the artifacts are stored. -/
def ending (result : TaskResult) (descriptors : List Descriptor) : Prog :=
  match OpState.ofText? result.state with
  | some state => .finish state (some (.output result.text descriptors)) none none .done
  | none => .raise .other

/-- The observation of a terminal result that is no refusal. -/
theorem observe_of_terminal {disp : BrokerDispatcher} {result : TaskResult}
    (hterminal : settles result.state = true)
    (hrejected : ¬ (result.state = "rejected" ∨ result.state = "input_required")) :
    ∃ next, disp.observe result = .saveHandle result.taskId (.get next) ∧
      ∀ current : Snapshot, ¬ current.state.Final → next current =
        disp.storeParts (result.artifacts.flatMap partsOf) [] (ending result) := by
  refine ⟨_, by rw [observe, if_neg (by simp [hterminal])], fun current hfinal => ?_⟩
  exact (if_neg hfinal).trans (if_neg hrejected)

end HermesGateway.Broker
