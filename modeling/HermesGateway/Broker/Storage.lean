import HermesGateway.Broker.Deposits
import HermesGateway.Broker.Settlement

/-!
# Artifacts stored for an operation

An observation stores the raw parts of a result one by one, each in a transaction of its own, and
then records a result that refers to them. What is stored for an operation and what its result
refers to is the same unless an observation is cut off in between: by a part that raises, a refusal
of the store, a deadline, a shutdown or a crash, or because the operation is settled by someone else
or the result turns out too large to be recorded. Nothing takes the stored rows back then.

Two ghosts are kept beside the broker: what was put into the table of artifacts, and the result each
operation has, or had before it expired.

## Main definitions

* `Audit`, `Audit.Step` — the broker with the two ghosts
* `Uncut` — the step cuts no observation off
* `Audit.Balanced` — what is stored for an operation is what its result refers to

## Main results

* `Audit.Step.inv` — one step that cuts nothing off keeps the invariant
* `artifacts_balanced` — in a run of such steps everything stays balanced, and the table of
  artifacts holds nothing else
* `artifacts_lost` — a run in which it does not
-/

namespace HermesGateway.Broker

open BrokerStore BrokerDispatcher

/-! ### The ghosts -/

/-- The descriptors of a result, if there is one. -/
def descriptorsOf : Option ResultBody → List Descriptor
  | some (.output _ artifacts) => artifacts
  | some (.errorDetails _) | none => []

/-- The broker, what was put into the table of artifacts, in the order in which it was, and the
result each operation has or had. -/
structure Audit where
  process : Process
  deposits : List Deposit
  results : Key → Option ResultBody

namespace Audit

/-- The broker before its first request. -/
def initial : Audit := ⟨Process.initial, [], fun _ => none⟩

/-- The ghosts after a step of the broker. -/
def after (A : Audit) (act : Act) (B' : Process) : Audit where
  process := B'
  deposits := Deposit.after A.deposits act B'.ledger.artifacts
  results k := ((B'.ledger.operation? k).bind OperationRow.result).or (A.results k)

/-- A step of the broker. -/
def Step (disp : BrokerDispatcher) (A : Audit) (act : Act) (A' : Audit) : Prop :=
  Process.Step disp A.process act A'.process ∧ A' = A.after act A'.process

/-- The artifacts stored for an operation. -/
def storedFor (A : Audit) (k : Key) : List Descriptor := Broker.storedFor A.deposits k

/-- The artifacts the result of an operation refers to. -/
def referenced (A : Audit) (k : Key) : List Descriptor := descriptorsOf (A.results k)

/-- Artifacts are stored for the operation that its result does not refer to. -/
def Loose (A : Audit) (k : Key) : Prop := A.storedFor k ≠ A.referenced k

/-- Unless the operation is being observed, what is stored for it is what its result refers to. -/
def Balanced (A : Audit) (k : Key) : Prop :=
  (∀ t ∈ A.process.tasks, t.key = k → ¬ t.Observing) → A.storedFor k = A.referenced k

end Audit

/-! ### Steps that cut nothing off -/

/-- The coroutine waits for `put_artifact`. -/
def Prog.IsPut : Prog → Prop
  | .putArtifact _ _ _ _ => True
  | _ => False

/-- What the call of an observation needs, so that the artifacts it has stored are recorded: no
part after one that is stored raises, and a result can be recorded. -/
def Prog.Proceeds (settings : BrokerSettings) (L : Ledger) (k : Key) : Prog → Prop
  | .putArtifact _ _ _ next => ∀ d e, next d ≠ .raise e
  | .finish _ result _ _ _ =>
    (∀ body ∈ result, utf8Length body.toJson.canonical ≤ settings.maxResultBytes) ∧
      ∀ r, L.operation? k = some r → ¬ r.state.Final
  | _ => True

/-- The step cuts no observation off. -/
structure Uncut (disp : BrokerDispatcher) (A : Audit) (act : Act) (A' : Audit) : Prop where
  /-- An observation that has stored artifacts ends, or changes, only by a call that proceeds. -/
  kept : ∀ t ∈ A.process.tasks, ∀ terminal p, t.phase = .observing terminal p → A.Loose t.key →
    t ∉ A'.process.tasks →
      act = .call t.key p ∧ p.Proceeds disp.store.settings A.process.ledger t.key
  /-- An artifact is stored for a task that is still there, and no part after it raises. -/
  stores : ∀ k p, act = .call k p → p.IsPut →
    A'.process.orphans = A.process.orphans ∧ p.Proceeds disp.store.settings A.process.ledger k

/-! ### Coroutines -/

/-- Refers to what it has stored: `ds` are the descriptors so far. -/
def Prog.Carries : List Descriptor → Prog → Prop
  | ds, .done => ds = []
  | _, .raise _ => True
  | ds, .saveHandle _ next => ds = [] ∧ next.Carries []
  | ds, .get next => ds = [] ∧ ∀ s, (next s).Carries []
  | ds, .putArtifact _ _ _ next => ∀ d, (next d).Carries (ds ++ [d])
  | ds, .finish _ result _ _ next => descriptorsOf result = ds ∧ next = .done

/-- Stores nothing, and records results without artifacts only. -/
def Prog.Barren : Prog → Prop
  | .done | .raise _ => True
  | .saveHandle _ next => next.Barren
  | .get next => ∀ s, (next s).Barren
  | .putArtifact _ _ _ _ => False
  | .finish _ result _ _ next => descriptorsOf result = [] ∧ next.Barren

/-- The next call does not record artifacts. -/
def Prog.Harmless : Prog → Prop
  | .finish _ result _ _ _ => descriptorsOf result = []
  | _ => True

theorem Prog.Barren.harmless {p : Prog} (h : p.Barren) : p.Harmless := by
  cases p with
  | finish => exact h.1
  | _ => trivial

theorem Prog.Barren.not_isPut {p : Prog} (h : p.Barren) : ¬ p.IsPut := by
  cases p with
  | putArtifact => exact h.elim
  | _ => exact id

theorem storeParts_carries (disp : BrokerDispatcher) {next : List Descriptor → Prog}
    (hnext : ∀ ds, (next ds).Carries ds) (parts : List (Option Json)) :
    ∀ ds, (disp.storeParts parts ds next).Carries ds := by
  induction parts with
  | nil => exact hnext
  | cons part rest ih =>
    intro ds
    rw [storeParts]
    cases disp.partAction part with
    | skip => exact ih ds
    | fail e => exact trivial
    | store content contentType => exact fun d => ih (ds ++ [d])

/-- An observation refers to what it stores. -/
theorem observe_carries (disp : BrokerDispatcher) (result : TaskResult) :
    (disp.observe result).Carries [] := by
  refine ⟨rfl, ?_⟩
  by_cases hterminal : settles result.state = false
  · rw [if_pos hterminal]
    exact rfl
  rw [if_neg hterminal]
  refine ⟨rfl, fun current => ?_⟩
  beta_reduce
  by_cases hfinal : current.state.Final
  · rw [if_pos hfinal]
    exact rfl
  rw [if_neg hfinal]
  by_cases hturned : result.state = "rejected" ∨ result.state = "input_required"
  · rw [if_pos hturned]
    exact ⟨rfl, rfl⟩
  · rw [if_neg hturned]
    refine storeParts_carries disp (fun ds => ?_) _ []
    cases OpState.ofText? result.state with
    | some state => exact ⟨rfl, rfl⟩
    | none => exact trivial

theorem unknown_barren : unknown.Barren := ⟨rfl, trivial⟩

theorem sweep_barren : sweep.Barren := by
  intro s
  dsimp only
  split_ifs
  · exact unknown_barren
  · exact trivial

/-- The exception handlers store nothing. -/
theorem handler_barren (job : Job) (terminal : Bool) (e : Failure) :
    (job.handler terminal e).Barren := by
  cases job with
  | submit =>
    cases e with
    | database => exact trivial
    | other => exact unknown_barren
    | broker b =>
      rw [Job.handler]
      split_ifs
      · exact ⟨rfl, trivial⟩
      · exact unknown_barren
  | reconcile handle =>
    cases e with
    | database | other => exact trivial
    | broker b =>
      rw [Job.handler]
      split_ifs
      · exact ⟨rfl, trivial⟩
      · exact trivial
  | cancel handle => exact trivial

/-- What is left after a call stores nothing either. -/
theorem Prog.Barren.next {disp : BrokerDispatcher} {k : Key} {p p' : Prog} {tx : StoreTx Prog}
    {s s' : Session} (h : p.Barren) (hcall : disp.call k p = some tx) (htx : tx s = .ok (p', s')) :
    p'.Barren := by
  cases commits_of_call hcall htx with
  | saveHandle => exact h
  | @get _ snap => exact h snap
  | putArtifact => exact h.elim
  | finish => exact h.2

/-! ### What a step does to the ghosts -/

/-- The ghost of an operation's result agrees with its row, and there is none before the operation
is definitive. -/
def Traced (o : Option OperationRow) (result : Option ResultBody) : Prop :=
  match o with
  | none => result = none
  | some r => (∀ body, r.result = some body → result = some body) ∧
      (¬ r.state.Final → result = none)

namespace Audit

variable {disp : BrokerDispatcher} {A : Audit} {B' : Process} {act : Act} {k : Key}

theorem results_after_eq (A : Audit) (act : Act) (B' : Process) (k : Key) :
    (A.after act B').results k =
      ((B'.ledger.operation? k).bind OperationRow.result).or (A.results k) := rfl

/-- `put_artifact` stores for its own operation, and nothing else stores. -/
theorem storedFor_after (hnot : ∀ p, act = .call k p → ¬ p.IsPut) :
    (A.after act B').storedFor k = A.storedFor k := by
  refine Broker.storedFor_after fun d hact => ?_
  obtain ⟨-, content, digest, contentType, next, rfl⟩ := Act.put_of_depositor hact
  exact hnot (.putArtifact content digest contentType next) rfl trivial

/-- A call of `put_artifact` stores the artifact whose descriptor it returns. -/
theorem storedFor_put {content : ByteArray} {digest contentType : String}
    {next : Descriptor → Prog} {d : Descriptor} {s s' : Session}
    (hput : disp.store.putArtifact k.1 content digest contentType s = .ok (d, s'))
    (hledger : B'.ledger = s'.ledger) :
    (A.after (.call k (.putArtifact content digest contentType next)) B').storedFor k =
      A.storedFor k ++ [d] := by
  obtain ⟨-, -, row, now, -, -, -, -, -, -, rfl, -, -, hledger'⟩ := putArtifact_eq_ok hput
  have hact : (Act.call k (.putArtifact content digest contentType next)).depositor =
      some (k.1, some k) := rfl
  rw [storedFor, after, hledger, hledger']
  exact Broker.storedFor_put hact

/-- A step that records no result for the operation leaves its ghost as it is. -/
theorem results_after (hinv : A.process.Inv)
    (htraced : Traced (A.process.ledger.operation? k) (A.results k))
    (hstep : Process.Step disp A.process act B')
    (hnot : ∀ state body code message next,
      act ≠ .call k (.finish state (some body) code message next)) :
    (A.after act B').results k = A.results k ∧
      Traced (B'.ledger.operation? k) (A.results k) := by
  obtain ⟨ks, hauthored⟩ := hstep.authored hinv.keyed
  have hold : ∀ r' body, B'.ledger.operation? k = some r' → r'.result = some body →
      A.results k = some body := by
    intro r' body hr' hbody
    obtain ⟨r, hr, hbody⟩ := result_of_authored hauthored hr' hbody fun _ _ _ _ => hnot _ _ _ _ _
    rw [hr] at htraced
    exact htraced.1 body hbody
  constructor
  · rw [results_after_eq]
    cases hr' : B'.ledger.operation? k with
    | none => rfl
    | some r' =>
      cases hbody : r'.result with
      | none => simp [hbody]
      | some body => simp [hbody, hold r' body hr' hbody]
  · cases hr : A.process.ledger.operation? k with
    | none =>
      rw [hr] at htraced
      cases hr' : B'.ledger.operation? k with
      | none => exact htraced
      | some r' => exact ⟨fun body => hold r' body hr', fun _ => htraced⟩
    | some r =>
      rw [hr] at htraced
      obtain ⟨r', hr', hdesc⟩ := descends_of_trace hauthored hr
      rw [hr']
      refine ⟨fun body => hold r' body hr', fun hfinal => htraced.2 fun hfinal' => hfinal ?_⟩
      rw [hdesc.settled hfinal']
      exact hfinal'

/-- A call of `finish` records its result, if it fits and the operation is not definitive, and
otherwise leaves the ghost as it is. -/
theorem results_finish {state : OpState} {body : ResultBody} {code : Option ErrorCode}
    {message : Option String} {next : Prog} {r : OperationRow}
    (hinv : A.process.Inv) (hr : A.process.ledger.operation? k = some r)
    (htraced : Traced (some r) (A.results k))
    (hstep :
      Process.Step disp A.process (.call k (.finish state (some body) code message next)) B') :
    Traced (B'.ledger.operation? k)
        ((A.after (.call k (.finish state (some body) code message next)) B').results k) ∧
      ((A.after (.call k (.finish state (some body) code message next)) B').results k =
          A.results k ∧
        (r.state.Final ∨
          disp.store.settings.maxResultBytes < utf8Length body.toJson.canonical) ∨
        (A.after (.call k (.finish state (some body) code message next)) B').results k =
            some body ∧ A.results k = none) := by
  obtain ⟨hawaits, tx, clock, uuids, p', s', hcall, htx, hledger⟩ := hstep.of_call
  obtain rfl := Option.some.inj hcall
  obtain ⟨snap, hfinish, -⟩ := Tx.map_eq_ok.mp htx
  have hterminal : state.Terminal := by
    obtain ⟨_, _, hpass, -⟩ := Tx.bind_eq_ok.mp hfinish
    exact not_not.mp (Tx.refuse_eq_ok.mp hpass).1
  obtain ⟨hkept, hedited⟩ := finish_eq_ok (s := ⟨A.process.ledger, clock, uuids⟩) hr hfinish
  rw [results_after_eq, hledger]
  by_cases hfinal : r.state.Final
  · rw [hkept hfinal]
    have hsame : ((some r).bind OperationRow.result).or (A.results k) = A.results k := by
      cases hbody : r.result with
      | none => simp [hbody]
      | some body => simp [hbody, htraced.1 body hbody]
    rw [hsame]
    exact ⟨htraced, .inl ⟨rfl, .inl hfinal⟩⟩
  · have hnone := htraced.2 hfinal
    obtain ⟨expires, fresh, now, ⟨hrow, -⟩ | ⟨hrow, body', hbody', hlarge⟩⟩ := hedited hfinal
    · rw [hrow]
      refine ⟨⟨fun body' hbody' => ?_, fun hlive => ?_⟩, .inr ⟨rfl, hnone⟩⟩
      · exact hbody'
      · exact absurd (hinv.final hawaits hterminal) hlive
    · obtain rfl := Option.some.inj hbody'
      rw [hrow]
      refine ⟨⟨fun body' hbody' => ?_, fun hlive => ?_⟩, .inl ⟨rfl, .inr hlarge⟩⟩
      · cases hbody'
      · exact absurd (show OpState.failed.Final by decide) hlive

/-- The ghost of every operation keeps agreeing with its row. -/
theorem traced_after (hinv : A.process.Inv)
    (htraced : ∀ k, Traced (A.process.ledger.operation? k) (A.results k))
    (hstep : Process.Step disp A.process act B') (k : Key) :
    Traced (B'.ledger.operation? k) ((A.after act B').results k) := by
  by_cases hrecords : ∃ state body code message next,
      act = .call k (.finish state (some body) code message next)
  · obtain ⟨state, body, code, message, next, rfl⟩ := hrecords
    obtain ⟨r, hr⟩ := hinv.present hstep.of_call.1
    exact (results_finish hinv hr (hr ▸ htraced k) hstep).1
  · have hnot : ∀ state body code message next,
        act ≠ .call k (.finish state (some body) code message next) :=
      fun state body code message next hact => hrecords ⟨state, body, code, message, next, hact⟩
    obtain ⟨hsame, htraced'⟩ := results_after hinv (htraced k) hstep hnot
    rw [hsame]
    exact htraced'

/-- A step that records no artifact for the operation leaves what its result refers to. -/
theorem referenced_after (hinv : A.process.Inv)
    (htraced : ∀ k, Traced (A.process.ledger.operation? k) (A.results k))
    (hstep : Process.Step disp A.process act B')
    (hharmless : ∀ p, act = .call k p → p.Harmless) :
    (A.after act B').referenced k = A.referenced k := by
  by_cases hrecords : ∃ state body code message next,
      act = .call k (.finish state (some body) code message next)
  · obtain ⟨state, body, code, message, next, rfl⟩ := hrecords
    have hempty : descriptorsOf (some body) = [] := hharmless _ rfl
    obtain ⟨r, hr⟩ := hinv.present hstep.of_call.1
    obtain ⟨-, ⟨hsame, -⟩ | ⟨hbody, hnone⟩⟩ := results_finish hinv hr (hr ▸ htraced k) hstep
    · rw [referenced, hsame, referenced]
    · rw [referenced, hbody, hempty, referenced, hnone]
      rfl
  · have hnot : ∀ state body code message next,
        act ≠ .call k (.finish state (some body) code message next) :=
      fun state body code message next hact => hrecords ⟨state, body, code, message, next, hact⟩
    rw [referenced, (results_after hinv (htraced k) hstep hnot).1, referenced]

end Audit

/-! ### One observation at a time -/

/-- Whether the task holds the observation lock. -/
def Task.isObserving (t : Task) : Bool :=
  match t.phase with
  | .observing _ _ => true
  | _ => false

theorem Task.isObserving_iff {t : Task} : t.isObserving = true ↔ t.Observing := by
  unfold Task.isObserving Task.Observing
  cases t.phase <;> simp

/-- The lock is held once, and what runs without it stores nothing. -/
structure Orderly (B : Process) : Prop where
  single : B.tasks.countP Task.isObserving ≤ 1
  quiet : ∀ t ∈ B.tasks, ∀ p, t.phase = .ending p ∨ t.phase = .settling p → p.Barren

section

variable {disp : BrokerDispatcher} {B B' : Process} {act : Act}

/-- The other tasks do not hold the lock while one does. -/
theorem Orderly.alone {before after : List Task} {t : Task} (h : Orderly B)
    (hmem : B.tasks = before ++ t :: after) (ht : t.Observing) :
    ∀ t' ∈ before ++ after, ¬ t'.Observing := by
  have hcount := h.single
  rw [hmem, List.countP_append, List.countP_cons_of_pos (Task.isObserving_iff.mpr ht)] at hcount
  have hzero : (before ++ after).countP Task.isObserving = 0 := by
    rw [List.countP_append]
    omega
  intro t' ht' hobserving
  exact List.countP_eq_zero.mp hzero t' ht' (Task.isObserving_iff.mpr hobserving)

/-- A task that held the lock is gone when it is not among what its transition leaves. -/
theorem Orderly.gone {before after new : List Task} {t : Task} (h : Orderly B)
    (hmem : B.tasks = before ++ t :: after) (ht : t.Observing) (hnew : t ∉ new) :
    t ∉ before ++ new ++ after := by
  intro hin
  rcases List.mem_append.mp hin with hin | hin
  · rcases List.mem_append.mp hin with hin | hin
    · exact h.alone hmem ht t (List.mem_append_left _ hin) ht
    · exact hnew hin
  · exact h.alone hmem ht t (List.mem_append_right _ hin) ht

/-- So is one that went on in another phase. -/
theorem Orderly.replaced {before after : List Task} {t : Task} {phase : Phase} (h : Orderly B)
    (hmem : B.tasks = before ++ t :: after) (hobserving : t.Observing) (hne : phase ≠ t.phase) :
    t ∉ before ++ [{ t with phase := phase }] ++ after := by
  refine h.gone hmem hobserving ?_
  rw [List.mem_singleton]
  exact fun heq => hne (congrArg Task.phase heq).symm

/-- A task that observes after a transition did so before, or nobody did. -/
theorem TaskStep.observing {others new : List Task} {t : Task} {label : Option Prog} {L L' : Ledger}
    {orphans : List (Key × Prog)} {rpcs : List Rpc}
    (h : TaskStep disp others L t label L' new orphans rpcs) :
    new.length ≤ 1 ∧ ∀ t' ∈ new, t'.Observing → t.Observing ∨ ∀ x ∈ others, ¬ x.Observing := by
  have hnot : ∀ {t' : Task} {phase : Phase}, t' ∈ [{ t with phase := phase }] →
      (∀ terminal p, phase ≠ .observing terminal p) → ¬ t'.Observing := by
    rintro t' phase ht' hphase ⟨terminal, p, hobserving⟩
    rw [List.mem_singleton.mp ht'] at hobserving
    exact hphase terminal p hobserving
  cases h with
  | lock hphase hfree => exact ⟨le_rfl, fun _ _ _ => .inr hfree⟩
  | commit hphase | refuse hphase => exact ⟨le_rfl, fun _ _ _ => .inl ⟨_, _, hphase⟩⟩
  | dismiss | abort | finish => exact ⟨Nat.zero_le 1, fun _ ht' => absurd ht' List.not_mem_nil⟩
  | observed hphase =>
    refine ⟨?_, fun _ _ _ => .inl ⟨_, _, hphase⟩⟩
    split_ifs
    · exact le_rfl
    · exact Nat.zero_le 1
  | start | fail | eof | receive | commitEnding | settle | refuseEnding | handle | deadline
  | deadlineInCall =>
    exact ⟨le_rfl, fun t' ht' hobserving => absurd hobserving (hnot ht' (by simp))⟩

/-- What a task runs without the lock stores nothing. -/
theorem TaskStep.quiet {others new : List Task} {t : Task} {label : Option Prog} {L L' : Ledger}
    {orphans : List (Key × Prog)} {rpcs : List Rpc}
    (h : TaskStep disp others L t label L' new orphans rpcs)
    (ht : ∀ p, t.phase = .ending p ∨ t.phase = .settling p → p.Barren) :
    ∀ t' ∈ new, ∀ p, t'.phase = .ending p ∨ t'.phase = .settling p → p.Barren := by
  cases h with
  | start | receive | lock | commit | refuse =>
    intro t' ht' p hphase
    rw [List.mem_singleton.mp ht'] at hphase
    simp at hphase
  | fail | refuseEnding | handle =>
    intro t' ht' p hphase
    rw [List.mem_singleton.mp ht'] at hphase
    obtain rfl : _ = p := by simpa using hphase
    exact handler_barren _ _ _
  | eof | deadline | deadlineInCall =>
    intro t' ht' p hphase
    rw [List.mem_singleton.mp ht'] at hphase
    obtain rfl : unknown = p := by simpa using hphase
    exact unknown_barren
  | commitEnding hphase' hcall htx =>
    intro t' ht' p hphase
    rw [List.mem_singleton.mp ht'] at hphase
    obtain rfl : _ = p := by simpa using hphase
    exact (ht _ (.inl hphase')).next hcall htx
  | settle hphase' hcall htx =>
    intro t' ht' p hphase
    rw [List.mem_singleton.mp ht'] at hphase
    obtain rfl : _ = p := by simpa using hphase
    exact (ht _ (.inr hphase')).next hcall htx
  | dismiss | abort | finish => exact fun _ ht' => absurd ht' List.not_mem_nil
  | observed =>
    intro t' ht' p hphase
    split_ifs at ht'
    · rw [List.mem_singleton.mp ht'] at hphase
      simp at hphase
    · exact absurd ht' List.not_mem_nil

/-- Created tasks may join. -/
theorem Orderly.join {new : List Task} (h : Orderly B) (hnew : ∀ t ∈ new, t.phase = .created)
    (htasks : B'.tasks = B.tasks ++ new) : Orderly B' := by
  have hzero : new.countP Task.isObserving = 0 := by
    refine List.countP_eq_zero.mpr fun t ht => ?_
    simp [Task.isObserving, hnew t ht]
  constructor
  · rw [htasks, List.countP_append, hzero]
    exact h.single
  · intro t ht p hphase
    rw [htasks] at ht
    rcases List.mem_append.mp ht with ht | ht
    · exact h.quiet t ht p hphase
    · simp [hnew t ht] at hphase

/-- One step keeps order. -/
theorem Process.Step.orderly (h : Process.Step disp B act B') (horderly : Orderly B) :
    Orderly B' := by
  cases h with
  | serve | purge | reap | unclaimed | orphan | forget => exact ⟨horderly.single, horderly.quiet⟩
  | @claimCancel heard c =>
    refine horderly.join (fun t ht => ?_) rfl
    cases heard with
    | false => exact absurd ht List.not_mem_nil
    | true =>
      obtain ⟨x, -, rfl⟩ := Option.map_eq_some_iff.mp (Option.mem_toList.mp ht)
      rfl
  | reconcile =>
    obtain ⟨new, heq, hnew⟩ := startReads_eq B.tasks
    refine horderly.join (fun t ht => ?_) heq
    obtain ⟨r, -, handle, -, rfl⟩ := hnew t ht
    rfl
  | @claim heard c =>
    refine horderly.join (fun t ht => ?_) rfl
    cases heard with
    | false => exact absurd ht List.not_mem_nil
    | true => rw [List.mem_singleton.mp ht]
  | @task before after new t p L' orphans rpcs hmem h =>
    obtain ⟨hlength, hobserving⟩ := h.observing
    constructor
    · have hcount := horderly.single
      rw [hmem, List.countP_append, List.countP_cons] at hcount
      change (before ++ new ++ after).countP Task.isObserving ≤ 1
      rw [List.countP_append, List.countP_append]
      have hle : new.countP Task.isObserving ≤ 1 := le_trans List.countP_le_length hlength
      by_cases hnew : new.countP Task.isObserving = 0
      · omega
      obtain ⟨t', ht', ho⟩ : ∃ t' ∈ new, t'.isObserving = true := by
        rw [List.countP_eq_zero] at hnew
        simpa using hnew
      rcases hobserving t' ht' (Task.isObserving_iff.mp ho) with hold | hfree
      · rw [if_pos (Task.isObserving_iff.mpr hold)] at hcount
        omega
      · have hzero : (before ++ after).countP Task.isObserving = 0 :=
          List.countP_eq_zero.mpr fun x hx ho => hfree x hx (Task.isObserving_iff.mp ho)
        rw [List.countP_append] at hzero
        omega
    · intro t' ht' q hphase
      rcases List.mem_append.mp ht' with ht' | ht'
      · rcases List.mem_append.mp ht' with ht' | ht'
        · exact horderly.quiet t' (by simp [hmem, ht']) q hphase
        · exact h.quiet (horderly.quiet t (by simp [hmem])) t' ht' q hphase
      · exact horderly.quiet t' (by simp [hmem, ht']) q hphase
  | shutdown =>
    constructor
    · refine le_of_eq_of_le (List.countP_eq_zero.mpr fun t ht => ?_) (Nat.zero_le 1)
      obtain ⟨t', -, ht⟩ := List.mem_flatMap.mp ht
      simp [Task.isObserving, eq_of_mem_canceled ht]
    · intro t ht p hphase
      obtain ⟨t', -, ht⟩ := List.mem_flatMap.mp ht
      rw [eq_of_mem_canceled ht] at hphase
      obtain rfl : unknown = p := by simpa using hphase
      exact unknown_barren
  | sweep =>
    refine ⟨Nat.zero_le 1, fun t ht p hphase => ?_⟩
    rw [List.mem_singleton.mp ht] at hphase
    obtain rfl : HermesGateway.Broker.sweep = p := by simpa using hphase
    exact sweep_barren
  | restart => exact ⟨Nat.zero_le 1, fun t ht => absurd ht List.not_mem_nil⟩

end

/-! ### The invariant -/

namespace Audit

variable {disp : BrokerDispatcher} {A A' : Audit} {act : Act}

/-- An observation refers to what is stored for its operation and not recorded, and has nothing
left when it has raised. -/
def Carried (A : Audit) : Prop :=
  ∀ t ∈ A.process.tasks, ∀ terminal p, t.phase = .observing terminal p →
    ∃ ds : List Descriptor, p.Carries ds ∧ (∀ e, p = .raise e → ds = []) ∧
      A.storedFor t.key = A.referenced t.key ++ ds

/-- The invariant of a run that cuts nothing off. -/
structure Inv (A : Audit) : Prop where
  process : A.process.Inv
  shelved : Shelved A.deposits A.process.ledger.artifacts
  owned : ∀ x ∈ A.deposits, ∀ k, x.owner = some k → ∃ r, A.process.ledger.operation? k = some r
  orderly : Orderly A.process
  orphans : ∀ x ∈ A.process.orphans, x.2.Harmless
  traced : ∀ k, Traced (A.process.ledger.operation? k) (A.results k)
  carried : A.Carried
  balanced : ∀ k, A.Balanced k

theorem inv_initial : initial.Inv where
  process := Process.inv_initial
  shelved := shelved_nil
  owned _ hx := absurd hx List.not_mem_nil
  orderly := ⟨Nat.zero_le 1, fun _ ht => absurd ht List.not_mem_nil⟩
  orphans _ hx := absurd hx List.not_mem_nil
  traced _ := rfl
  carried _ ht := absurd ht List.not_mem_nil
  balanced _ _ := rfl

/-- An observation that has stored nothing would record no artifact. -/
theorem Inv.harmless (hinv : A.Inv) {t : Task} (ht : t ∈ A.process.tasks) {terminal : Bool}
    {p : Prog} (hphase : t.phase = .observing terminal p) (hloose : ¬ A.Loose t.key) :
    p.Harmless := by
  obtain ⟨ds, hcarries, -, hstored⟩ := hinv.carried t ht terminal p hphase
  rw [not_not.mp hloose, List.self_eq_append_right] at hstored
  cases p with
  | finish state result code message next => exact hcarries.1.trans hstored
  | _ => trivial

/-- Where nothing is stored or recorded, what is carried and balanced stays so, if no observation
that has stored something goes away. -/
theorem Inv.keep (hinv : A.Inv) (hstored : ∀ k, A'.storedFor k = A.storedFor k)
    (href : ∀ k, A'.referenced k = A.referenced k)
    (hkept : ∀ t ∈ A'.process.tasks, t.Observing → t ∈ A.process.tasks)
    (hgone : ∀ t ∈ A.process.tasks, t.Observing → t ∉ A'.process.tasks → ¬ A.Loose t.key) :
    A'.Carried ∧ ∀ k, A'.Balanced k := by
  constructor
  · intro t ht terminal p hphase
    rw [hstored, href]
    exact hinv.carried t (hkept t ht ⟨terminal, p, hphase⟩) terminal p hphase
  · intro k hquiet
    rw [hstored, href]
    by_cases hobserved : ∃ t ∈ A.process.tasks, t.key = k ∧ t.Observing
    · obtain ⟨t, ht, rfl, hobserving⟩ := hobserved
      exact not_not.mp (hgone t ht hobserving fun ht' => hquiet t ht' rfl hobserving)
    · exact hinv.balanced k fun t ht hkey hobserving => hobserved ⟨t, ht, hkey, hobserving⟩

/-- A step that commits no call. -/
theorem Inv.uncalled {B' : Process} (hinv : A.Inv) (hstep : Process.Step disp A.process act B')
    (huncut : Uncut disp A act (A.after act B')) (hact : ∀ k p, act ≠ .call k p)
    (hkept : ∀ t ∈ B'.tasks, t.Observing → t ∈ A.process.tasks) :
    (A.after act B').Carried ∧ ∀ k, (A.after act B').Balanced k := by
  refine hinv.keep (fun k => ?_) (fun k => ?_) hkept ?_
  · exact storedFor_after fun p h => absurd h (hact k p)
  · exact referenced_after hinv.process hinv.traced hstep fun p h => absurd h (hact k p)
  · rintro t ht ⟨terminal, p, hphase⟩ hgone hloose
    exact absurd (huncut.kept t ht terminal p hphase hloose hgone).1 (hact _ _)

/-- A call that stores nothing. -/
theorem storedFor_call {B' : Process} {p : Prog} (hput : ¬ p.IsPut) (k k' : Key) :
    (A.after (.call k p) B').storedFor k' = A.storedFor k' := by
  refine storedFor_after fun q hq => ?_
  obtain ⟨-, rfl⟩ := Act.call.inj hq
  exact hput

/-- A call that records no artifacts. -/
theorem Inv.referenced_call {B' : Process} {k : Key} {p : Prog} (hinv : A.Inv)
    (hstep : Process.Step disp A.process (.call k p) B') (hharmless : p.Harmless) (k' : Key) :
    (A.after (.call k p) B').referenced k' = A.referenced k' := by
  refine referenced_after hinv.process hinv.traced hstep fun q hq => ?_
  obtain ⟨-, rfl⟩ := Act.call.inj hq
  exact hharmless

/-- A call of an observation commits. -/
theorem Inv.commit {B' : Process} {t : Task} {terminal : Bool} {p p' : Prog} {tx : StoreTx Prog}
    {clock : ℕ → Time} {uuids : ℕ → Uuid} {s' : Session} (hinv : A.Inv)
    (hstep : Process.Step disp A.process (.call t.key p) B')
    (huncut : Uncut disp A (.call t.key p) (A.after (.call t.key p) B'))
    (ht : t ∈ A.process.tasks) (hphase : t.phase = .observing terminal p)
    (hcall : disp.call t.key p = some tx) (htx : tx ⟨A.process.ledger, clock, uuids⟩ = .ok (p', s'))
    (hledger : B'.ledger = s'.ledger) (hgone : p' = .done → t ∉ B'.tasks) :
    ∃ ds : List Descriptor, p'.Carries ds ∧ (∀ e, p' = .raise e → ds = []) ∧
      (A.after (.call t.key p) B').storedFor t.key =
        (A.after (.call t.key p) B').referenced t.key ++ ds := by
  obtain ⟨ds, hcarries, -, hstored⟩ := hinv.carried t ht terminal p hphase
  have hsame (hput : ¬ p.IsPut) :
      (A.after (.call t.key p) B').storedFor t.key = A.storedFor t.key :=
    storedFor_call hput t.key t.key
  have href (hharmless : p.Harmless) := hinv.referenced_call hstep hharmless t.key
  cases commits_of_call hcall htx with
  | saveHandle =>
    obtain ⟨rfl, hnext⟩ := hcarries
    rw [hsame id, href trivial]
    exact ⟨[], hnext, fun _ _ => rfl, hstored⟩
  | @get next snap =>
    obtain ⟨rfl, hnext⟩ := hcarries
    rw [hsame id, href trivial]
    exact ⟨[], hnext snap, fun _ _ => rfl, hstored⟩
  | @putArtifact content digest contentType next d hput =>
    rw [storedFor_put hput hledger, href trivial, hstored]
    have hproceeds := (huncut.stores t.key _ rfl trivial).2
    exact ⟨ds ++ [d], hcarries d, fun e he => absurd he (hproceeds d e), by simp⟩
  | @finish state result code message next snap =>
    obtain ⟨hds, rfl⟩ := hcarries
    rw [hsame id]
    refine ⟨[], rfl, fun _ _ => rfl, ?_⟩
    rw [List.append_nil]
    by_cases hloose : A.Loose t.key
    · -- the artifacts are not recorded yet, so this call must record them
      obtain ⟨-, hfits, hlive⟩ := huncut.kept t ht terminal _ hphase hloose (hgone rfl)
      obtain ⟨r, hr⟩ := hinv.process.present hstep.of_call.1
      cases result with
      | none =>
        refine absurd ?_ hloose
        rw [hstored, ← hds]
        simp [descriptorsOf]
      | some body =>
        obtain ⟨-, ⟨-, hfinal | hlarge⟩ | ⟨hbody, hnone⟩⟩ :=
          results_finish hinv.process hr (hr ▸ hinv.traced t.key) hstep
        · exact absurd hfinal (hlive r hr)
        · exact absurd (hfits body rfl) (not_le_of_gt hlarge)
        · rw [hstored, referenced, hnone, referenced, hbody, ← hds]
          rfl
    · rw [href (hinv.harmless ht hphase hloose)]
      exact not_not.mp hloose

/-- The calls left behind record no artifacts. -/
theorem Inv.orphans_step {B' : Process} (hinv : A.Inv) (hstep : Process.Step disp A.process act B')
    (huncut : Uncut disp A act (A.after act B')) : ∀ x ∈ B'.orphans, x.2.Harmless := by
  -- an observation whose task goes away without a call has stored nothing
  have hleft : ∀ {t : Task} {terminal : Bool} {p : Prog}, t ∈ A.process.tasks →
      t.phase = .observing terminal p → t ∉ B'.tasks → (∀ k p, act ≠ .call k p) →
      p.Harmless := by
    intro t terminal p ht hphase hgone hact
    refine hinv.harmless ht hphase fun hloose => ?_
    exact hact _ _ (huncut.kept t ht terminal p hphase hloose hgone).1
  cases hstep with
  | serve | purge | reap | claimCancel | reconcile | unclaimed | claim | sweep => exact hinv.orphans
  | @task before after new t label L' orphans rpcs hmem h =>
    intro x hx
    rcases List.mem_append.mp hx with hold | hnew
    · exact hinv.orphans x hold
    · cases h with
      | @deadlineInCall terminal p hjob hphase =>
        rw [List.mem_singleton.mp hnew]
        refine hleft (t := t) (by simp [hmem]) hphase ?_ fun _ _ h => by cases h
        exact hinv.orderly.replaced hmem ⟨terminal, p, hphase⟩ (by simp [hphase])
      | _ => exact absurd hnew List.not_mem_nil
  | @orphan before after _ _ _ _ _ _ _ hmem | @forget before after _ hmem =>
    exact fun x hx => hinv.orphans x ((mem_split hmem).mpr (.inr hx))
  | shutdown hopen =>
    intro x hx
    rcases List.mem_append.mp hx with hx | hx
    · exact hinv.orphans x hx
    · obtain ⟨t, ht, hx⟩ := List.mem_flatMap.mp hx
      obtain ⟨-, ⟨terminal, hphase⟩ | hphase⟩ := phase_of_mem_abandoned hx
      · refine hleft ht hphase (fun ht' => ?_) fun _ _ h => by cases h
        obtain ⟨t', -, ht'⟩ := List.mem_flatMap.mp ht'
        rw [eq_of_mem_canceled ht'] at hphase
        cases hphase
      · exact (hinv.orderly.quiet t ht x.2 hphase).harmless
  | restart => exact fun _ hx => absurd hx List.not_mem_nil

/-- A step without a call changes neither ghost. -/
theorem Inv.silent {B' : Process} (hinv : A.Inv) (hstep : Process.Step disp A.process .silent B')
    (k : Key) : (A.after .silent B').storedFor k = A.storedFor k ∧
      (A.after .silent B').referenced k = A.referenced k :=
  ⟨storedFor_after fun _ h => (nomatch h),
    referenced_after hinv.process hinv.traced hstep fun _ h => (nomatch h)⟩

/-- A transition after which a task observes: nothing changes for the other operations. -/
theorem Inv.observe {before after : List Task} {t : Task} {terminal : Bool} {p : Prog}
    (hinv : A.Inv)
    (hmem : A.process.tasks = before ++ t :: after)
    (htasks : A'.process.tasks = before ++ [{ t with phase := .observing terminal p }] ++ after)
    (hfree : ∀ t' ∈ before ++ after, ¬ t'.Observing)
    (hothers : ∀ k, k ≠ t.key →
      A'.storedFor k = A.storedFor k ∧ A'.referenced k = A.referenced k)
    (hcarried : ∃ ds : List Descriptor, p.Carries ds ∧ (∀ e, p = .raise e → ds = []) ∧
      A'.storedFor t.key = A'.referenced t.key ++ ds) :
    A'.Carried ∧ ∀ k, A'.Balanced k := by
  constructor
  · intro t' ht' terminal' p' hphase
    rw [htasks, List.append_assoc, List.mem_append, List.mem_append] at ht'
    rcases ht' with hin | hin | hin
    · exact absurd ⟨terminal', p', hphase⟩ (hfree t' (List.mem_append_left _ hin))
    · rw [List.mem_singleton.mp hin] at hphase ⊢
      obtain ⟨-, rfl⟩ := Phase.observing.inj hphase
      exact hcarried
    · exact absurd ⟨terminal', p', hphase⟩ (hfree t' (List.mem_append_right _ hin))
  · intro k hquiet
    have hne : k ≠ t.key := by
      rintro rfl
      exact hquiet { t with phase := .observing terminal p } (by simp [htasks]) rfl
        ⟨terminal, p, rfl⟩
    rw [(hothers k hne).1, (hothers k hne).2]
    refine hinv.balanced k fun t' ht' hkey hobserving => ?_
    rcases (mem_split hmem).mp ht' with rfl | hin
    · exact hne hkey.symm
    · exact hfree t' hin hobserving

/-- A transition of a task. -/
theorem Inv.task {before after new : List Task} {t : Task} {label : Option Prog} {L' : Ledger}
    {orphans : List (Key × Prog)} {rpcs : List Rpc} {B' : Process} (hinv : A.Inv)
    (hmem : A.process.tasks = before ++ t :: after)
    (h : TaskStep disp (before ++ after) A.process.ledger t label L' new orphans rpcs)
    (hB' : B' = { A.process with
      ledger := L'
      tasks := before ++ new ++ after
      orphans := A.process.orphans ++ orphans
      rpcs := A.process.rpcs ++ rpcs })
    (huncut : Uncut disp A ((label.map (Act.call t.key)).getD .silent)
      (A.after ((label.map (Act.call t.key)).getD .silent) B')) :
    (A.after ((label.map (Act.call t.key)).getD .silent) B').Carried ∧
      ∀ k, (A.after ((label.map (Act.call t.key)).getD .silent) B').Balanced k := by
  have ht : t ∈ A.process.tasks := by simp [hmem]
  have hstep : Process.Step disp A.process ((label.map (Act.call t.key)).getD .silent) B' :=
    hB' ▸ Process.Step.task hmem h
  have htasks : B'.tasks = before ++ new ++ after := by rw [hB']
  have hledger : B'.ledger = L' := by rw [hB']
  have hothers : ∀ t' ∈ before ++ after, t' ∈ A.process.tasks := by
    exact fun t' ht' => (mem_split hmem).mpr (.inr ht')
  -- a task observes afterwards only if it is another, or what the transition leaves
  have hafter : ∀ t' ∈ B'.tasks, t' ∈ before ++ after ∨ t' ∈ new := by
    intro t' ht'
    rw [htasks] at ht'
    simp only [List.mem_append] at ht' ⊢
    tauto
  have hsilent : label = none → (∀ t' ∈ new, ¬ t'.Observing) →
      (A.after ((label.map (Act.call t.key)).getD .silent) B').Carried ∧
        ∀ k, (A.after ((label.map (Act.call t.key)).getD .silent) B').Balanced k := by
    rintro rfl hnew
    refine hinv.uncalled hstep huncut (fun _ _ h => by cases h) fun t' ht' hobserving => ?_
    rcases hafter t' ht' with hin | hin
    · exact hothers t' hin
    · exact absurd hobserving (hnew t' hin)
  have hbarren : ∀ {p : Prog}, label = some p → p.Barren → ¬ t.Observing →
      (∀ t' ∈ new, ¬ t'.Observing) →
      (A.after ((label.map (Act.call t.key)).getD .silent) B').Carried ∧
        ∀ k, (A.after ((label.map (Act.call t.key)).getD .silent) B').Balanced k := by
    rintro p rfl hp hidle hnew
    refine hinv.keep (fun k => ?_) (fun k => ?_) ?_ ?_
    · exact storedFor_call hp.not_isPut t.key k
    · exact hinv.referenced_call hstep hp.harmless k
    · intro t' ht' hobserving
      rcases hafter t' ht' with hin | hin
      · exact hothers t' hin
      · exact absurd hobserving (hnew t' hin)
    · intro t' ht' hobserving hgone
      refine absurd ?_ hgone
      change t' ∈ B'.tasks
      rw [htasks]
      rcases (mem_split hmem).mp ht' with rfl | hin
      · exact absurd hobserving hidle
      · rcases List.mem_append.mp hin with hin | hin <;> simp [hin]
  have hcreated : ∀ {phase : Phase}, (∀ terminal p, phase ≠ .observing terminal p) →
      ∀ t' ∈ [{ t with phase := phase }], ¬ t'.Observing := by
    rintro phase hphase t' ht' ⟨terminal, p, hobserving⟩
    rw [List.mem_singleton.mp ht'] at hobserving
    exact hphase terminal p hobserving
  cases h with
  | start | fail | eof | receive | refuseEnding | handle | deadline | deadlineInCall =>
    exact hsilent rfl (hcreated (by simp))
  | dismiss | abort | finish => exact hsilent rfl fun _ ht' => absurd ht' List.not_mem_nil
  | observed =>
    refine hsilent rfl ?_
    split_ifs
    · exact hcreated (by simp)
    · exact fun _ ht' => absurd ht' List.not_mem_nil
  | @lock result hphase hfree =>
    obtain ⟨hsame, href⟩ := hinv.silent hstep t.key
    refine hinv.observe hmem htasks hfree (fun k _ => hinv.silent hstep k)
      ⟨[], observe_carries disp result, fun _ _ => rfl, ?_⟩
    refine hsame.trans (Eq.trans ?_ (href.symm.trans (List.append_nil _).symm))
    refine hinv.balanced t.key fun t' ht' _ hobserving => ?_
    rcases (mem_split hmem).mp ht' with rfl | hin
    · obtain ⟨terminal, p, hphase'⟩ := hobserving
      rw [hphase] at hphase'
      cases hphase'
    · exact hfree t' hin hobserving
  | @commit terminal p p' tx clock uuids s' hphase hcall htx =>
    have hobserving : t.Observing := ⟨terminal, p, hphase⟩
    refine hinv.observe hmem htasks (hinv.orderly.alone hmem hobserving) (fun k hne => ?_) ?_
    · have hother : ∀ q, Act.call t.key p = .call k q → False := by
        intro q hq
        exact hne (Act.call.inj hq).1.symm
      exact ⟨storedFor_after fun q hq => (hother q hq).elim,
        referenced_after hinv.process hinv.traced hstep fun q hq => (hother q hq).elim⟩
    · refine hinv.commit hstep huncut ht hphase hcall htx hledger ?_
      rintro rfl
      rw [htasks]
      refine hinv.orderly.replaced hmem hobserving ?_
      rw [hphase]
      rintro ⟨⟩
      cases hcall
  | @refuse terminal p tx clock uuids e hphase hcall =>
    have hobserving : t.Observing := ⟨terminal, p, hphase⟩
    obtain ⟨hsame, href⟩ := hinv.silent hstep t.key
    have hgone : t ∉ B'.tasks := by
      rw [htasks]
      refine hinv.orderly.replaced hmem hobserving ?_
      rw [hphase]
      rintro ⟨⟩
      cases hcall
    refine hinv.observe hmem htasks (hinv.orderly.alone hmem hobserving)
      (fun k _ => hinv.silent hstep k) ⟨[], trivial, fun _ _ => rfl, ?_⟩
    refine hsame.trans (Eq.trans ?_ (href.symm.trans (List.append_nil _).symm))
    by_contra hloose
    cases (huncut.kept t ht terminal p hphase hloose hgone).1
  | @commitEnding p p' tx clock uuids s' hphase =>
    exact hbarren rfl (hinv.orderly.quiet t ht p (.inl hphase)) (by simp [Task.Observing, hphase])
      (hcreated (by simp))
  | @settle p p' tx clock uuids s' hphase =>
    exact hbarren rfl (hinv.orderly.quiet t ht p (.inr hphase)) (by simp [Task.Observing, hphase])
      (hcreated (by simp))

/-- What every step but that of a task does. -/
theorem Inv.others {B' : Process} (hinv : A.Inv) (hstep : Process.Step disp A.process act B')
    (huncut : Uncut disp A act (A.after act B')) :
    (A.after act B').Carried ∧ ∀ k, (A.after act B').Balanced k := by
  cases hstep with
  | task hmem h => exact hinv.task hmem h rfl huncut
  | serve h => exact hinv.uncalled (.serve h) huncut (fun _ _ h => by cases h) fun t ht _ => ht
  | purge h => exact hinv.uncalled (.purge h) huncut (fun _ _ h => by cases h) fun t ht _ => ht
  | reap hmem hended =>
    exact hinv.uncalled (.reap hmem hended) huncut (fun _ _ h => by cases h) fun t ht _ => ht
  | unclaimed hlimit h =>
    exact hinv.uncalled (.unclaimed hlimit h) huncut (fun _ _ h => by cases h) fun t ht _ => ht
  | forget hmem =>
    exact hinv.uncalled (.forget hmem) huncut (fun _ _ h => by cases h) fun t ht _ => ht
  | @claimCancel heard c clock uuids s' hopen hlimit h =>
    refine hinv.uncalled (.claimCancel hopen hlimit h) huncut (fun _ _ h => by cases h)
      fun t ht hobserving => ?_
    rcases List.mem_append.mp ht with ht | ht
    · exact ht
    · cases heard with
      | false => exact absurd ht List.not_mem_nil
      | true =>
        obtain ⟨x, -, rfl⟩ := Option.map_eq_some_iff.mp (Option.mem_toList.mp ht)
        obtain ⟨_, _, hphase⟩ := hobserving
        cases hphase
  | @reconcile heard rows clock uuids s' hopen hlimit h =>
    refine hinv.uncalled (.reconcile hopen hlimit h) huncut (fun _ _ h => by cases h)
      fun t ht hobserving => ?_
    rcases mem_startReads ht with ht | ⟨r, -, handle, -, rfl⟩
    · exact ht
    · obtain ⟨_, _, hphase⟩ := hobserving
      cases hphase
  | @claim heard c clock uuids s' hopen hlimit h =>
    refine hinv.uncalled (.claim hopen hlimit h) huncut (fun _ _ h => by cases h)
      fun t ht hobserving => ?_
    rcases List.mem_append.mp ht with ht | ht
    · exact ht
    · cases heard with
      | false => exact absurd ht List.not_mem_nil
      | true =>
        rw [List.mem_singleton.mp ht] at hobserving
        obtain ⟨_, _, hphase⟩ := hobserving
        cases hphase
  | @orphan before after k p p' tx clock uuids s' hmem hcall h =>
    have hharmless : p.Harmless := hinv.orphans (k, p) (by simp [hmem])
    have hput : ¬ p.IsPut := by
      intro hput
      have horphans := congrArg List.length (huncut.stores k p rfl hput).1
      rw [hmem] at horphans
      change (before ++ after).length = _ at horphans
      simp at horphans
    refine hinv.keep (fun k' => ?_) (fun k' => ?_) (fun t ht _ => ht) fun t ht _ hgone => ?_
    · exact storedFor_call hput k k'
    · exact hinv.referenced_call (.orphan hmem hcall h) hharmless k'
    · exact absurd ht hgone
  | shutdown hopen =>
    refine hinv.uncalled (.shutdown hopen) huncut (fun _ _ h => by cases h)
      fun t ht hobserving => ?_
    obtain ⟨t', -, ht⟩ := List.mem_flatMap.mp ht
    obtain ⟨_, _, hphase⟩ := hobserving
    rw [eq_of_mem_canceled ht] at hphase
    cases hphase
  | sweep hclosing hgone =>
    refine hinv.uncalled (.sweep hclosing hgone) huncut (fun _ _ h => by cases h)
      fun t ht hobserving => ?_
    rw [List.mem_singleton.mp ht] at hobserving
    obtain ⟨_, _, hphase⟩ := hobserving
    cases hphase
  | restart h =>
    exact hinv.uncalled (.restart h) huncut (fun _ _ h => by cases h)
      fun t ht _ => absurd ht List.not_mem_nil

/-- Artifacts are stored for operations that are there. -/
theorem Inv.owned_step {B' : Process} (hinv : A.Inv) (hstep : Process.Step disp A.process act B') :
    ∀ x ∈ (A.after act B').deposits, ∀ k, x.owner = some k →
      ∃ r, B'.ledger.operation? k = some r := by
  obtain ⟨ks, hauthored⟩ := hstep.authored hinv.process.keyed
  have hstays : ∀ k, (∃ r, A.process.ledger.operation? k = some r) →
      ∃ r, B'.ledger.operation? k = some r := by
    rintro k ⟨r, hr⟩
    obtain ⟨r', hr', -⟩ := descends_of_trace hauthored hr
    exact ⟨r', hr'⟩
  intro x hx k howner
  refine hstays k ?_
  rcases owner_of_after hx howner with ⟨y, hy, hyowner⟩ | ⟨d, hact⟩
  · exact hinv.owned y hy k hyowner
  · obtain ⟨-, content, digest, contentType, next, rfl⟩ := Act.put_of_depositor hact
    exact hinv.process.present hstep.of_call.1

/-- **One step that cuts nothing off** keeps the invariant. -/
theorem Step.inv (hinv : A.Inv) (h : Step disp A act A') (huncut : Uncut disp A act A') :
    A'.Inv := by
  obtain ⟨hstep, hafter⟩ := h
  rw [hafter] at huncut ⊢
  obtain ⟨hcarried, hbalanced⟩ := hinv.others hstep huncut
  obtain ⟨clock, -, hhandles⟩ := hstep.handles
  exact
    { process := (hstep.disciplined hinv.process).2
      shelved := hhandles.shelved hinv.shelved
      owned := hinv.owned_step hstep
      orderly := hstep.orderly hinv.orderly
      orphans := hinv.orphans_step hstep huncut
      traced := traced_after hinv.process hinv.traced hstep
      carried := hcarried
      balanced := hbalanced }

/-- Runs in which no observation is cut off. -/
abbrev UncutRun (disp : BrokerDispatcher) : Audit → Audit → Prop :=
  Relation.ReflTransGen fun A A' => ∃ act, Step disp A act A' ∧ Uncut disp A act A'

/-- One more step. -/
theorem UncutRun.step {B' : Process} (h : UncutRun disp initial A)
    (hstep : Process.Step disp A.process act B') (huncut : Uncut disp A act (A.after act B')) :
    UncutRun disp initial (A.after act B') :=
  h.tail ⟨act, ⟨hstep, rfl⟩, huncut⟩

theorem inv_of_uncutRun (h : UncutRun disp initial A) : A.Inv := by
  induction h with
  | refl => exact inv_initial
  | tail _ hlast ih =>
    obtain ⟨act, hstep, huncut⟩ := hlast
    exact hstep.inv ih huncut

/-- Every run of the broker is one of the broker with the ghosts. -/
theorem exists_audit {B : Process} (h : Process.Reachable disp B) :
    ∃ A, A.process = B ∧
      Relation.ReflTransGen (fun A A' => ∃ act, Step disp A act A') initial A := by
  induction h with
  | refl => exact ⟨initial, rfl, .refl⟩
  | tail _ hlast ih =>
    obtain ⟨A, rfl, hrun⟩ := ih
    obtain ⟨act, hstep⟩ := hlast
    exact ⟨A.after act _, rfl, hrun.tail ⟨act, hstep, rfl⟩⟩

end Audit

/-- What a result refers to and what is stored, of an operation that is not being observed. -/
theorem Audit.Inv.settled {A : Audit} (hinv : A.Inv) {k : Key} {r : OperationRow}
    (hr : A.process.ledger.operation? k = some r)
    (hquiet : ∀ t ∈ A.process.tasks, t.key = k → ¬ t.Observing) :
    (∀ body, r.result = some body → A.storedFor k = descriptorsOf (some body)) ∧
      (¬ r.state.Final → A.storedFor k = []) := by
  have htraced := hinv.traced k
  rw [hr] at htraced
  rw [hinv.balanced k hquiet, Audit.referenced]
  constructor
  · intro body hbody
    rw [htraced.1 body hbody]
  · intro hfinal
    rw [htraced.2 hfinal]
    rfl

/-- The bytes of a device, when nothing is being observed. -/
theorem Audit.Inv.storedBytes_le {A : Audit} (hinv : A.Inv)
    (hquiet : ∀ t ∈ A.process.tasks, ¬ t.Observing) (d : Device) :
    storedBytes A.process.ledger d ≤ uploadedBytes A.deposits d +
      ((A.process.ledger.operations.filter fun r => r.deviceId = d).map fun r =>
        bytesOf (A.referenced r.key)).sum := by
  have howned : ∀ x ∈ A.deposits, ∀ k, x.owner = some k →
      k ∈ A.process.ledger.operations.map OperationRow.key := by
    intro x hx k hk
    obtain ⟨r, hr⟩ := hinv.owned x hx k hk
    exact List.mem_map.mpr ⟨r, Table.mem_of_lookup hr, Table.key_of_lookup hr⟩
  refine (hinv.shelved.storedBytes_le howned d).trans (Nat.add_le_add_left ?_ _)
  rw [List.filter_map, List.map_map]
  refine List.sum_le_sum fun r _ => ?_
  rw [← hinv.balanced r.key fun t ht _ => hquiet t ht]
  exact bytes_heldFor_le A.deposits r.key

/-- **Artifacts are stored with the result that refers to them.** In every run in which no
observation is cut off between its first artifact and its result:

* the table of artifacts is what was put into it, by uploads and for operations, and has not been
  deleted, each row once; and what a step deletes has expired by the clock it runs under;
* the artifacts stored for an operation that is not being observed are those its result refers to,
  or referred to until it expired, in the same order, and the table has no others for it;
* none are stored for an operation that is not definitive;
* so the bytes of a device are those of its uploads and of what the results of its operations refer
  to, at most. -/
theorem artifacts_balanced {disp : BrokerDispatcher} {A : Audit}
    (h : Audit.UncutRun disp Audit.initial A) :
    Shelved A.deposits A.process.ledger.artifacts ∧
    (∀ act A', Audit.Step disp A act A' → ∃ clock, (A'.process.ledger = A.process.ledger ∨
        ∃ x, Process.Performs disp.store clock x A.process.ledger A'.process.ledger) ∧
      act.Handles clock A.process.ledger.artifacts A'.process.ledger.artifacts) ∧
    (∀ k, (∀ t ∈ A.process.tasks, t.key = k → ¬ t.Observing) →
      A.storedFor k = A.referenced k ∧
      ((heldFor A.deposits k).map ArtifactRow.descriptor).Sublist (A.referenced k) ∧
      ∀ r, A.process.ledger.operation? k = some r →
        (∀ body, r.result = some body → A.storedFor k = descriptorsOf (some body)) ∧
        (¬ r.state.Final → A.storedFor k = [])) ∧
    ∀ d, (∀ t ∈ A.process.tasks, ¬ t.Observing) →
      storedBytes A.process.ledger d ≤ uploadedBytes A.deposits d +
        ((A.process.ledger.operations.filter fun r => r.deviceId = d).map fun r =>
          bytesOf (A.referenced r.key)).sum := by
  have hinv := Audit.inv_of_uncutRun h
  refine ⟨hinv.shelved, fun act A' hstep => hstep.1.handles, fun k hquiet => ?_,
    fun d hquiet => hinv.storedBytes_le hquiet d⟩
  have hbalanced := hinv.balanced k hquiet
  exact ⟨hbalanced, hbalanced ▸ heldFor_sublist A.deposits k, fun r hr => hinv.settled hr hquiet⟩

/-! ### Two runs -/

/-- Steps that meet no observation and store nothing cut nothing off. -/
theorem uncut_of_idle {disp : BrokerDispatcher} {A A' : Audit} {act : Act}
    (hidle : ∀ t ∈ A.process.tasks, ¬ t.Observing) (hact : ∀ k p, act = .call k p → ¬ p.IsPut) :
    Uncut disp A act A' :=
  ⟨fun t ht terminal p hphase _ _ => absurd ⟨terminal, p, hphase⟩ (hidle t ht),
    fun k p hcall hput => absurd hput (hact k p hcall)⟩

/-- The default settings, with the functions of the standard library left out. -/
def BrokerDispatcher.default : BrokerDispatcher :=
  ⟨BrokerStore.default, fun _ => "", fun _ => none⟩

/-- A completed result with a raw part, and others after it. -/
def rawThen (rest : List Json) : TaskResult :=
  ⟨"t", "c", "completed", "done", [.obj [("parts", .arr (.obj [("raw", .str "aGk=")] :: rest))]],
    .obj []⟩

theorem partAction_raw : BrokerDispatcher.default.partAction (some (.obj [("raw", .str "aGk=")])) =
    .store ⟨#[104, 105]⟩ "application/octet-stream" := by rfl

/-- What is left of its observation when the raw part has been stored. -/
def restOf (rest : List Json) (d : Descriptor) : Prog :=
  BrokerDispatcher.default.storeParts (rest.map some) [d] fun descriptors =>
    .finish .completed (some (.output "done" descriptors)) none none .done

/-- The observation when the raw part is about to be stored. -/
def storing (rest : List Json) : Prog :=
  .putArtifact ⟨#[104, 105]⟩ "" "application/octet-stream" (restOf rest)

/-- The raw part is stored. -/
theorem storedFor_storing {A : Audit} {rest : List Json} {B' : Process} {d : Descriptor}
    {s s' : Session} (hput : BrokerStore.default.putArtifact "laptop" ⟨#[104, 105]⟩ ""
      "application/octet-stream" s = .ok (d, s')) (hledger : B'.ledger = s'.ledger)
    (hstored : A.deposits = []) :
    (A.after (.call ("laptop", 1) (storing rest)) B').storedFor ("laptop", 1) = [d] := by
  have hput' : BrokerDispatcher.default.store.putArtifact (("laptop", 1) : Key).1 ⟨#[104, 105]⟩ ""
      "application/octet-stream" s = .ok (d, s') := hput
  rw [storing, Audit.storedFor_put hput' hledger, Audit.storedFor, hstored]
  rfl

/-- A call of the one task that proceeds cuts nothing off. -/
theorem uncut_of_observer {disp : BrokerDispatcher} {A : Audit} {L L' : Ledger} {p p' : Prog}
    (hprocess : A.process = observer L p)
    (hproceeds : p.Proceeds disp.store.settings L ("laptop", 1)) :
    Uncut disp A (.call ("laptop", 1) p) (A.after (.call ("laptop", 1) p) (observer L' p')) := by
  constructor
  · intro t ht terminal q hphase _ _
    rw [hprocess] at ht ⊢
    rw [List.mem_singleton.mp ht] at hphase ⊢
    obtain ⟨-, rfl⟩ := Phase.observing.inj hphase
    exact ⟨rfl, hproceeds⟩
  · intro k q hcall _
    obtain ⟨rfl, rfl⟩ := Act.call.inj hcall
    rw [hprocess]
    exact ⟨rfl, hproceeds⟩

/-- A run up to the moment the raw part is going to be stored. -/
theorem exists_storing (rest : List Json) : ∃ A,
    Audit.UncutRun BrokerDispatcher.default Audit.initial A ∧ A.deposits = [] ∧
      A.process = observer (handledLedger BrokerStore.default "t") (storing rest) := by
  let disp := BrokerDispatcher.default
  have hid : (rawThen rest).taskId ≠ "" := show "t" ≠ "" by decide
  obtain ⟨next, hobserve, hnext⟩ := @observe_of_terminal disp (rawThen rest)
    (show settles "completed" = true by decide)
    (show ¬ ("completed" = "rejected" ∨ "completed" = "input_required") by decide)
  have hsave := saveHandle_claimedLedger disp.store hid (show "t".length ≤ 512 by decide)
    (show Storable "t" by decide) rfl
  obtain ⟨current, s₂, hget, hfinal, hsame⟩ := exists_get (unsettled_handledLedger disp.store "t")
  have hparts : next current = storing rest := by
    have hflat : (rawThen rest).artifacts.flatMap partsOf =
        some (.obj [("raw", .str "aGk=")]) :: rest.map some := List.flatMap_singleton _ _
    rw [hnext current hfinal, hflat, storeParts, partAction_raw]
    rfl
  let L := claimedLedger disp.store
  let rpcs : List Rpc := [.sendStreamingMessage ("laptop", 1)]
  have hlock : Process.Step disp (soleTask L (.queued (rawThen rest)) rpcs) .silent
      (observer L (.saveHandle "t" (.get next))) := by
    have hstep := @step_lock disp L (rawThen rest)
    rw [hobserve] at hstep
    exact hstep
  have hcommit₁ := step_commit disp (p := .saveHandle "t" (.get next)) rfl
    (Tx.map_eq_ok.mpr ⟨(), hsave, rfl⟩)
  have hcommit₂ := step_commit disp (p := .get next) rfl
    (Tx.map_eq_ok.mpr ⟨current, hget, rfl⟩)
  rw [hparts, hsame] at hcommit₂
  have hidle : ∀ {L : Ledger} {phase : Phase} {rpcs : List Rpc},
      (∀ terminal p, phase ≠ .observing terminal p) →
      ∀ t ∈ (soleTask L phase rpcs).tasks, ¬ t.Observing := by
    rintro L phase rpcs hphase t ht ⟨terminal, p, hobserving⟩
    rw [List.mem_singleton.mp ht] at hobserving
    exact hphase terminal p hobserving
  -- step by step; nothing is observed before the lock is taken
  have hrun₁ := Audit.UncutRun.step .refl (step_accept disp)
    (uncut_of_idle (fun _ ht => absurd ht List.not_mem_nil) fun _ _ h => by cases h)
  have hrun₂ := hrun₁.step (step_claim disp)
    (uncut_of_idle (fun _ ht => absurd ht List.not_mem_nil) fun _ _ h => by cases h)
  have hrun₃ :=
    hrun₂.step (step_start disp L) (uncut_of_idle (hidle (by simp)) fun _ _ h => by cases h)
  have hrun₄ := hrun₃.step (step_receive disp L hid)
    (uncut_of_idle (hidle (by simp)) fun _ _ h => by cases h)
  have hrun₅ := hrun₄.step hlock (uncut_of_idle (hidle (by simp)) fun _ _ h => by cases h)
  have hrun₆ := hrun₅.step hcommit₁ (uncut_of_observer rfl trivial)
  have hrun₇ := hrun₆.step hcommit₂ (uncut_of_observer rfl trivial)
  exact ⟨_, hrun₇, rfl, rfl⟩

/-- The end of an observation cuts nothing off. -/
theorem uncut_of_done {disp : BrokerDispatcher} {A A' : Audit} {L : Ledger} (hinv : A.Inv)
    (hprocess : A.process = observer L .done) : Uncut disp A .silent A' := by
  refine ⟨fun t ht terminal p hphase hloose _ => absurd ?_ hloose, fun _ _ h => by cases h⟩
  obtain ⟨ds, hcarries, -, hstored⟩ := hinv.carried t ht terminal p hphase
  rw [hprocess] at ht
  rw [List.mem_singleton.mp ht] at hphase
  obtain ⟨-, rfl⟩ := Phase.observing.inj hphase
  obtain rfl : ds = [] := hcarries
  rw [hstored]
  simp

theorem artifacts_balanced_raw :
    ∃ A, Audit.UncutRun BrokerDispatcher.default Audit.initial A ∧ A.process.tasks = [] ∧
      A.process.ledger.artifacts.map ArtifactRow.artifactId = [7] ∧
      (A.storedFor ("laptop", 1)).map Descriptor.artifactId = [7] ∧
      (A.referenced ("laptop", 1)).map Descriptor.artifactId = [7] ∧
      Shelved A.deposits A.process.ledger.artifacts := by
  -- the raw part is stored, and the result is recorded
  have hruns : (Tx.succeeds (BrokerStore.default.putArtifact "laptop" ⟨#[104, 105]⟩ ""
      "application/octet-stream" ⟨handledLedger BrokerStore.default "t", fun _ => 0, fun _ => 7⟩)
      fun d s₁ => d.artifactId = 7 ∧
        utf8Length (ResultBody.output "done" [d]).toJson.canonical ≤
          BrokerStore.default.settings.maxResultBytes ∧
        (∀ r ∈ s₁.ledger.operation? ("laptop", 1), ¬ r.state.Final) ∧
        Tx.succeeds (BrokerStore.default.finish ("laptop", 1) .completed
          (some (.output "done" [d])) none none ⟨s₁.ledger, fun _ => 0, fun _ => 8⟩)
          (fun _ s₂ => s₂.ledger.artifacts.map ArtifactRow.artifactId = [7]) = true) = true := by
    decide +kernel
  obtain ⟨d, s₁, hput, hruns⟩ := Tx.exists_of_succeeds hruns
  obtain ⟨hid, hfits, hlive, hruns⟩ := of_decide_eq_true hruns
  obtain ⟨snap, s₂, hfinish, hruns⟩ := Tx.exists_of_succeeds hruns
  obtain ⟨A, hrun, hstored, hprocess⟩ := exists_storing []
  let A₁ := A.after (.call ("laptop", 1) (storing [])) (observer s₁.ledger (restOf [] d))
  let A₂ := A₁.after (.call ("laptop", 1) (restOf [] d)) (observer s₂.ledger .done)
  let A₃ := A₂.after .silent { observer s₂.ledger .done with tasks := [] }
  have hstep₁ : Process.Step BrokerDispatcher.default A.process (.call ("laptop", 1) (storing []))
      (observer s₁.ledger (restOf [] d)) :=
    hprocess ▸ step_commit BrokerDispatcher.default rfl (Tx.map_eq_ok.mpr ⟨d, hput, rfl⟩)
  have hrun₁ : Audit.UncutRun BrokerDispatcher.default Audit.initial A₁ :=
    hrun.step hstep₁ (uncut_of_observer hprocess fun _ _ h => by cases h)
  have hproceeds : (restOf [] d).Proceeds BrokerDispatcher.default.store.settings s₁.ledger
      ("laptop", 1) := by
    refine ⟨fun body hbody => ?_, hlive⟩
    obtain rfl := Option.some.inj hbody
    exact hfits
  have hrun₂ : Audit.UncutRun BrokerDispatcher.default Audit.initial A₂ :=
    hrun₁.step (step_commit BrokerDispatcher.default rfl (Tx.map_eq_ok.mpr ⟨snap, hfinish, rfl⟩))
      (uncut_of_observer rfl hproceeds)
  have hrun₃ : Audit.UncutRun BrokerDispatcher.default Audit.initial A₃ :=
    hrun₂.step (@Process.Step.task _ (observer s₂.ledger .done) [] [] _ _ _ _ _ _ rfl
      (.observed rfl)) (uncut_of_done (Audit.inv_of_uncutRun hrun₂) rfl)
  have hstored₁ : A₁.storedFor ("laptop", 1) = [d] :=
    @storedFor_storing A [] (observer s₁.ledger (restOf [] d)) d _ s₁ hput rfl hstored
  have hstored₃ : A₃.storedFor ("laptop", 1) = [d] :=
    (Audit.storedFor_after fun _ h => by cases h).trans
      ((Audit.storedFor_call id _ _).trans hstored₁)
  obtain ⟨hshelved, -, hbalanced, -⟩ := artifacts_balanced hrun₃
  obtain ⟨hreferenced, -⟩ :=
    hbalanced ("laptop", 1) fun t ht => absurd ht List.not_mem_nil
  rw [hstored₃] at hreferenced
  exact ⟨A₃, hrun₃, rfl, of_decide_eq_true hruns, by simp [hstored₃, hid],
    by simp [← hreferenced, hid], hshelved⟩

theorem restOf_url (d : Descriptor) : restOf [.obj [("url", .str "x")]] d =
    .raise (brokerError .unsupportedPeerArtifact "peer URL artifacts are not supported" 502) := by
  rw [restOf, List.map_cons, storeParts]
  rfl

theorem handler_url : Job.handler true .submit
    (brokerError .unsupportedPeerArtifact "peer URL artifacts are not supported" 502) =
      .finish .failed none (some .unsupportedPeerArtifact)
        (some "peer URL artifacts are not supported") .done := by
  rw [brokerError, Job.handler, if_pos ⟨rfl, by decide⟩]

/-- A call of the handler of the one task. -/
theorem step_settle (disp : BrokerDispatcher) {L : Ledger} {p p' : Prog} {tx : StoreTx Prog}
    {clock : ℕ → Time} {uuids : ℕ → Uuid} {s' : Session} {rpcs : List Rpc}
    (hcall : disp.call ("laptop", 1) p = some tx) (htx : tx ⟨L, clock, uuids⟩ = .ok (p', s')) :
    Process.Step disp (soleTask L (.settling p) rpcs) (.call ("laptop", 1) p)
      (soleTask s'.ledger (.settling p') (rpcs ++ [])) :=
  @Process.Step.task disp (soleTask L (.settling p) rpcs) [] [] _ _ (some p) _ _ _ rfl
    (.settle rfl hcall htx)

/-- A URL after a raw part: the raw part is stored, the URL fails the operation, and the artifact
stays without a reference. -/
theorem artifacts_lost :
    ∃ A, Relation.ReflTransGen (fun A A' => ∃ act, Audit.Step BrokerDispatcher.default A act A')
        Audit.initial A ∧ A.process.tasks = [] ∧
      (∃ r, A.process.ledger.operation? ("laptop", 1) = some r ∧ r.state = .failed ∧
        r.result = none) ∧
      A.process.ledger.artifacts.map ArtifactRow.artifactId = [7] ∧
      (A.storedFor ("laptop", 1)).map Descriptor.artifactId = [7] ∧
      ¬ A.Balanced ("laptop", 1) := by
  have hruns : (Tx.succeeds (BrokerStore.default.putArtifact "laptop" ⟨#[104, 105]⟩ ""
      "application/octet-stream" ⟨handledLedger BrokerStore.default "t", fun _ => 0, fun _ => 7⟩)
      fun d s₁ => d.artifactId = 7 ∧
        (s₁.ledger.operation? ("laptop", 1)).bind OperationRow.result = none ∧
        Tx.succeeds (BrokerStore.default.finish ("laptop", 1) .failed none
          (some .unsupportedPeerArtifact) (some "peer URL artifacts are not supported")
          ⟨s₁.ledger, fun _ => 0, fun _ => 8⟩)
          (fun _ s₂ => (s₂.ledger.operation? ("laptop", 1)).map (fun r => (r.state, r.result)) =
            some (.failed, none) ∧ s₂.ledger.artifacts.map ArtifactRow.artifactId = [7]) = true) =
      true := by decide +kernel
  obtain ⟨d, s₁, hput, hruns⟩ := Tx.exists_of_succeeds hruns
  obtain ⟨hid, hblank, hruns⟩ := of_decide_eq_true hruns
  obtain ⟨snap, s₂, hfinish, hruns⟩ := Tx.exists_of_succeeds hruns
  obtain ⟨hrow, hartifacts⟩ := of_decide_eq_true hruns
  obtain ⟨r, hr, hstate⟩ := Option.map_eq_some_iff.mp hrow
  obtain ⟨hstate, hresult⟩ := Prod.mk.inj hstate
  obtain ⟨A, hrun, hstored, hprocess⟩ := exists_storing [.obj [("url", .str "x")]]
  let rpcs : List Rpc := [.sendStreamingMessage ("laptop", 1)]
  let p : Prog := .finish .failed none (some .unsupportedPeerArtifact)
    (some "peer URL artifacts are not supported") .done
  let e := brokerError .unsupportedPeerArtifact "peer URL artifacts are not supported" 502
  let B₁ := observer s₁.ledger (.raise e)
  let A₁ := A.after (.call ("laptop", 1) (storing [.obj [("url", .str "x")]])) B₁
  let A₂ := A₁.after .silent (soleTask s₁.ledger (.settling p) rpcs)
  let A₃ := A₂.after (.call ("laptop", 1) p) (soleTask s₂.ledger (.settling .done) rpcs)
  let A₄ := A₃.after .silent { soleTask s₂.ledger (.settling .done) rpcs with tasks := [] }
  have hstep₁ : Process.Step BrokerDispatcher.default A.process
      (.call ("laptop", 1) (storing [.obj [("url", .str "x")]])) B₁ :=
    hprocess ▸ step_commit BrokerDispatcher.default rfl
      (Tx.map_eq_ok.mpr ⟨d, hput, restOf_url d⟩)
  have hstep₂ : Process.Step BrokerDispatcher.default B₁ .silent
      (soleTask s₁.ledger (.settling p) rpcs) := by
    rw [show p = Job.handler true .submit e from handler_url.symm]
    exact @Process.Step.task _ B₁ [] [] _ _ _ _ _ _ rfl (.handle rfl)
  have hstep₃ : Process.Step BrokerDispatcher.default (soleTask s₁.ledger (.settling p) rpcs)
      (.call ("laptop", 1) p) (soleTask s₂.ledger (.settling .done) rpcs) :=
    step_settle BrokerDispatcher.default rfl (Tx.map_eq_ok.mpr ⟨snap, hfinish, rfl⟩)
  have hstep₄ : Process.Step BrokerDispatcher.default (soleTask s₂.ledger (.settling .done) rpcs)
      .silent { soleTask s₂.ledger (.settling .done) rpcs with tasks := [] } :=
    @Process.Step.task _ (soleTask s₂.ledger (.settling .done) rpcs) [] [] _ _ _ _ _ _ rfl
      (.finish (.inr rfl) rfl)
  have hstart : Relation.ReflTransGen
      (fun A A' => ∃ act, Audit.Step BrokerDispatcher.default A act A') Audit.initial A :=
    Relation.ReflTransGen.mono (fun _ _ ⟨act, hstep, _⟩ => ⟨act, hstep⟩) _ _ hrun
  have hend : Relation.ReflTransGen
      (fun A A' => ∃ act, Audit.Step BrokerDispatcher.default A act A') Audit.initial A₄ :=
    (((hstart.tail ⟨_, hstep₁, rfl⟩).tail ⟨_, hstep₂, rfl⟩).tail ⟨_, hstep₃, rfl⟩).tail
      ⟨_, hstep₄, rfl⟩
  have hstored₁ : A₁.storedFor ("laptop", 1) = [d] :=
    @storedFor_storing A _ B₁ d _ s₁ hput rfl hstored
  have hstored₄ : A₄.storedFor ("laptop", 1) = [d] :=
    (Audit.storedFor_after fun _ h => by cases h).trans
      ((Audit.storedFor_call id _ _).trans
        ((Audit.storedFor_after fun _ h => by cases h).trans hstored₁))
  have hresults : A.results ("laptop", 1) = none := by
    have htraced := (Audit.inv_of_uncutRun hrun).traced ("laptop", 1)
    rw [hprocess] at htraced
    exact htraced.2 (show ¬ OpState.running.Final by decide)
  have hresults₄ : A₄.results ("laptop", 1) = none := by
    change ((s₂.ledger.operation? ("laptop", 1)).bind OperationRow.result).or
      (((s₂.ledger.operation? ("laptop", 1)).bind OperationRow.result).or
        (((s₁.ledger.operation? ("laptop", 1)).bind OperationRow.result).or
          (((s₁.ledger.operation? ("laptop", 1)).bind OperationRow.result).or
            (A.results ("laptop", 1))))) = none
    rw [hr, hblank, hresults]
    simp [hresult]
  refine ⟨A₄, hend, rfl, ⟨r, hr, hstate, hresult⟩, hartifacts, by simp [hstored₄, hid],
    fun hbalanced => ?_⟩
  have hempty := hbalanced fun t ht => absurd ht List.not_mem_nil
  rw [hstored₄, Audit.referenced, hresults₄] at hempty
  cases hempty

end HermesGateway.Broker
