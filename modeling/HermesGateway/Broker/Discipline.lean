import HermesGateway.Broker.Dispatcher
import HermesGateway.Broker.EventLog

/-!
# How the dispatcher uses the store

The store would let any caller finish any operation in any way. The dispatcher does not: it calls
for claimed operations only, records a definitive outcome only after the handle was saved, and an
unknown outcome without a result. This module proves that of every transition of a task, whatever
the peer answers and whenever a deadline or a shutdown falls.

## Main definitions

* `Disciplined` — what is known of an edit the broker makes
* `Prog.Commits`, `Prog.Breaks` — a call of a coroutine that goes through, and one that fails
* `Prog.Safe`, `Prog.Mild` — coroutines that may run once the handle is saved, and without it
* `Task.Ok` — what is known of a task

## Main results

* `observe_opens` — an observation saves the handle first
* `call_disciplined` — one call of a coroutine makes disciplined moves
* `TaskStep.disciplined` — so does one transition of a task
-/

namespace HermesGateway.Broker

open BrokerStore BrokerDispatcher

/-! ### What stays true of an operation -/

/-- The operation has been claimed, or settled without being claimed. -/
def Submitted (L : Ledger) (k : Key) : Prop := ∃ r, L.operation? k = some r ∧ r.state ≠ .accepted

/-- The operation has a handle, or is settled. -/
def Saved (L : Ledger) (k : Key) : Prop :=
  ∃ r, L.operation? k = some r ∧ (r.remoteTaskId ≠ none ∨ r.state.Final)

theorem ne_accepted_of_terminal {s : OpState} (h : s.Terminal) : s ≠ .accepted := by
  rintro rfl
  exact absurd h (by decide)

section

variable {R : Time → Time → Prop} {P : Ledger → OperationRow → Edit → Prop}
  {Q : OperationRow → Edit → Prop} {k : Key} {L L' : Ledger} {ks : List Key}

/-- What stays of a row: its identity, and that it was claimed, has a handle, or is settled. -/
structure Descends (r r' : OperationRow) : Prop where
  key : r'.key = r.key
  flowId : r'.flowId = r.flowId
  digest : r'.digest = r.digest
  createdAt : r'.createdAt = r.createdAt
  claimed : r.state ≠ .accepted → r'.state ≠ .accepted
  handle : r.remoteTaskId ≠ none → r'.remoteTaskId ≠ none
  settled : r.state.Final → r'.state = r.state

theorem Descends.refl (r : OperationRow) : Descends r r :=
  ⟨rfl, rfl, rfl, rfl, id, id, fun _ => rfl⟩

theorem Descends.trans {a b c : OperationRow} (h : Descends a b) (h' : Descends b c) :
    Descends a c where
  key := h'.key.trans h.key
  flowId := h'.flowId.trans h.flowId
  digest := h'.digest.trans h.digest
  createdAt := h'.createdAt.trans h.createdAt
  claimed ha := h'.claimed (h.claimed ha)
  handle ha := h'.handle (h.handle ha)
  settled ha := (h'.settled (h.settled ha ▸ ha)).trans (h.settled ha)

theorem Edit.descends {e : Edit} {r : OperationRow} (hallowed : e.Allowed r) :
    Descends r (e.row r) := by
  cases e with
  | claim claimedAt now =>
    refine ⟨rfl, rfl, rfl, rfl, fun hne => absurd hallowed hne, id, fun hfinal => ?_⟩
    rw [Edit.Allowed] at hallowed
    rw [hallowed] at hfinal
    exact absurd hfinal (by decide)
  | finish state result code message expires fresh now =>
    exact ⟨rfl, rfl, rfl, rfl, fun _ => ne_accepted_of_terminal hallowed.2.1, id,
      fun hfinal => absurd hfinal hallowed.1⟩
  | handle handle now =>
    exact ⟨rfl, rfl, rfl, rfl, id, fun _ => by simp [Edit.row, handledRow], fun _ => rfl⟩
  | cancel now => exact ⟨rfl, rfl, rfl, rfl, id, id, fun _ => rfl⟩

/-- A step of an operation leaves a descendant of its row. -/
theorem KeyStep.descends {r : OperationRow} {ss : List Snapshot} {o' : Option OperationRow}
    (h : KeyStep R Q k (some r) ss o') : ∃ r', o' = some r' ∧ Descends r r' := by
  cases h with
  | same => exact ⟨r, rfl, Descends.refl r⟩
  | poll => exact ⟨_, rfl, rfl, rfl, rfl, rfl, id, id, fun _ => rfl⟩
  | cancelClaim => exact ⟨_, rfl, rfl, rfl, rfl, rfl, id, id, fun _ => rfl⟩
  | @purge _ now =>
    obtain ⟨x, hx⟩ := purgedRow_eq now r
    exact ⟨_, rfl, hx ▸ ⟨rfl, rfl, rfl, rfl, id, id, fun _ => rfl⟩⟩
  | edit hkey hallowed => exact ⟨_, rfl, Edit.descends hallowed⟩

/-- Rows are never deleted: after any moves a descendant is there. -/
theorem descends_of_trace {r : OperationRow} (hmoves : Trace (Move R P) L ks L')
    (hr : L.operation? k = some r) : ∃ r', L'.operation? k = some r' ∧ Descends r r' :=
  hmoves.invariant (I := fun L => ∃ r', L.operation? k = some r' ∧ Descends r r')
    (fun ⟨r', hr', hdesc⟩ hmove => by
      obtain ⟨ss, hstep, -⟩ := hmove.keyStep (Q := fun _ _ => True) (fun _ _ _ _ => trivial) k
      rw [hr'] at hstep
      obtain ⟨r'', hr'', hdesc'⟩ := hstep.descends
      exact ⟨r'', hr'', hdesc.trans hdesc'⟩) ⟨r, hr, Descends.refl r⟩

theorem Submitted.of_trace (h : Submitted L k) (hmoves : Trace (Move R P) L ks L') :
    Submitted L' k := by
  obtain ⟨r, hr, hstate⟩ := h
  obtain ⟨r', hr', hdesc⟩ := descends_of_trace hmoves hr
  exact ⟨r', hr', hdesc.claimed hstate⟩

theorem Saved.of_trace (h : Saved L k) (hmoves : Trace (Move R P) L ks L') : Saved L' k := by
  obtain ⟨r, hr, hsaved⟩ := h
  obtain ⟨r', hr', hdesc⟩ := descends_of_trace hmoves hr
  exact ⟨r', hr', hsaved.imp hdesc.handle fun hfinal => hdesc.settled hfinal ▸ hfinal⟩

end

/-! ### Disciplined edits -/

/-- An output comes without an error. -/
def Unmixed (result : Option ResultBody) (code : Option ErrorCode) : Prop :=
  ∀ text artifacts, result = some (.output text artifacts) → code = none

theorem unmixed_none (code : Option ErrorCode) : Unmixed none code := fun _ _ h => by cases h

/-- What is known of an edit the broker makes. A claim finds the flow free. A handle is saved for
a claimed operation. An operation that was never claimed is canceled or failed without a result;
an unknown outcome is that of a claimed operation and has no result; a definitive outcome of a
claimed operation is that of a handle. An output is recorded without an error. -/
def Disciplined (L : Ledger) (r : OperationRow) : Edit → Prop
  | .claim _ _ => ∀ active ∈ L.operations,
      active.deviceId = r.deviceId → active.flowId = r.flowId → ¬ active.Active
  | .handle _ _ => r.state ≠ .accepted
  | .finish state result code _ _ _ _ =>
    (r.state = .accepted → (state = .canceled ∨ state = .failed) ∧ result = none) ∧
    (state = .outcomeUnknown → result = none) ∧
    (state.Final → r.state ≠ .accepted → r.remoteTaskId ≠ none) ∧ Unmixed result code
  | .cancel _ => True

/-- The step saves a first handle for an operation whose outcome is already unknown. -/
def Act.Late (L : Ledger) : Act → Prop
  | .call k (.saveHandle _ _) =>
    ∃ r, L.operation? k = some r ∧ r.state = .outcomeUnknown ∧ r.remoteTaskId.getD "" = ""
  | _ => False

/-- Disciplined, and a first handle is saved for an operation of unknown outcome only if `late`
allows it. -/
def Known (late : Prop) (L : Ledger) (r : OperationRow) (e : Edit) : Prop :=
  Disciplined L r e ∧ ∀ handle now, e = .handle handle now → r.state = .outcomeUnknown → late

/-! ### Coroutines -/

/-- May run once the handle is saved: unknown outcomes are recorded without a result, and outputs
without an error. -/
def Prog.Safe : Prog → Prop
  | .done | .raise _ => True
  | .saveHandle _ next => next.Safe
  | .get next => ∀ s, (next s).Safe
  | .putArtifact _ _ _ next => ∀ d, (next d).Safe
  | .finish state result code _ next =>
    (state = .outcomeUnknown → result = none) ∧ Unmixed result code ∧ next.Safe

/-- May run without a handle: nothing but unknown outcomes is recorded. -/
def Prog.Mild : Prog → Prop
  | .done | .raise _ => True
  | .saveHandle _ _ | .putArtifact _ _ _ _ => False
  | .get next => ∀ s, (next s).Mild
  | .finish state result _ _ next => state = .outcomeUnknown ∧ result = none ∧ next.Mild

/-- Saves the handle first. -/
def Prog.Opens : Prog → Prop
  | .saveHandle _ next => next.Safe
  | _ => False

theorem storeParts_safe (disp : BrokerDispatcher) {next : List Descriptor → Prog}
    (hnext : ∀ ds, (next ds).Safe) (parts : List (Option Json)) :
    ∀ ds, (disp.storeParts parts ds next).Safe := by
  induction parts with
  | nil => exact hnext
  | cons part rest ih =>
    intro ds
    rw [storeParts]
    cases disp.partAction part with
    | skip => exact ih ds
    | fail e => trivial
    | store content contentType => exact fun d => ih _

/-- **An observation saves the handle first**, and what follows is safe once it is saved. -/
theorem observe_opens (disp : BrokerDispatcher) (task : TaskResult) :
    (disp.observe task).Opens := by
  rw [observe]
  change Prog.Safe _
  by_cases hsettles : settles task.state = false
  · rw [if_pos hsettles]
    trivial
  rw [if_neg hsettles]
  intro current
  beta_reduce
  by_cases hfinal : current.state.Final
  · rw [if_pos hfinal]
    trivial
  rw [if_neg hfinal]
  by_cases hturned : task.state = "rejected" ∨ task.state = "input_required"
  · rw [if_pos hturned]
    exact ⟨by simp, fun _ _ h => (by cases h), trivial⟩
  rw [if_neg hturned]
  refine storeParts_safe disp ?_ _ _
  intro ds
  cases hstate : OpState.ofText? task.state with
  | none => trivial
  | some state =>
    refine ⟨?_, fun _ _ _ => rfl, trivial⟩
    rintro rfl
    rw [← OpState.text_of_ofText? hstate] at hsettles
    exact absurd hsettles (by decide)

theorem unknown_mild : unknown.Mild := ⟨rfl, rfl, trivial⟩

theorem sweep_mild : sweep.Mild := by
  intro s
  dsimp only
  split_ifs
  · exact unknown_mild
  · trivial

/-! ### Calls -/

/-- A failure that makes an observed result fail the operation. -/
def Failure.Settling (e : Failure) : Prop := ∃ b, e = .broker b ∧ b.code ∈ artifactCodes

theorem row_fails (k : Key) : Tx.Fails (fun e => ¬ e.Settling) (row k) := by
  refine Tx.Fails.bind (Tx.Fails.modifyGet _) fun L => ?_
  cases L.operation? k with
  | some r => exact Tx.Fails.pure r
  | none =>
    refine Tx.Fails.throw ?_
    rintro ⟨b, hb, hcode⟩
    obtain rfl := Failure.broker.inj hb
    exact absurd hcode (by decide)

theorem snapshot_fails (r : OperationRow) : Tx.Fails (fun e => ¬ e.Settling) (snapshot r) :=
  Tx.Fails.bind (Tx.Fails.refuse (by rintro ⟨b, hb, -⟩; cases hb)) fun _ =>
    Tx.Fails.bind (Tx.Fails.modifyGet _) fun _ =>
      Tx.Fails.bind (Tx.Fails.modifyGet _) fun _ => Tx.Fails.pure _

theorem event_fails (store : BrokerStore) (k : Key) :
    Tx.Fails (fun e => ¬ e.Settling) (store.event k) := by
  refine Tx.Fails.bind (row_fails k) fun r => Tx.Fails.bind (snapshot_fails r) fun snap =>
    Tx.Fails.bind (Tx.Fails.modifyGet _) fun L => ?_
  cases L.device? k.1 with
  | none => exact Tx.Fails.throw (by rintro ⟨b, hb, -⟩; cases hb)
  | some dev =>
    exact Tx.Fails.bind (Tx.Fails.refuse (by rintro ⟨b, hb, -⟩; cases hb)) fun _ =>
      Tx.Fails.bind (Tx.Fails.modifyGet _) fun _ =>
        Tx.Fails.bind (Tx.Fails.modifyGet _) fun _ => Tx.Fails.pure _

/-- `save_handle` does not fail in a way that settles the operation. -/
theorem saveHandle_fails (store : BrokerStore) (k : Key) (handle : String) :
    Tx.Fails (fun e => ¬ e.Settling) (store.saveHandle k handle) := by
  have hcode : ∀ code message status, code ∉ artifactCodes →
      ¬ (brokerError code message status).Settling := by
    rintro code message status hnot ⟨b, hb, hmem⟩
    obtain rfl := Failure.broker.inj hb
    exact hnot hmem
  refine Tx.Fails.bind (Tx.Fails.refuse (hcode _ _ _ (by decide))) fun _ =>
    Tx.Fails.bind (Tx.Fails.modifyGet _) fun _ => Tx.Fails.bind (row_fails k) fun r =>
      Tx.Fails.bind (Tx.Fails.refuse (hcode _ _ _ (by decide))) fun _ => Tx.Fails.ite ?_ ?_
  · exact Tx.Fails.pure ()
  · exact Tx.Fails.bind (Tx.Fails.modifyGet _) fun _ =>
      Tx.Fails.bind (Tx.Fails.refuse fun ⟨_, hb, _⟩ => by cases hb) fun _ =>
        Tx.Fails.bind (Tx.Fails.refuse fun ⟨_, hb, _⟩ => by cases hb) fun _ =>
          Tx.Fails.bind (Tx.Fails.modifyGet _) fun _ =>
            Tx.Fails.bind (event_fails store k) fun _ => Tx.Fails.pure _

section

variable {disp : BrokerDispatcher} {k : Key} {p p' : Prog} {tx : StoreTx Prog} {s s' : Session}
  {L L' : Ledger} {ks : List Key}

/-- After `save_handle` the operation has that handle, or is settled. -/
theorem handled_of_saveHandle {store : BrokerStore} {handle : String}
    (h : store.saveHandle k handle s = .ok ((), s')) :
    handle ≠ "" ∧ ∃ r, s'.ledger.operation? k = some r ∧
      (r.remoteTaskId = some handle ∨ r.state.Final) := by
  simp only [saveHandle, Tx.bind_eq_ok, Tx.refuse_eq_ok, row_eq_ok] at h
  obtain ⟨_, _, ⟨hvalid, -⟩, _, t, hdev, r, _, ⟨hr, rfl⟩, _, _, ⟨-, heq'⟩, h⟩ := h
  obtain ⟨-, rfl⟩ := Prod.mk.inj heq'
  refine ⟨fun hempty => hvalid (.inl hempty), ?_⟩
  split_ifs at h with hdone
  · obtain ⟨-, rfl⟩ := Prod.mk.inj (Tx.pure_eq_ok.mp h)
    exact ⟨r, hr, hdone⟩
  · simp only [Tx.bind_eq_ok, Tx.refuse_eq_ok, utcnow_eq_ok, writeLedger_eq_ok, Tx.pure_eq_ok] at h
    obtain ⟨now, _, ⟨-, rfl⟩, _, _, ⟨-, heq⟩, _, _, ⟨-, heq'⟩, _, _, rfl, snap, u, hevent, hret⟩ :=
      h
    obtain ⟨-, rfl⟩ := Prod.mk.inj heq
    obtain ⟨-, rfl⟩ := Prod.mk.inj heq'
    obtain ⟨-, rfl⟩ := Prod.mk.inj hret
    obtain ⟨r', dev, expires, hr', -, -, rfl⟩ := event_eq_ok hevent
    refine ⟨r', hr', .inl ?_⟩
    have hedit : some r' = some (handledRow r handle now) := by
      have hlook :=
        operation?_updateOperation (L := t.ledger) (f := fun r => handledRow r handle now)
        (fun _ => rfl) k k
      rw [if_pos rfl, hr] at hlook
      exact hr'.symm.trans hlook
    obtain rfl := Option.some.inj hedit
    rfl

theorem saved_of_saveHandle {store : BrokerStore} {handle : String}
    (h : store.saveHandle k handle s = .ok ((), s')) : Saved s'.ledger k := by
  obtain ⟨-, r, hr, hhandle⟩ := handled_of_saveHandle h
  exact ⟨r, hr, hhandle.imp_left fun hsome => by simp [hsome]⟩

/-- What a call may be made for: a safe coroutine of an operation with a handle, one that opens by
saving it, or one that records unknown outcomes only. -/
def Prog.Ok (L : Ledger) (k : Key) (p : Prog) : Prop := Saved L k ∧ p.Safe ∨ p.Opens ∨ p.Mild

theorem Prog.Ok.of_trace {R : Time → Time → Prop} {P : Ledger → OperationRow → Edit → Prop}
    (h : p.Ok L k) (hmoves : Trace (Move R P) L ks L') : p.Ok L' k :=
  h.imp_left fun h => ⟨h.1.of_trace hmoves, h.2⟩

/-- The moves of the broker, whatever its clock does. -/
abbrev BrokerMoves (late : Prop) (L : Ledger) (ks : List Key) (L' : Ledger) : Prop :=
  Trace (Move (fun _ _ => True) (Known late)) L ks L'

theorem brokerMoves_of_publishes {late : Prop}
    (h : Publishes (fun _ _ => True) (Known late) ks s s') :
    ∃ ks', BrokerMoves late s.ledger ks' s'.ledger := by
  obtain ⟨-, ks', -, htrace⟩ := h fun _ _ _ => trivial
  exact ⟨ks', htrace⟩

/-- Finishing a claimed operation is disciplined when it records an unknown outcome without a
result, or a definitive one after the handle was saved. -/
theorem known_finish {late : Prop} {r : OperationRow} {state : OpState}
    {result : Option ResultBody} {code : Option ErrorCode} {message : Option String}
    {expires : Option Time} {fresh : Uuid} {now : Time} (hclaimed : r.state ≠ .accepted)
    (hunknown : state = .outcomeUnknown → result = none)
    (hsaved : state.Final → r.remoteTaskId ≠ none) (hunmixed : Unmixed result code) :
    Known late L r (.finish state result code message expires fresh now) :=
  ⟨⟨fun h => absurd h hclaimed, hunknown, fun h _ => hsaved h, hunmixed⟩, fun _ _ h => by cases h⟩

/-- So is canceling or failing an operation that was never claimed. -/
theorem known_unclaimed {late : Prop} {r : OperationRow} {state : OpState}
    {code : Option ErrorCode} {message : Option String} {expires : Option Time} {fresh : Uuid}
    {now : Time} (haccepted : r.state = .accepted) (hstate : state = .canceled ∨ state = .failed) :
    Known late L r (.finish state none code message expires fresh now) :=
  ⟨⟨fun _ => ⟨hstate, rfl⟩, fun _ => rfl, fun _ h => absurd haccepted h, unmixed_none code⟩,
    fun _ _ h => by cases h⟩

/-- The row of a submitted operation has been claimed. -/
theorem Submitted.claimed {r : OperationRow} (h : Submitted L k) (hr : L.operation? k = some r) :
    r.state ≠ .accepted := by
  obtain ⟨r', hr', hstate⟩ := h
  obtain rfl := Option.some.inj (hr'.symm.trans hr)
  exact hstate

/-- The row of a saved operation that is not settled has a handle. -/
theorem Saved.handle {r : OperationRow} (h : Saved L k) (hr : L.operation? k = some r)
    (hfinal : ¬ r.state.Final) : r.remoteTaskId ≠ none := by
  obtain ⟨r', hr', hsaved⟩ := h
  obtain rfl := Option.some.inj (hr'.symm.trans hr)
  exact hsaved.resolve_right hfinal

theorem Submitted.congr (h : Submitted L k) (hops : L'.operations = L.operations) :
    Submitted L' k := by
  obtain ⟨r, hr, hstate⟩ := h
  exact ⟨r, by rw [Ledger.operation?, hops]; exact hr, hstate⟩

theorem Saved.congr (h : Saved L k) (hops : L'.operations = L.operations) : Saved L' k := by
  obtain ⟨r, hr, hsaved⟩ := h
  exact ⟨r, by rw [Ledger.operation?, hops]; exact hr, hsaved⟩

/-- A coroutine makes its call, and goes on with what the call returned. -/
inductive Prog.Commits (disp : BrokerDispatcher) (k : Key) (s s' : Session) : Prog → Prog → Prop
  | saveHandle {handle : String} {next : Prog}
      (h : disp.store.saveHandle k handle s = .ok ((), s')) :
      Commits disp k s s' (.saveHandle handle next) next
  | get {next : Snapshot → Prog} {snap : Snapshot} (h : BrokerStore.get k s = .ok (snap, s')) :
      Commits disp k s s' (.get next) (next snap)
  | putArtifact {content : ByteArray} {digest contentType : String} {next : Descriptor → Prog}
      {d : Descriptor} (h : disp.store.putArtifact k.1 content digest contentType s = .ok (d, s')) :
      Commits disp k s s' (.putArtifact content digest contentType next) (next d)
  | finish {state : OpState} {result : Option ResultBody} {code : Option ErrorCode}
      {message : Option String} {next : Prog} {snap : Snapshot}
      (h : disp.store.finish k state result code message s = .ok (snap, s')) :
      Commits disp k s s' (.finish state result code message next) next

theorem commits_of_call (hcall : disp.call k p = some tx) (htx : tx s = .ok (p', s')) :
    Prog.Commits disp k s s' p p' := by
  cases p with
  | done | raise => cases hcall
  | saveHandle handle next =>
    obtain rfl := Option.some.inj hcall
    obtain ⟨_, h, rfl⟩ := Tx.map_eq_ok.mp htx
    exact .saveHandle h
  | get next =>
    obtain rfl := Option.some.inj hcall
    obtain ⟨snap, h, rfl⟩ := Tx.map_eq_ok.mp htx
    exact .get h
  | putArtifact content digest contentType next =>
    obtain rfl := Option.some.inj hcall
    obtain ⟨d, h, rfl⟩ := Tx.map_eq_ok.mp htx
    exact .putArtifact h
  | finish state result code message next =>
    obtain rfl := Option.some.inj hcall
    obtain ⟨snap, h, rfl⟩ := Tx.map_eq_ok.mp htx
    exact .finish h

/-- The call of a coroutine fails. -/
inductive Prog.Breaks (disp : BrokerDispatcher) (k : Key) (s : Session) (e : Failure) : Prog → Prop
  | saveHandle {handle : String} {next : Prog}
      (h : disp.store.saveHandle k handle s = .error e) :
      Breaks disp k s e (.saveHandle handle next)
  | get {next : Snapshot → Prog} (h : BrokerStore.get k s = .error e) :
      Breaks disp k s e (.get next)
  | putArtifact {content : ByteArray} {digest contentType : String} {next : Descriptor → Prog}
      (h : disp.store.putArtifact k.1 content digest contentType s = .error e) :
      Breaks disp k s e (.putArtifact content digest contentType next)
  | finish {state : OpState} {result : Option ResultBody} {code : Option ErrorCode}
      {message : Option String} {next : Prog}
      (h : disp.store.finish k state result code message s = .error e) :
      Breaks disp k s e (.finish state result code message next)

theorem breaks_of_call {e : Failure} (hcall : disp.call k p = some tx) (htx : tx s = .error e) :
    Prog.Breaks disp k s e p := by
  cases p with
  | done | raise => cases hcall
  | saveHandle handle next =>
    obtain rfl := Option.some.inj hcall
    exact .saveHandle (Tx.map_eq_error.mp htx)
  | get next =>
    obtain rfl := Option.some.inj hcall
    exact .get (Tx.map_eq_error.mp htx)
  | putArtifact content digest contentType next =>
    obtain rfl := Option.some.inj hcall
    exact .putArtifact (Tx.map_eq_error.mp htx)
  | finish state result code message next =>
    obtain rfl := Option.some.inj hcall
    exact .finish (Tx.map_eq_error.mp htx)

/-- **One call of a coroutine** makes disciplined moves, and what is left of the coroutine may go
on. -/
theorem call_disciplined (hsub : Submitted s.ledger k) (hok : p.Ok s.ledger k)
    (hcall : disp.call k p = some tx) (htx : tx s = .ok (p', s')) :
    (∃ ks, BrokerMoves (Act.Late s.ledger (.call k p)) s.ledger ks s'.ledger) ∧
      (p.Opens → Saved s'.ledger k ∧ p'.Safe) ∧ (p.Safe → p'.Safe) ∧ (p.Mild → p'.Mild) := by
  cases commits_of_call hcall htx with
  | saveHandle hsave =>
    refine ⟨brokerMoves_of_publishes (saveHandle_publishes ?_ hsave),
      fun h => ⟨saved_of_saveHandle hsave, h⟩, id, fun h => h.elim⟩
    intro L r now hops hr hallowed
    refine ⟨(hsub.congr hops).claimed hr, fun handle' now' heq hstate => ?_⟩
    refine ⟨r, ?_, hstate, ?_⟩
    · rw [Ledger.operation?, ← hops]
      exact hr
    · rcases hallowed.2.1 with h | h <;> simp [h]
  | @get next snap hget =>
    exact ⟨brokerMoves_of_publishes (get_publishes hget), fun h => h.elim, fun h => h snap,
      fun h => h snap⟩
  | @putArtifact content digest contentType next d hput =>
    exact ⟨brokerMoves_of_publishes (putArtifact_publishes hput), fun h => h.elim, fun h => h d,
      fun h => h.elim⟩
  | finish hfin =>
    refine ⟨brokerMoves_of_publishes (finish_publishes ?_ hfin), fun h => h.elim, fun h => h.2.2,
      fun h => h.2.2⟩
    intro L r expires fresh now hops hr hfinal _
    have hclaimed := (hsub.congr hops).claimed hr
    rcases hok with ⟨hsaved, hunknown, hunmixed, -⟩ | hopens | ⟨rfl, rfl, -⟩
    · have hhandle := (hsaved.congr hops).handle hr hfinal
      exact ⟨known_finish hclaimed hunknown (fun _ => hhandle) hunmixed,
        fun _ => known_finish hclaimed (by simp) (fun _ => hhandle) (unmixed_none _)⟩
    · exact hopens.elim
    · exact ⟨known_finish hclaimed (fun _ => rfl) (fun h => absurd h (by decide)) (unmixed_none _),
        fun h => absurd rfl h⟩

end

/-! ### Tasks -/

/-- What is known of where a task of operation `k` is. -/
def Phase.Ok (L : Ledger) (k : Key) : Phase → Prop
  | .created | .waiting | .queued _ => True
  | .observing _ p => Saved L k ∧ p.Safe ∨ p.Opens ∨ ∃ e, p = .raise e ∧ ¬ e.Settling
  | .ending p => p.Mild
  | .settling p => Saved L k ∧ p.Safe ∨ p.Mild

/-- What is known of a task: its operation was claimed, and has a handle unless the task is the
one that submits it. -/
structure Task.Ok (L : Ledger) (t : Task) : Prop where
  submitted : Submitted L t.key
  saved : t.job ≠ .submit → Saved L t.key
  phase : t.phase.Ok L t.key

section

variable {disp : BrokerDispatcher} {L L' : Ledger} {ks : List Key} {k : Key} {t : Task}

theorem Phase.Ok.prog {terminal : Bool} {p : Prog} (h : (Phase.observing terminal p).Ok L k) :
    p.Ok L k := by
  rcases h with h | h | ⟨e, rfl, -⟩
  · exact .inl h
  · exact .inr (.inl h)
  · exact .inr (.inr trivial)

theorem Phase.Ok.settling_prog {p : Prog} (h : (Phase.settling p).Ok L k) : p.Ok L k :=
  h.imp_right .inr

section

variable {R : Time → Time → Prop} {P : Ledger → OperationRow → Edit → Prop}

theorem Phase.Ok.of_trace {phase : Phase} (h : phase.Ok L k) (hmoves : Trace (Move R P) L ks L') :
    phase.Ok L' k := by
  cases phase with
  | created | waiting | queued => trivial
  | observing => exact h.imp_left fun h => ⟨h.1.of_trace hmoves, h.2⟩
  | ending => exact h
  | settling => exact h.imp_left fun h => ⟨h.1.of_trace hmoves, h.2⟩

theorem Task.Ok.of_trace (h : t.Ok L) (hmoves : Trace (Move R P) L ks L') : t.Ok L' :=
  ⟨h.submitted.of_trace hmoves, fun hjob => (h.saved hjob).of_trace hmoves, h.phase.of_trace hmoves⟩

end

/-- A task that goes on in another phase. -/
theorem Task.Ok.next (h : t.Ok L) {phase : Phase} (hphase : phase.Ok L t.key) :
    Task.Ok L { t with phase := phase } :=
  ⟨h.submitted, h.saved, hphase⟩

/-- What an exception handler does is right: it fails an operation only for what was wrong with a
result, and then the handle was saved before. -/
theorem handler_ok (ht : t.Ok L) {terminal : Bool} {e : Failure}
    (hsaved : terminal = true → e.Settling → Saved L t.key) :
    (Phase.settling (t.job.handler terminal e)).Ok L t.key := by
  cases hjob : t.job with
  | submit =>
    cases e with
    | database => exact .inr trivial
    | other => exact .inr unknown_mild
    | broker e =>
      simp only [Job.handler]
      split_ifs with hterminal
      · exact .inl ⟨hsaved hterminal.1 ⟨e, rfl, hterminal.2⟩, by simp, unmixed_none _, trivial⟩
      · exact .inr unknown_mild
  | reconcile handle =>
    have hhandle := ht.saved (by simp [hjob])
    cases e with
    | database => exact .inr trivial
    | other => exact .inr trivial
    | broker e =>
      simp only [Job.handler]
      split_ifs
      · exact .inl ⟨hhandle, by simp, unmixed_none _, trivial⟩
      · exact .inr trivial
  | cancel handle => cases e <;> exact .inr trivial

/-- **One transition of a task** makes disciplined moves and leaves tasks and calls that are right
again. -/
theorem TaskStep.disciplined {others new : List Task} {p : Option Prog}
    {orphans : List (Key × Prog)} {rpcs : List Rpc} (ht : t.Ok L)
    (h : TaskStep disp others L t p L' new orphans rpcs) :
    (∃ ks, BrokerMoves (Act.Late L ((p.map (Act.call t.key)).getD .silent)) L ks L') ∧
      (∀ t' ∈ new, t'.Ok L') ∧ ∀ x ∈ orphans, x.1 = t.key ∧ x.2.Ok L' t.key := by
  have hphase := ht.phase
  have quiet : ∀ {late : Prop}, ∃ ks, BrokerMoves late L ks L := ⟨[], Trace.nil⟩
  cases h with
  | start hp | receive hp =>
    refine ⟨quiet, fun t' ht' => ?_, by simp⟩
    rw [List.mem_singleton.mp ht']
    exact ht.next trivial
  | fail hp =>
    refine ⟨quiet, fun t' ht' => ?_, by simp⟩
    rw [List.mem_singleton.mp ht']
    exact ht.next (handler_ok ht fun hfalse => by cases hfalse)
  | eof hp hjob =>
    refine ⟨quiet, fun t' ht' => ?_, by simp⟩
    rw [List.mem_singleton.mp ht']
    exact ht.next unknown_mild
  | dismiss | abort | finish => exact ⟨quiet, by simp, by simp⟩
  | @lock result hp hfree =>
    refine ⟨quiet, fun t' ht' => ?_, by simp⟩
    rw [List.mem_singleton.mp ht']
    exact ht.next (.inr (.inl (observe_opens disp result)))
  | @commit terminal p p' tx clock uuids s' hp hcall htx =>
    rw [hp] at hphase
    obtain ⟨⟨ks, hmoves⟩, hopens, hsafe, -⟩ := call_disciplined ht.submitted hphase.prog hcall htx
    refine ⟨⟨ks, hmoves⟩, fun t' ht' => ?_, by simp⟩
    rw [List.mem_singleton.mp ht']
    refine (ht.of_trace hmoves).next ?_
    rcases hphase with ⟨hsaved, h⟩ | h | ⟨e, rfl, -⟩
    · exact .inl ⟨hsaved.of_trace hmoves, hsafe h⟩
    · exact .inl (hopens h)
    · cases hcall
  | @commitEnding p p' tx clock uuids s' hp hcall htx =>
    rw [hp] at hphase
    obtain ⟨⟨ks, hmoves⟩, -, -, hmild⟩ :=
      call_disciplined ht.submitted (.inr (.inr hphase)) hcall htx
    refine ⟨⟨ks, hmoves⟩, fun t' ht' => ?_, by simp⟩
    rw [List.mem_singleton.mp ht']
    exact (ht.of_trace hmoves).next (hmild hphase)
  | @settle p p' tx clock uuids s' hp hcall htx =>
    rw [hp] at hphase
    obtain ⟨⟨ks, hmoves⟩, -, hsafe, hmild⟩ :=
      call_disciplined ht.submitted hphase.settling_prog hcall htx
    refine ⟨⟨ks, hmoves⟩, fun t' ht' => ?_, by simp⟩
    rw [List.mem_singleton.mp ht']
    exact (ht.of_trace hmoves).next (hphase.imp (fun h => ⟨h.1.of_trace hmoves, hsafe h.2⟩) hmild)
  | @refuse terminal p tx clock uuids e hp hcall htx =>
    rw [hp] at hphase
    refine ⟨quiet, fun t' ht' => ?_, by simp⟩
    rw [List.mem_singleton.mp ht']
    refine ht.next ?_
    rcases hphase with ⟨hsaved, -⟩ | h | ⟨e, rfl, -⟩
    · exact .inl ⟨hsaved, trivial⟩
    · -- the call that failed is `save_handle`, which does not fail in a settling way
      refine .inr (.inr ⟨e, rfl, ?_⟩)
      rcases htx with htx | rfl
      · cases breaks_of_call hcall htx with
        | @saveHandle handle next herror =>
          exact saveHandle_fails disp.store t.key handle _ _ herror
        | _ => exact h.elim
      · rintro ⟨b, hb, -⟩
        cases hb
    · cases hcall
  | refuseEnding hp =>
    refine ⟨quiet, fun t' ht' => ?_, by simp⟩
    rw [List.mem_singleton.mp ht']
    exact ht.next (handler_ok ht fun hfalse => by cases hfalse)
  | observed hp =>
    refine ⟨quiet, fun t' ht' => ?_, by simp⟩
    split_ifs at ht'
    · rw [List.mem_singleton.mp ht']
      exact ht.next trivial
    · exact absurd ht' List.not_mem_nil
  | @handle terminal e hp =>
    rw [hp] at hphase
    refine ⟨quiet, fun t' ht' => ?_, by simp⟩
    rw [List.mem_singleton.mp ht']
    refine ht.next (handler_ok ht fun _ hsettling => ?_)
    rcases hphase with ⟨hsaved, -⟩ | h | ⟨e', he, hnot⟩
    · exact hsaved
    · exact h.elim
    · obtain rfl := Prog.raise.inj he
      exact absurd hsettling hnot
  | deadline =>
    refine ⟨quiet, fun t' ht' => ?_, by simp⟩
    rw [List.mem_singleton.mp ht']
    exact ht.next (.inr unknown_mild)
  | @deadlineInCall terminal p hjob hp =>
    rw [hp] at hphase
    refine ⟨quiet, fun t' ht' => ?_, fun x hx => ?_⟩
    · rw [List.mem_singleton.mp ht']
      exact ht.next (.inr unknown_mild)
    · rw [List.mem_singleton.mp hx]
      exact ⟨rfl, hphase.prog⟩

end

end HermesGateway.Broker
