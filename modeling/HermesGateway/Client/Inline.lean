import HermesGateway.Client.Inbox

/-!
# Waiting for a result in line

`submit` creates its operation and waits for the result, and a submit call with the same native
identity finds the operation and waits as well. All that says whether the result still belongs to a
call is the delivery state of the operation: it is `inline_pending` from the first call to the end
of the first wait, whichever call that is, and a later call does not set it again.

So the result belongs to the calls that wait as long as the first of them to end is the last, or
has a result to return. A call that ends without one while another waits makes the operation
`ready`, and so does the one wait that ended before a call came again.

## Main definitions

* `ClientStore.waitPass`, `ClientStore.submitPass`, `ClientStore.submitStart` — `submit` and `wait`,
  from await to await
* `Service`, `Service.Step` — the daemon and the submit calls that wait
* `Service.Orderly` — the steps that leave the result to the calls that wait
* `Service.Owned` — what a wait is promised

## Main results

* `Service.Step.inv` — every orderly step keeps the invariant
* `inline_owned` — every run of orderly steps keeps the promise
* `released_under_a_wait` — a run that breaks it
-/

namespace HermesGateway.Client

open ClientStore

/-! ### The coroutine -/

namespace ClientStore

/-- What ends a wait before its deadline. -/
def View.Ends (v : View) : Prop :=
  truthy (member "result_id" v.snapshot) = true ∨
    v.submissionState ∈ [.rejected, .payloadKeyUnavailable]

instance (v : View) : Decidable v.Ends := inferInstanceAs (Decidable (_ ∨ _))

/-- One pass of the loop of `wait`: what it returns, or `none` if it goes on. -/
def waitPass (op : Uuid) (origin : NativeOrigin) (deadline now : Time) :
    ClientTx (Option View) := do
  let result ← view op origin false
  if result.Ends ∨ deadline ≤ now then
    let shown ← view op origin true
    return some shown
  else return none

/-- The same inside `submit`, which releases the operation when the wait is over. -/
def submitPass (op : Uuid) (origin : NativeOrigin) (deadline now : Time) :
    ClientTx (Option View) := do
  match ← waitPass op origin deadline now with
  | none => return none
  | some shown =>
    releaseInline op
    return some shown

variable (store : ClientStore)

/-- `submit` up to its first await; the loop reads its clock when the wait begins and in its first
pass. -/
def submitStart (origin : NativeOrigin) (prompt : String) (artifactIds : List String) (wait : ℕ)
    (begin now : Time) : ClientTx (Uuid × Option View) := do
  Tx.refuse (seconds 60 < wait)
    (.value "wait_seconds must be a finite number from 0 to 60 seconds.")
  Tx.refuse (prompt.toList.all isSpace ∨ 262144 < prompt.utf8ByteSize)
    (.value "prompt must contain 1..262144 UTF-8 bytes.")
  Tx.refuse (16 < artifactIds.length)
    (.value "artifact_ids must be a list of at most 16 UUIDs.")
  Tx.refuse (∃ a ∈ artifactIds, nativeUuid a = none) (.value "Each artifact_id must be a UUID.")
  let op ← store.create origin prompt artifactIds wait
  let shown ← submitPass op origin (begin + wait) now
  return (op, shown)

end ClientStore

/-! ### The daemon and the calls that wait -/

/-- A submit call inside its wait. -/
structure Waiter where
  operation : Uuid
  origin : NativeOrigin
  deadline : Time

/-- The daemon with its submit calls that wait. `answers` is a ghost: what calls that had waited
have returned. -/
structure Service where
  daemon : Daemon
  waiters : List Waiter
  answers : List (Uuid × View)

/-- Before anything is submitted. -/
def Service.initial : Service := ⟨Daemon.initial, [], []⟩

/-- The calls that only `submit` makes. -/
def Call.OfSubmit : Call → Prop
  | .create .. | .releaseInline _ => True
  | .view .. | .markSubmission .. | .cancelState .. | .receiptSent _ | .prune => False

/-- What a step means for the calls that wait. -/
inductive Service.Act
  /-- A submit call begins to wait. -/
  | enter (op : Uuid)
  /-- A submit call ends, and these calls go on waiting. -/
  | leave (op : Uuid) (others : List Waiter) (cut : Bool)
  | other

/-- The daemon with other tables. -/
def Daemon.withTables (D : Daemon) (T : Tables) : Daemon := { D with tables := T }

/-- The service with other tables. -/
def Service.withTables (S : Service) (T : Tables) : Service :=
  { S with daemon := S.daemon.withTables T }

/-- One step. -/
inductive Service.Step (store : ClientStore) : Service → Service.Act → Service → Prop
  /-- A submit call comes to its first await. -/
  | enter {S : Service} {origin : NativeOrigin} {prompt : String} {artifactIds : List String}
      {wait : ℕ} {begin now : Time} {op : Uuid} {clock : ℕ → Time} {uuids : ℕ → Uuid} {s' : Session}
      (h : store.submitStart origin prompt artifactIds wait begin now
        ⟨S.daemon.tables, clock, uuids⟩ = .ok ((op, none), s')) :
      Service.Step store S (.enter op)
        ⟨S.daemon.withTables s'.tables, S.waiters ++ [⟨op, origin, begin + wait⟩], S.answers⟩
  /-- A submit call returns at once. -/
  | pass {S : Service} {origin : NativeOrigin} {prompt : String} {artifactIds : List String}
      {wait : ℕ} {begin now : Time} {op : Uuid} {shown : View} {clock : ℕ → Time} {uuids : ℕ → Uuid}
      {s' : Session} (h : store.submitStart origin prompt artifactIds wait begin now
        ⟨S.daemon.tables, clock, uuids⟩ = .ok ((op, some shown), s')) :
      Service.Step store S (.leave op S.waiters false) (S.withTables s'.tables)
  /-- A call that waits looks again, and goes on waiting. -/
  | look {S : Service} {w : Waiter} {now : Time} {clock : ℕ → Time} {uuids : ℕ → Uuid}
      {s' : Session} (hw : w ∈ S.waiters)
      (h : submitPass w.operation w.origin w.deadline now ⟨S.daemon.tables, clock, uuids⟩ =
        .ok (none, s')) :
      Service.Step store S .other (S.withTables s'.tables)
  /-- It looks again, and returns. -/
  | answer {S : Service} {before after : List Waiter} {w : Waiter} {now : Time} {shown : View}
      {clock : ℕ → Time} {uuids : ℕ → Uuid} {s' : Session} (hw : S.waiters = before ++ w :: after)
      (h : submitPass w.operation w.origin w.deadline now ⟨S.daemon.tables, clock, uuids⟩ =
        .ok (some shown, s')) :
      Service.Step store S (.leave w.operation (before ++ after) false)
        ⟨S.daemon.withTables s'.tables, before ++ after, S.answers ++ [(w.operation, shown)]⟩
  /-- It is cancelled. -/
  | cut {S : Service} {before after : List Waiter} {w : Waiter} {clock : ℕ → Time}
      {uuids : ℕ → Uuid}
      {s' : Session} (hw : S.waiters = before ++ w :: after)
      (h : releaseInline w.operation ⟨S.daemon.tables, clock, uuids⟩ = .ok ((), s')) :
      Service.Step store S (.leave w.operation (before ++ after) true)
        ⟨S.daemon.withTables s'.tables, before ++ after, S.answers⟩
  /-- Another coroutine makes a call. -/
  | call {S : Service} {c : Call} {clock : ℕ → Time} {uuids : ℕ → Uuid} {s' : Session}
      (hc : ¬ c.OfSubmit) (h : store.perform c ⟨S.daemon.tables, clock, uuids⟩ = .ok ((), s')) :
      Service.Step store S .other (S.withTables s'.tables)
  /-- The worker of `deliver_ready` goes on. -/
  | work {S : Service} {D : Daemon} (h : Daemon.Work store S.daemon D)
      (hworker : D.worker ≠ S.daemon.worker) : Service.Step store S .other { S with daemon := D }
  /-- A snapshot is ingested, by any coroutine. -/
  | ingest {S : Service} {v : Json} {seq : Option ℤ} {expected : Option Uuid} {clock : ℕ → Time}
      {uuids : ℕ → Uuid} {s' : Session} (hv : v.Keyed)
      (h : store.ingest v seq expected ⟨S.daemon.tables, clock, uuids⟩ = .ok ((), s')) :
      Service.Step store S .other (S.withTables s'.tables)
  /-- The event reader moves the cursor past a gap. -/
  | advance {S : Service} {seq : ℤ} {clock : ℕ → Time} {uuids : ℕ → Uuid} {s' : Session}
      (h : ClientStore.advance seq ⟨S.daemon.tables, clock, uuids⟩ = .ok ((), s')) :
      Service.Step store S .other (S.withTables s'.tables)
  /-- The daemon dies with its calls, and another one starts. -/
  | restart {S : Service} {supported : Bool} {clock : ℕ → Time} {uuids : ℕ → Uuid} {s' : Session}
      (h : startup ⟨S.daemon.tables, clock, uuids⟩ = .ok ((), s')) :
      Service.Step store S .other
        ⟨{ S.daemon with
            tables := s'.tables
            worker := .idle
            supported := supported
            reconciled := [] }, [], S.answers⟩

/-! ### The promise and its condition -/

namespace Service

/-- The step claims an operation for native delivery. -/
def Claims (S S' : Service) (op : Uuid) : Prop :=
  S'.daemon.worker ≠ S.daemon.worker ∧
    ∃ r snapshot todo, S'.daemon.worker = .claimed op r snapshot todo

/-- An operation is there that is not expired and has a definitive result. -/
def HasResult (S : Service) (op : Uuid) (v : Json) : Prop :=
  ∃ r, S.daemon.tables.operation? op = some r ∧ r.expired = false ∧ r.snapshot = some v ∧
    Deliverable v

/-- What a wait is promised. -/
structure Owned (store : ClientStore) (S : Service) : Prop where
  /-- No operation is claimed that a submit call waits for. -/
  unclaimed : ∀ act S' op, Service.Step store S act S' → S.Claims S' op →
    ∀ w ∈ S.waiters, w.operation ≠ op
  /-- A call whose result is there returns it when it looks next. -/
  inline : ∀ w ∈ S.waiters, ∀ v, S.HasResult w.operation v → ∀ now clock uuids, ∃ shown s',
    submitPass w.operation w.origin w.deadline now ⟨S.daemon.tables, clock, uuids⟩ =
      .ok (some shown, s') ∧ shown.snapshot = v ∧
      s'.tables.delivery? w.operation = some .inlineReturned
  /-- What a call returned is never queued. -/
  unqueued : ∀ a ∈ S.answers, Deliverable a.2.snapshot → a.2.resultExpired = false →
    S.daemon.tables.delivery? a.1 = some .inlineReturned ∧ S.daemon.count a.1 = 0

/-- An operation that was released is left to the native queue. -/
def Free (S : Service) (op : Uuid) : Prop :=
  ∃ r, S.daemon.tables.operation? op = some r ∧ r.expired = false ∧ r.deliveryState = .ready

/-- The step leaves the result to the calls that wait: none begins to wait for an operation that was
released, and one that ends while others wait has a result to return. -/
def Orderly (S : Service) : Act → Prop
  | .enter op => ¬ S.Free op
  | .leave op others cut => (∃ w ∈ others, w.operation = op) →
      (∃ r, S.daemon.tables.operation? op = some r ∧
        (r.expired = true ∨ r.deliveryState ≠ .inlinePending)) ∨
      cut = false ∧ ∃ v, S.HasResult op v
  | .other => True

/-- Runs of orderly steps. -/
abbrev OrderlyRun (store : ClientStore) : Service → Service → Prop :=
  Relation.ReflTransGen fun S S' => ∃ act, Service.Step store S act S' ∧ S.Orderly act

end Service

/-! ### What a pass does -/

/-- The row `release_inline` leaves. -/
def releasedRow (r : ClientRow) : ClientRow :=
  if r.deliveryState = .inlinePending then { r with inlineDeadline := 0, deliveryState := .ready }
  else r

/-- The row `view` leaves when it hands on a result. -/
def returnedRow (r : ClientRow) : ClientRow := { r with deliveryState := .inlineReturned }

/-- The call hands on the result of the row. -/
def Consumes (r : ClientRow) (v : Json) : Prop :=
  Deliverable v ∧ r.expired = false ∧ r.deliveryState ∈ [.inlinePending, .ready, .unsupported]

section

variable {store : ClientStore} {s s' : Session} {op : Uuid} {origin : NativeOrigin} {r : ClientRow}

theorem view_eq_ok {consume : Bool} {shown : View}
    (h : view op origin consume s = .ok (shown, s')) :
    ∃ r, s.tables.operation? op = some r ∧ shown.snapshot = r.snapshot.getD (placeholder r) ∧
      shown.resultExpired = r.expired ∧ shown.submissionState = r.submissionState ∧
      (consume = true ∧ Consumes r shown.snapshot ∧
          s'.tables.operations = (s.tables.update op returnedRow).operations ∨
        ¬ (consume = true ∧ Consumes r shown.snapshot) ∧
          s'.tables.operations = s.tables.operations) := by
  simp only [view, Tx.bind_eq_ok, row_eq_ok] at h
  obtain ⟨r, _, ⟨hr, -, rfl⟩, h⟩ := h
  split_ifs at h with hconsume hstate
  · simp only [Tx.bind_eq_ok, writeTables_eq_ok, Tx.pure_eq_ok] at h
    obtain ⟨_, _, rfl, _, _, rfl, hret⟩ := h
    obtain ⟨rfl, rfl⟩ := Prod.mk.inj hret
    refine ⟨r, hr, rfl, rfl, rfl, .inl ⟨hconsume.1, ⟨hconsume.2.1, hconsume.2.2, hstate⟩, ?_⟩⟩
    exact operations_receiptOf _ _
  · simp only [Tx.bind_eq_ok, writeTables_eq_ok, Tx.pure_eq_ok] at h
    obtain ⟨_, _, rfl, hret⟩ := h
    obtain ⟨rfl, rfl⟩ := Prod.mk.inj hret
    exact ⟨r, hr, rfl, rfl, rfl, .inr ⟨fun hc => hstate hc.2.2.2, operations_receiptOf _ _⟩⟩
  · obtain ⟨rfl, rfl⟩ := Prod.mk.inj (Tx.pure_eq_ok.mp h)
    exact ⟨r, hr, rfl, rfl, rfl, .inr ⟨fun hc => hconsume ⟨hc.1, hc.2.1, hc.2.2.1⟩, rfl⟩⟩

/-- A call of the thread of an operation is shown its row. -/
theorem view_of_row (hr : s.tables.operation? op = some r)
    (horigin : r.origin.threadId = origin.threadId) (consume : Bool) :
    ∃ shown s', view op origin consume s = .ok (shown, s') := by
  have hrow : row op (some origin) s = .ok (r, s) :=
    row_eq_ok.mpr ⟨hr, fun o ho => Option.some.inj ho ▸ horigin, rfl⟩
  rw [view, Tx.bind_of_ok hrow]
  split_ifs <;> exact ⟨_, _, rfl⟩

theorem releaseInline_eq_ok {x : Unit × Session} (h : releaseInline op s = .ok x) :
    x.2.tables = s.tables.update op releasedRow := by
  rw [releaseInline, writeTables_eq_ok] at h
  rw [← h]
  rfl

theorem not_deliverable_placeholder (r : ClientRow) : ¬ Deliverable (placeholder r) :=
  fun h => Bool.false_ne_true h.1

/-- Only a stored result is handed on. -/
theorem Consumes.stored (h : Consumes r (r.snapshot.getD (placeholder r))) :
    ∃ v, r.snapshot = some v ∧ Consumes r v := by
  cases hv : r.snapshot with
  | none =>
    rw [hv] at h
    exact absurd h.1 (not_deliverable_placeholder r)
  | some v => exact ⟨v, rfl, by rwa [hv] at h⟩

theorem update_update {T : Tables} {f g h : ClientRow → ClientRow} (hgf : ∀ r, g (f r) = h r)
    (hf : ∀ r, (f r).operationId = r.operationId) :
    ((T.update op f).update op g).operations = (T.update op h).operations := by
  refine List.map_map.trans (List.map_congr_left fun r _ => ?_)
  by_cases hop : r.operationId = op
  · simp [hop, hf, hgf]
  · simp [hop]

/-- What a pass leaves, and what it returns. -/
inductive OnePass (T T' : Tables) (op : Uuid) : Option View → Prop
  | waits {r : ClientRow} (hr : T.operation? op = some r)
      (hnone : truthy (member "result_id" (r.snapshot.getD (placeholder r))) = false)
      (h : T'.operations = T.operations) : OnePass T T' op none
  | returns {r : ClientRow} {v : Json} {shown : View} (hr : T.operation? op = some r)
      (hv : r.snapshot = some v) (hc : Consumes r v) (hshown : shown.snapshot = v)
      (h : T'.operations = (T.update op returnedRow).operations) : OnePass T T' op (some shown)
  | releases {r : ClientRow} {shown : View} (hr : T.operation? op = some r)
      (hshown : shown.snapshot = r.snapshot.getD (placeholder r))
      (hexpired : shown.resultExpired = r.expired) (hc : ¬ Consumes r shown.snapshot)
      (h : T'.operations = (T.update op releasedRow).operations) : OnePass T T' op (some shown)

theorem submitPass_eq_ok {deadline now : Time} {x : Option View}
    (h : submitPass op origin deadline now s = .ok (x, s')) : OnePass s.tables s'.tables op x := by
  obtain ⟨y, t, hpass, h⟩ := Tx.bind_eq_ok.mp h
  obtain ⟨result, u, hfirst, hpass⟩ := Tx.bind_eq_ok.mp hpass
  obtain ⟨r, hr, hsnapshot, -, -, ⟨hfalse, -⟩ | ⟨-, hops⟩⟩ := view_eq_ok hfirst
  · cases hfalse
  split_ifs at hpass with hends
  · -- the second view, and the release
    obtain ⟨shown, w, hsecond, hret⟩ := Tx.bind_eq_ok.mp hpass
    obtain ⟨rfl, rfl⟩ := Prod.mk.inj (Tx.pure_eq_ok.mp hret)
    obtain ⟨_, v, hrelease, hret⟩ := Tx.bind_eq_ok.mp h
    obtain ⟨rfl, rfl⟩ := Prod.mk.inj (Tx.pure_eq_ok.mp hret)
    have hrow : u.tables.operation? op = some r := by rwa [Tables.operation?, hops]
    have hreleased : v.tables = w.tables.update op releasedRow := releaseInline_eq_ok hrelease
    have hupdate : ∀ {T T' : Tables} {f : ClientRow → ClientRow},
        T.operations = T'.operations → (T.update op f).operations = (T'.update op f).operations :=
      fun h => congrArg (fun rows => Table.modify ClientRow.operationId rows op _) h
    obtain ⟨r', hr', hsnapshot', hexpired, -, hcases⟩ := view_eq_ok hsecond
    obtain rfl := Option.some.inj (hrow.symm.trans hr')
    obtain ⟨-, hc, hT⟩ | ⟨hc, hT⟩ := hcases
    · obtain ⟨v', hv, hc⟩ := Consumes.stored (hsnapshot' ▸ hc)
      refine .returns hr hv hc (by rw [hsnapshot', hv]; rfl) ?_
      rw [hreleased, hupdate (hT.trans (hupdate hops))]
      exact update_update (fun _ => rfl) fun _ => rfl
    · refine .releases hr hsnapshot' hexpired (fun h => hc ⟨rfl, h⟩) ?_
      rw [hreleased, hupdate (hT.trans hops)]
  · obtain ⟨rfl, rfl⟩ := Prod.mk.inj (Tx.pure_eq_ok.mp hpass)
    obtain ⟨rfl, rfl⟩ := Prod.mk.inj (Tx.pure_eq_ok.mp h)
    refine .waits hr ?_ hops
    rw [← hsnapshot, ← Bool.not_eq_true]
    exact fun htrue => hends (.inl (.inl htrue))

/-- A call of the thread whose result is there returns in its next pass. -/
theorem submitPass_of_row (hr : s.tables.operation? op = some r)
    (horigin : r.origin.threadId = origin.threadId) {v : Json} (hv : r.snapshot = some v)
    (hresult : truthy (member "result_id" v) = true) (deadline now : Time) :
    ∃ shown s', submitPass op origin deadline now s = .ok (some shown, s') := by
  obtain ⟨result, u, hfirst⟩ := view_of_row hr horigin false
  obtain ⟨r', hr', hsnapshot, -, -, ⟨hfalse, -⟩ | ⟨-, hops⟩⟩ := view_eq_ok hfirst
  · cases hfalse
  obtain rfl := Option.some.inj (hr.symm.trans hr')
  have hends : result.Ends := by
    rw [hv, Option.getD_some] at hsnapshot
    exact .inl (by rw [hsnapshot, hresult])
  have hrow : u.tables.operation? op = some r := by rwa [Tables.operation?, hops]
  obtain ⟨shown, w, hsecond⟩ := view_of_row hrow horigin true
  have hpass : waitPass op origin deadline now s = .ok (some shown, w) := by
    rw [waitPass, Tx.bind_of_ok hfirst, if_pos (Or.inl hends), Tx.bind_of_ok hsecond]
    rfl
  refine ⟨shown, { w with tables := w.tables.update op releasedRow }, ?_⟩
  rw [submitPass, Tx.bind_of_ok hpass]
  rfl

/-! ### A pass as calls -/

/-- Calls of the daemon. -/
abbrev Daemon.Works (store : ClientStore) : Daemon → Daemon → Prop :=
  Relation.ReflTransGen (Daemon.Work store)

theorem works_view {D : Daemon} {consume : Bool} {shown : View}
    (h : view op origin consume s = .ok (shown, s')) :
    Daemon.Work store (D.withTables s.tables) (D.withTables s'.tables) := by
  refine @Daemon.Work.call store _ (.view op origin consume) s.clock s.uuids s' ?_
  change (do let _ ← view op origin consume) s = _
  rw [Tx.bind_of_ok h]
  rfl

theorem works_release {D : Daemon} (h : releaseInline op s = .ok ((), s')) :
    Daemon.Work store (D.withTables s.tables) (D.withTables s'.tables) :=
  @Daemon.Work.call store _ (.releaseInline op) s.clock s.uuids s' h

theorem works_create {D : Daemon} {prompt : String} {artifactIds : List String} {wait : ℕ}
    (h : store.create origin prompt artifactIds wait s = .ok (op, s')) :
    Daemon.Work store (D.withTables s.tables) (D.withTables s'.tables) := by
  refine @Daemon.Work.call store _ (.create origin prompt artifactIds wait) s.clock s.uuids s' ?_
  change (do let _ ← store.create origin prompt artifactIds wait) s = _
  rw [Tx.bind_of_ok h]
  rfl

theorem works_submitPass {D : Daemon} {deadline now : Time} {x : Option View}
    (h : submitPass op origin deadline now s = .ok (x, s')) :
    Daemon.Works store (D.withTables s.tables) (D.withTables s'.tables) := by
  obtain ⟨y, t, hpass, h⟩ := Tx.bind_eq_ok.mp h
  obtain ⟨result, u, hfirst, hpass⟩ := Tx.bind_eq_ok.mp hpass
  have hone : Daemon.Works store (D.withTables s.tables) (D.withTables u.tables) :=
    .single (works_view hfirst)
  split_ifs at hpass
  · obtain ⟨shown, w, hsecond, hret⟩ := Tx.bind_eq_ok.mp hpass
    obtain ⟨rfl, rfl⟩ := Prod.mk.inj (Tx.pure_eq_ok.mp hret)
    obtain ⟨_, v, hrelease, hret⟩ := Tx.bind_eq_ok.mp h
    obtain ⟨-, rfl⟩ := Prod.mk.inj (Tx.pure_eq_ok.mp hret)
    exact (hone.tail (works_view hsecond)).tail (works_release hrelease)
  · obtain ⟨rfl, rfl⟩ := Prod.mk.inj (Tx.pure_eq_ok.mp hpass)
    obtain ⟨-, rfl⟩ := Prod.mk.inj (Tx.pure_eq_ok.mp h)
    exact hone

/-- `submit` up to its first await is `create` and a pass. -/
theorem submitStart_eq_ok {prompt : String} {artifactIds : List String} {wait : ℕ}
    {begin now : Time} {x : Option View}
    (h : store.submitStart origin prompt artifactIds wait begin now s = .ok ((op, x), s')) :
    ∃ t, store.create origin prompt artifactIds wait s = .ok (op, t) ∧
      submitPass op origin (begin + wait) now t = .ok (x, s') := by
  simp only [submitStart, Tx.bind_eq_ok, Tx.refuse_eq_ok, Tx.pure_eq_ok] at h
  obtain ⟨_, _, ⟨-, h₁⟩, _, _, ⟨-, h₂⟩, _, _, ⟨-, h₃⟩, _, _, ⟨-, h₄⟩, op', t, hcreate, x', u, hpass,
    hret⟩ := h
  obtain ⟨-, rfl⟩ := Prod.mk.inj h₁
  obtain ⟨-, rfl⟩ := Prod.mk.inj h₂
  obtain ⟨-, rfl⟩ := Prod.mk.inj h₃
  obtain ⟨-, rfl⟩ := Prod.mk.inj h₄
  obtain ⟨hx, rfl⟩ := Prod.mk.inj hret
  obtain ⟨rfl, rfl⟩ := Prod.mk.inj hx
  exact ⟨t, hcreate, hpass⟩

end

/-! ### What the other coroutines do to a row -/

/-- An operation that is not waited for any more has a definitive result, or was released. -/
def Settles (r : ClientRow) : Prop :=
  r.deliveryState = .inlinePending ∨ r.deliveryState = .ready ∨
    ∃ v, r.snapshot = some v ∧ Deliverable v

/-- What a step of another coroutine does to a row. -/
inductive Aside : ClientRow → ClientRow → Prop
  | same {r r' : ClientRow} (hid : r'.identity = r.identity)
      (hdelivery : r'.deliveryState = r.deliveryState) (hsnapshot : r'.snapshot = r.snapshot)
      (hexpired : r'.expired = r.expired) : Aside r r'
  | returned {r : ClientRow} {v : Json} (hv : r.snapshot = some v) (hc : Consumes r v) :
      Aside r (returnedRow r)
  | pruned (r : ClientRow) (now : Time) : Aside r (prunedRow now r)
  | merged (r : ClientRow) (v : Json) (updated expires : Time) :
      Aside r (merged r v updated expires)
  /-- The worker takes an operation up, or is done with it. -/
  | worked {r r' : ClientRow} (hid : r'.identity = r.identity)
      (hstate : r.deliveryState ∈ [.ready, .enqueueing, .deliveryOutcomeUnknown])
      (hresult : Settles r → ∃ v, r.snapshot = some v ∧ Deliverable v)
      (hsnapshot : r'.snapshot = r.snapshot) (hexpired : r'.expired = r.expired) : Aside r r'

section

variable {store : ClientStore} {s s' : Session} {op : Uuid} {r r' : ClientRow} {v : Json}

theorem Aside.refl (r : ClientRow) : Aside r r := .same rfl rfl rfl rfl

theorem Aside.identity (h : Aside r r') : r'.identity = r.identity := by
  cases h with
  | same hid => exact hid
  | returned => rfl
  | pruned now => exact identity_prunedRow now r
  | merged v u e => exact (merged_columns r v u e).1
  | worked hid => exact hid

theorem expired_prunedRow (h : r.expired = true) (now : Time) :
    (prunedRow now r).expired = true := by
  unfold prunedRow
  dsimp only
  split <;> split_ifs <;> simp_all

theorem Aside.expired (h : Aside r r') (hr : r.expired = true) : r'.expired = true := by
  cases h with
  | same _ _ _ hexpired => rwa [hexpired]
  | returned _ hc =>
    rw [hc.2.1] at hr
    cases hr
  | pruned now => exact expired_prunedRow hr now
  | merged v u e => rwa [(merged_columns r v u e).2.2.1]
  | worked _ _ _ _ hexpired => rwa [hexpired]

/-- An operation that belongs to the calls that wait stays theirs. -/
theorem Aside.held (h : Aside r r')
    (hr : r.deliveryState = .inlinePending ∨ r.deliveryState = .inlineReturned) :
    r'.deliveryState = .inlinePending ∨ r'.deliveryState = .inlineReturned := by
  cases h with
  | same _ hdelivery => rwa [hdelivery]
  | returned => exact .inr rfl
  | pruned now => rwa [deliveryState_prunedRow]
  | merged v u e => rwa [deliveryState_merged]
  | worked _ hstate =>
    obtain hr | hr := hr <;> rw [hr] at hstate <;> simp at hstate

theorem Emptied.deliverable {w : Json} (hw : Emptied v w) (h : Deliverable v) : Deliverable w :=
  ⟨by rw [hw.rest "result_id" (by decide) (by decide)]; exact h.1, FinalSnapshot.emptied h.2 hw⟩

/-- A definitive result is never replaced. -/
theorem settles_merged (h : Settles r) (v : Json) (u e : Time) : Settles (merged r v u e) := by
  obtain hstate | hstate | ⟨p, hp, hresult⟩ := h
  · exact .inl (by rwa [deliveryState_merged])
  · exact .inr (.inl (by rwa [deliveryState_merged]))
  · have hkeep : ¬ Replaces r.snapshot v := by
      rintro (hfresh | ⟨q, hq, hunknown, -⟩)
      · exact hfresh ⟨p, hp, FinalSnapshot.terminal hresult.2⟩
      · rw [← Option.some.inj (hp.symm.trans hq)] at hunknown
        exact not_final_of_unknown hunknown hresult.2
    refine .inr (.inr ⟨p, ?_, hresult⟩)
    unfold merged
    split_ifs
    · exact hp
    · exact hp

theorem settles_prunedRow (h : Settles r) (hfiled : ∀ v, r.snapshot = some v → Filed v)
    (now : Time) :
    Settles (prunedRow now r) := by
  obtain hstate | hstate | ⟨v, hv, hresult⟩ := h
  · exact .inl (by rwa [deliveryState_prunedRow])
  · exact .inr (.inl (by rwa [deliveryState_prunedRow]))
  · obtain ⟨hsnapshot, -⟩ | ⟨-, -, -, hsnapshot⟩ := prunedRow_cases hv now
    · exact .inr (.inr ⟨v, hsnapshot, hresult⟩)
    · exact .inr (.inr ⟨_, hsnapshot, (hfiled v hv).emptied.deliverable hresult⟩)

theorem Aside.settles (h : Aside r r') (hr : Settles r)
    (hfiled : ∀ v, r.snapshot = some v → Filed v) : Settles r' := by
  cases h with
  | same _ hdelivery hsnapshot => rwa [Settles, hdelivery, hsnapshot]
  | returned hv hc => exact .inr (.inr ⟨_, hv, hc.1⟩)
  | pruned now => exact settles_prunedRow hr hfiled now
  | merged v u e => exact settles_merged hr v u e
  | worked _ _ hresult hsnapshot =>
    rw [← hsnapshot] at hresult
    exact .inr (.inr (hresult hr))

/-! ### The steps of the other coroutines -/

theorem aside_refl (o : Option ClientRow) : Option.Rel Aside o o := by
  cases o with
  | none => exact .none
  | some r => exact .some (.refl r)

theorem aside_of_eq {T T' : Tables} (h : T'.operations = T.operations) (op : Uuid) :
    Option.Rel Aside (T.operation? op) (T'.operation? op) := by
  rw [Tables.operation?, Tables.operation?, h]
  exact aside_refl _

theorem aside_of_update {T T' : Tables} {f : ClientRow → ClientRow} {op : Uuid}
    (h : T'.operations = (T.update op f).operations) (hf : ∀ r, (f r).operationId = r.operationId)
    (hrow : ∀ r, T.operation? op = some r → Aside r (f r)) (op' : Uuid) :
    Option.Rel Aside (T.operation? op') (T'.operation? op') := by
  have hlookup : T'.operation? op' = (T.update op f).operation? op' := by
    rw [Tables.operation?, h]
    rfl
  rw [hlookup, operation?_update hf]
  split_ifs with hop
  · subst hop
    cases hr : T.operation? op' with
    | none => exact .none
    | some r => exact .some (hrow r hr)
  · exact aside_refl _

theorem perform_aside {c : Call} {x : Unit × Session} (hc : ¬ c.OfSubmit)
    (h : store.perform c s = .ok x) (op' : Uuid) :
    Option.Rel Aside (s.tables.operation? op') (x.2.tables.operation? op') := by
  cases c with
  | create | releaseInline => exact absurd trivial hc
  | view op origin consume =>
    simp only [perform, Tx.bind_eq_ok, Tx.pure_eq_ok] at h
    obtain ⟨shown, t, hview, rfl⟩ := h
    obtain ⟨r, hr, hsnapshot, -, -, ⟨-, hcons, hops⟩ | ⟨-, hops⟩⟩ := view_eq_ok hview
    · refine aside_of_update hops (fun _ => rfl) (fun r' hr' => ?_) op'
      obtain rfl := Option.some.inj (hr.symm.trans hr')
      obtain ⟨v, hv, hcons⟩ := Consumes.stored (hsnapshot ▸ hcons)
      exact .returned hv hcons
    · exact aside_of_eq hops op'
  | markSubmission op state =>
    rw [perform, ClientStore.markSubmission, writeTables_eq_ok] at h
    rw [← h]
    exact aside_of_update (f := fun r => { r with submissionState := state }) rfl (fun _ => rfl)
      (fun r _ => .same rfl rfl rfl rfl) op'
  | cancelState op state =>
    rw [perform, ClientStore.cancelState, writeTables_eq_ok] at h
    rw [← h]
    exact aside_of_update (f := fun r => { r with cancelState := some state }) rfl (fun _ => rfl)
      (fun r _ => .same rfl rfl rfl rfl) op'
  | receiptSent receipt =>
    rw [perform, ClientStore.receiptSent, writeTables_eq_ok] at h
    rw [← h]
    exact aside_of_eq rfl op'
  | prune =>
    simp only [perform, ClientStore.prune, Tx.bind_eq_ok, time_eq_ok, writeTables_eq_ok] at h
    obtain ⟨now, _, ⟨-, rfl⟩, h⟩ := h
    have hops : x.2.tables.operations = s.tables.operations.map (prunedRow now) := by rw [← h]
    rw [operation?_of_map hops (identity_prunedRow now)]
    cases s.tables.operation? op' with
    | none => exact .none
    | some r => exact .some (.pruned r now)

theorem ingest_aside {seq : Option ℤ} {expected : Option Uuid}
    (h : store.ingest v seq expected s = .ok ((), s')) (op' : Uuid) :
    Option.Rel Aside (s.tables.operation? op') (s'.tables.operation? op') := by
  obtain ⟨-, haccept⟩ := ingest_eq_ok h
  obtain ⟨op, -, -, -, -, -, u, e, hrows⟩ := acceptSnapshot_eq_ok haccept
  rw [hrows op']
  split_ifs
  · cases s.tables.operation? op' with
    | none => exact .none
    | some r =>
      rw [Option.map_some]
      split_ifs
      · exact .some (.refl r)
      · exact .some (.merged r v u e)
  · exact aside_refl _

/-- What the worker claims is released, and has its result. -/
theorem visit_claimed {reconciled : List Uuid} {x : ClientRow} {snapshot : Json}
    (h : visit reconciled op s = .ok (.claimed x snapshot, s')) :
    ∃ r v, s.tables.operation? op = some r ∧ r.expired = false ∧ r.deliveryState = .ready ∧
      r.snapshot = some v ∧ Deliverable v := by
  simp only [visit, Tx.bind_eq_ok, row_eq_ok] at h
  obtain ⟨r, _, ⟨hr, -, rfl⟩, h⟩ := h
  split_ifs at h with hunknown
  · cases (Prod.mk.inj (Tx.pure_eq_ok.mp h)).1
  · obtain ⟨y, t, hclaim, h⟩ := Tx.bind_eq_ok.mp h
    obtain ⟨rfl, -⟩ | ⟨r', id, v, hr', hlive, hready, hv, hresult, rfl, -⟩ :=
      claimDelivery_eq_ok hclaim
    · cases (Prod.mk.inj (Tx.pure_eq_ok.mp h)).1
    · exact ⟨r', v, hr', hlive, hready, hv, hresult⟩

/-- `finish_delivery` is only called for what the worker holds. -/
theorem finish_aside {D : Daemon} (hD : D.Inv) {d status : DeliveryState} {queueId : Option String}
    {clock : ℕ → Time} {uuids : ℕ → Uuid} (hholds : D.worker.holds = some (op, d))
    (h : finishDelivery op status queueId ⟨D.tables, clock, uuids⟩ = .ok ((), s')) (op' : Uuid) :
    Option.Rel Aside (D.tables.operation? op') (s'.tables.operation? op') := by
  have hd : d = .enqueueing ∨ d = .deliveryOutcomeUnknown := by
    cases hworker : D.worker <;> simp_all [Worker.holds]
  refine aside_of_update (finishDelivery_eq_ok h).1 (fun _ => rfl) (fun r hr => ?_) op'
  have hstate : r.deliveryState = d := by
    have hdelivery := hD.holds op d hholds
    rw [Tables.delivery?, hr] at hdelivery
    exact Option.some.inj hdelivery
  refine .worked rfl ?_ (fun hsettles => ?_) rfl rfl
  · obtain rfl | rfl := hd <;> simp [hstate]
  · obtain hpending | hready | hresult := hsettles
    · obtain rfl | rfl := hd <;> cases hstate.symm.trans hpending
    · obtain rfl | rfl := hd <;> cases hstate.symm.trans hready
    · exact hresult

theorem Daemon.Work.aside {D D' : Daemon} (hstep : Daemon.Work store D D')
    (hworker : D'.worker ≠ D.worker) (hD : D.Inv) (op' : Uuid) :
    Option.Rel Aside (D.tables.operation? op') (D'.tables.operation? op') := by
  cases hstep with
  | call => exact absurd rfl hworker
  | sweep | swept | missing | enqueue | submit | die => exact aside_refl _
  | skip _ hvisit =>
    obtain ⟨-, htables⟩ | ⟨r, hx, -⟩ | ⟨r, snapshot, hx, -⟩ := visit_eq_ok hvisit
    · exact aside_of_eq (congrArg Tables.operations htables) op'
    · cases hx
    · cases hx
  | reconcile _ hvisit =>
    obtain ⟨hx, -⟩ | ⟨r, -, htables, -⟩ | ⟨r, snapshot, hx, -⟩ := visit_eq_ok hvisit
    · cases hx
    · exact aside_of_eq (congrArg Tables.operations htables) op'
    · cases hx
  | @claim op _ _ _ _ _ s' _ hvisit =>
    obtain ⟨hx, -⟩ | ⟨r, hx, -⟩ | ⟨r, snapshot, -, -, id, htables⟩ := visit_eq_ok hvisit
    · cases hx
    · cases hx
    · obtain ⟨r₀, v, hr₀, -, hready, hv, hresult⟩ := visit_claimed hvisit
      refine aside_of_update (congrArg Tables.operations htables) (fun _ => rfl)
        (fun r' hr' => ?_) op'
      obtain rfl := Option.some.inj (hr₀.symm.trans hr')
      exact .worked rfl (by simp [hready]) (fun _ => ⟨v, hv, hresult⟩) rfl rfl
  | found hat hfinish => exact finish_aside hD (by rw [hat]; rfl) hfinish op'
  | unsupported hat hfinish =>
    obtain ⟨r, snapshot, hclaimed, -⟩ | ⟨frame, hopening, rfl⟩ := hat
    · exact finish_aside hD (by rw [hclaimed]; rfl) hfinish op'
    · exact finish_aside hD (by rw [hopening]; rfl) hfinish op'
  | unknown hat hfinish | queued hat hfinish =>
    exact finish_aside hD (by rw [hat]; rfl) hfinish op'

end

/-! ### The rows of an operation -/

section

variable {store : ClientStore} {s s' : Session} {T T' : Tables} {op op' : Uuid} {x : Option View}

/-- The row of an operation, after the operations were updated at one key. -/
theorem operation?_of_operations {f : ClientRow → ClientRow}
    (h : T'.operations = (T.update op f).operations) (hf : ∀ r, (f r).operationId = r.operationId)
    (op' : Uuid) :
    T'.operation? op' = if op' = op then (T.operation? op').map f else T.operation? op' := by
  rw [← operation?_update hf, Tables.operation?, h]
  rfl

theorem releasedRow_operationId (r : ClientRow) : (releasedRow r).operationId = r.operationId := by
  unfold releasedRow
  split_ifs <;> rfl

theorem releasedRow_of_ne {r : ClientRow} (h : r.deliveryState ≠ .inlinePending) :
    releasedRow r = r := if_neg h

theorem settles_releasedRow {r : ClientRow} (h : Settles r) : Settles (releasedRow r) := by
  by_cases hstate : r.deliveryState = .inlinePending
  · rw [releasedRow, if_pos hstate]
    exact .inr (.inl rfl)
  · rwa [releasedRow_of_ne hstate]

theorem OnePass.of_ne (h : OnePass T T' op x) (hne : op' ≠ op) :
    T'.operation? op' = T.operation? op' := by
  cases h with
  | waits _ _ hops => rw [Tables.operation?, hops, Tables.operation?]
  | returns _ _ _ _ hops =>
    rw [operation?_of_operations hops (by exact fun _ => rfl) op', if_neg hne]
  | releases _ _ _ _ hops => rw [operation?_of_operations hops releasedRow_operationId, if_neg hne]

/-- The row of the operation of a pass. -/
theorem OnePass.row (h : OnePass T T' op x) :
    ∃ r r', T.operation? op = some r ∧ T'.operation? op = some r' ∧
      (r' = r ∨ (∃ v, r.snapshot = some v ∧ Consumes r v) ∧ r' = returnedRow r ∨
        (∀ v, r.snapshot = some v → ¬ Consumes r v) ∧ r' = releasedRow r) := by
  cases h with
  | waits hr _ hops => exact ⟨_, _, hr, by rw [Tables.operation?, hops]; exact hr, .inl rfl⟩
  | returns hr hv hc _ hops =>
    refine ⟨_, _, hr, ?_, .inr (.inl ⟨⟨_, hv, hc⟩, rfl⟩)⟩
    rw [operation?_of_operations hops (by exact fun _ => rfl) op, if_pos rfl, hr]
    rfl
  | releases hr hshown _ hc hops =>
    refine ⟨_, _, hr, ?_, .inr (.inr ⟨fun v hv hcons => hc ?_, rfl⟩)⟩
    · rw [operation?_of_operations hops releasedRow_operationId, if_pos rfl, hr]
      rfl
    · rw [hshown, hv]
      exact hcons

theorem OnePass.settled (h : OnePass T T' op x)
    (hT : ∀ op r, T.operation? op = some r → Settles r) (op' : Uuid) {r' : ClientRow}
    (hr' : T'.operation? op' = some r') : Settles r' := by
  by_cases hop : op' = op
  · subst hop
    obtain ⟨r, r'', hr, hr'', hcases⟩ := h.row
    obtain rfl := Option.some.inj (hr'.symm.trans hr'')
    obtain rfl | ⟨⟨v, hv, hc⟩, rfl⟩ | ⟨-, rfl⟩ := hcases
    · exact hT op' _ hr
    · exact .inr (.inr ⟨v, hv, hc.1⟩)
    · exact settles_releasedRow (hT op' r hr)
  · rw [h.of_ne hop] at hr'
    exact hT op' r' hr'

/-- What `create` does to the rows. -/
theorem create_keeps {origin : NativeOrigin} {prompt : String} {artifactIds : List String}
    {wait : ℕ} (h : store.create origin prompt artifactIds wait s = .ok (op, s')) {r : ClientRow}
    (hr : s.tables.operation? op' = some r) : s'.tables.operation? op' = some r := by
  obtain ⟨-, rfl⟩ | ⟨-, -, -, flow, now, hops⟩ := create_eq_ok h
  · exact hr
  · rw [Tables.operation?, hops, Table.lookup_insert, show Table.lookup _ _ op' = some r from hr]
    rfl

theorem create_new {origin : NativeOrigin} {prompt : String} {artifactIds : List String}
    {wait : ℕ} (h : store.create origin prompt artifactIds wait s = .ok (op, s')) {r : ClientRow}
    (hr : s'.tables.operation? op' = some r) :
    s.tables.operation? op' = some r ∨
      s.tables.operation? op' = none ∧ op' = op ∧ r.deliveryState = .inlinePending ∧
        r.origin = origin := by
  obtain ⟨-, rfl⟩ | ⟨-, hnone, -, flow, now, hops⟩ := create_eq_ok h
  · exact .inl hr
  · rw [Tables.operation?, hops, Table.lookup_insert] at hr
    cases hold : s.tables.operation? op' with
    | some r' =>
      rw [show Table.lookup _ _ op' = some r' from hold] at hr
      exact .inl hr
    | none =>
      rw [show Table.lookup _ _ op' = none from hold, Option.none_or] at hr
      split_ifs at hr with hop
      obtain rfl := Option.some.inj hr
      exact .inr ⟨rfl, hop.symm, rfl, rfl⟩

theorem exists_of_rel {α β : Type} {R : α → β → Prop} {a : α} {o : Option β}
    (h : Option.Rel R (some a) o) : ∃ b, o = some b ∧ R a b := by
  cases h with
  | some h => exact ⟨_, rfl, h⟩

theorem exists_of_rel' {α β : Type} {R : α → β → Prop} {b : β} {o : Option α}
    (h : Option.Rel R o (some b)) : ∃ a, o = some a ∧ R a b := by
  cases h with
  | some h => exact ⟨_, rfl, h⟩

end

/-! ### The invariant -/

/-- The result of an operation belongs to the calls that wait for it, unless it is expired. -/
def Daemon.Holds (D : Daemon) (op : Uuid) (origin : NativeOrigin) : Prop :=
  ∃ r, D.tables.operation? op = some r ∧ r.origin = origin ∧
    (r.expired = true ∨ (r.deliveryState = .inlinePending ∨ r.deliveryState = .inlineReturned) ∧
      D.count op = 0)

section

variable {store : ClientStore} {D D' : Daemon} {op : Uuid} {origin : NativeOrigin}

theorem Daemon.Holds.aside (h : D.Holds op origin)
    (hrel : Option.Rel Aside (D.tables.operation? op) (D'.tables.operation? op))
    (hcount : ∀ d, D.tables.delivery? op = some d → d = .inlinePending ∨ d = .inlineReturned →
      D'.count op = D.count op) : D'.Holds op origin := by
  obtain ⟨r, hr, horigin, hown⟩ := h
  rw [hr] at hrel
  obtain ⟨r', hr', haside⟩ := exists_of_rel hrel
  refine ⟨r', hr', (congrArg Prod.snd haside.identity).trans horigin, ?_⟩
  obtain hexpired | ⟨hstate, hzero⟩ := hown
  · exact .inl (haside.expired hexpired)
  · refine .inr ⟨haside.held hstate, ?_⟩
    rw [hcount r.deliveryState (by rw [Tables.delivery?, hr, Option.map_some]) hstate, hzero]

/-- The worker writes no frame for an operation that belongs to the calls that wait. -/
theorem Daemon.Work.count_eq (hstep : Daemon.Work store D D') (hD : D.Inv) {d : DeliveryState}
    (hd : D.tables.delivery? op = some d) (hstate : d = .inlinePending ∨ d = .inlineReturned) :
    D'.count op = D.count op := by
  obtain heq | ⟨frame, hholds, heq⟩ := hstep.frames_eq
  · rw [Daemon.count, heq, Daemon.count]
  · have hne : frame.operation ≠ op := by
      rintro rfl
      obtain rfl := Option.some.inj ((hD.holds _ _ hholds).symm.trans hd)
      obtain h | h := hstate <;> cases h
    rw [Daemon.count, heq, List.countP_append, List.countP_singleton]
    simp [hne, Daemon.count]

end

namespace Service

/-- What holds in every state. -/
structure Inv (S : Service) : Prop where
  daemon : S.daemon.Inv
  inbox : Inbox.Inv S.daemon.tables
  settled : ∀ op r, S.daemon.tables.operation? op = some r → Settles r
  waiters : ∀ w ∈ S.waiters, S.daemon.Holds w.operation w.origin
  answers : ∀ a ∈ S.answers, Deliverable a.2.snapshot → a.2.resultExpired = false →
    S.daemon.tables.delivery? a.1 = some .inlineReturned ∧ S.daemon.count a.1 = 0

theorem inv_initial : initial.Inv where
  daemon := Daemon.inv_initial
  inbox := Inbox.inv_empty
  settled _ _ h := by cases h
  waiters _ h := absurd h List.not_mem_nil
  answers _ h := absurd h List.not_mem_nil

section

variable {store : ClientStore} {S S' : Service} {act : Act}

theorem runs_of_works {D D' : Daemon} (h : Daemon.Works store D D') :
    Daemon.Run store D D' ∧ Inbox.Run store D D' :=
  ⟨h.lift id fun _ _ hstep => .live (.work hstep), h.lift id fun _ _ hstep => .quiet (.work hstep)⟩

theorem works_submitStart {origin : NativeOrigin} {prompt : String} {artifactIds : List String}
    {wait : ℕ} {begin now : Time} {op : Uuid} {x : Option View} {clock : ℕ → Time}
    {uuids : ℕ → Uuid} {s' : Session}
    (h : store.submitStart origin prompt artifactIds wait begin now
      ⟨S.daemon.tables, clock, uuids⟩ = .ok ((op, x), s')) :
    Daemon.Works store S.daemon (S.daemon.withTables s'.tables) := by
  obtain ⟨t, hcreate, hpass⟩ := submitStart_eq_ok h
  exact .head (works_create (D := S.daemon) hcreate) (works_submitPass (D := S.daemon) hpass)

/-- A step is a run of the daemon. -/
theorem Step.runs (hstep : Service.Step store S act S') :
    Daemon.Run store S.daemon S'.daemon ∧ Inbox.Run store S.daemon S'.daemon := by
  cases hstep with
  | enter h | pass h => exact runs_of_works (works_submitStart h)
  | look _ h | answer _ h => exact runs_of_works (works_submitPass (D := S.daemon) h)
  | cut _ h => exact runs_of_works (.single (works_release (D := S.daemon) h))
  | call _ h => exact runs_of_works (.single (.call h))
  | work h => exact runs_of_works (.single h)
  | ingest hv h => exact ⟨.single (.live (.ingest h)), .single (.accept hv (ingest_eq_ok h).2)⟩
  | advance h => exact ⟨.single (.live (.advance h)), .single (.quiet (.advance h))⟩
  | restart h => exact ⟨.single (.restart h), .single (.quiet (.restart h))⟩

/-- What a step has to keep besides the invariants of the daemon. -/
theorem Inv.next (h : S.Inv) (hstep : Service.Step store S act S')
    (hsettled : ∀ op r, S'.daemon.tables.operation? op = some r → Settles r)
    (hwaiters : ∀ w ∈ S'.waiters, S'.daemon.Holds w.operation w.origin)
    (hanswers : ∀ a ∈ S'.answers, a ∈ S.answers ∨ (Deliverable a.2.snapshot →
      a.2.resultExpired = false → S'.daemon.tables.delivery? a.1 = some .inlineReturned ∧
        S'.daemon.count a.1 = 0)) : S'.Inv where
  daemon := hstep.runs.1.inv h.daemon
  inbox := hstep.runs.2.inv h.inbox
  settled := hsettled
  waiters := hwaiters
  answers a ha hresult hlive := by
    obtain hold | hnew := hanswers a ha
    · obtain ⟨hreturned, hzero⟩ := h.answers a hold hresult hlive
      obtain ⟨hreturned', new, hframes, hnew⟩ := hstep.runs.1.returned h.daemon hreturned
      refine ⟨hreturned', ?_⟩
      rw [Daemon.count, hframes, List.countP_append]
      exact Nat.add_eq_zero_iff.mpr ⟨hzero, List.countP_eq_zero.mpr (by simpa using hnew)⟩
    · exact hnew hresult hlive

/-- A step of another coroutine. -/
theorem Inv.aside (h : S.Inv) (hstep : Service.Step store S act S')
    (hrows : ∀ op, Option.Rel Aside (S.daemon.tables.operation? op)
      (S'.daemon.tables.operation? op))
    (hwaiters : S'.waiters = S.waiters) (hanswers : S'.answers = S.answers)
    (hcount : ∀ op d, S.daemon.tables.delivery? op = some d →
      d = .inlinePending ∨ d = .inlineReturned → S'.daemon.count op = S.daemon.count op) :
    S'.Inv := by
  refine h.next hstep (fun op r' hr' => ?_) (fun w hw => ?_) (fun a ha => .inl (hanswers ▸ ha))
  · have hrel := hrows op
    rw [hr'] at hrel
    obtain ⟨r, hr, haside⟩ := exists_of_rel' hrel
    exact haside.settles (h.settled op r hr) (h.inbox.filed op r hr)
  · exact (h.waiters w (hwaiters ▸ hw)).aside (hrows w.operation) (hcount w.operation)

/-- A release leaves an operation that is expired, or was released or returned before. -/
theorem holds_released {D : Daemon} {T : Tables} {op op' : Uuid} {origin : NativeOrigin}
    (h : D.Holds op origin) (hops : T.operations = (D.tables.update op' releasedRow).operations)
    (hkeep : op = op' → ∃ r, D.tables.operation? op = some r ∧
      (r.expired = true ∨ r.deliveryState ≠ .inlinePending)) :
        (D.withTables T).Holds op origin := by
  obtain ⟨r, hr, horigin, hown⟩ := h
  have hrow := operation?_of_operations hops releasedRow_operationId op
  by_cases hop : op = op'
  · rw [if_pos hop, hr, Option.map_some] at hrow
    obtain ⟨r', hr', hcases⟩ := hkeep hop
    obtain rfl := Option.some.inj (hr.symm.trans hr')
    obtain hexpired | hstate := hcases
    · refine ⟨releasedRow r, hrow, ?_, .inl ?_⟩ <;> unfold releasedRow <;> split_ifs <;> assumption
    · rw [releasedRow_of_ne hstate] at hrow
      exact ⟨r, hrow, horigin, hown⟩
  · rw [if_neg hop] at hrow
    exact ⟨r, hrow.trans hr, horigin, hown⟩

/-- A call that waits keeps its result through a pass of another call, unless that call releases the
operation. -/
theorem holds_passed {D : Daemon} {T : Tables} {op op' : Uuid} {origin : NativeOrigin}
    {x : Option View} (h : D.Holds op origin) (hpass : OnePass D.tables T op' x)
    (hkeep : x ≠ none → op = op' →
      (∃ r, D.tables.operation? op = some r ∧
        (r.expired = true ∨ r.deliveryState ≠ .inlinePending)) ∨
      ∃ r v, D.tables.operation? op = some r ∧ r.expired = false ∧ r.snapshot = some v ∧
        Deliverable v) : (D.withTables T).Holds op origin := by
  have hD := h
  obtain ⟨r, hr, horigin, hown⟩ := h
  cases hpass with
  | waits _ _ hops =>
    exact ⟨r, by rw [Daemon.withTables, Tables.operation?, hops]; exact hr, horigin, hown⟩
  | returns _ _ _ _ hops =>
    have hrow := operation?_of_operations hops (by exact fun _ => rfl) op
    split_ifs at hrow
    · rw [hr, Option.map_some] at hrow
      refine ⟨returnedRow r, hrow, horigin, ?_⟩
      obtain hexpired | ⟨-, hzero⟩ := hown
      · exact .inl hexpired
      · exact .inr ⟨.inr rfl, hzero⟩
    · exact ⟨r, hrow.trans hr, horigin, hown⟩
  | @releases r₀ _ hr₀ hshown _ hc hops =>
    refine holds_released hD hops fun hop => ?_
    subst hop
    obtain hcases | ⟨r', v, hr', hlive, hv, hresult⟩ := hkeep (by simp) rfl
    · exact hcases
    · obtain rfl := Option.some.inj (hr'.symm.trans hr₀)
      refine ⟨r', hr', .inr fun hstate => hc ⟨?_, hlive, by simp [hstate]⟩⟩
      rw [hshown, hv]
      exact hresult

theorem holds_create {D : Daemon} {op op' : Uuid} {origin origin' : NativeOrigin} {prompt : String}
    {artifactIds : List String} {wait : ℕ} {clock : ℕ → Time} {uuids : ℕ → Uuid} {s' : Session}
    (h : D.Holds op origin) (hcreate : store.create origin' prompt artifactIds wait
      ⟨D.tables, clock, uuids⟩ = .ok (op', s')) : (D.withTables s'.tables).Holds op origin := by
  obtain ⟨r, hr, hrest⟩ := h
  exact ⟨r, create_keeps hcreate hr, hrest⟩

theorem settles_repairedRow {r : ClientRow} (h : Settles r) : Settles (repairedRow r) := by
  have hsnapshot : (repairedRow r).snapshot = r.snapshot := by
    have hinbox := inbox_repairedRow r
    simp only [ClientRow.inbox, Prod.mk.injEq] at hinbox
    exact hinbox.2.2.2.1
  obtain hstate | hstate | ⟨v, hv, hresult⟩ := h
  · refine .inr (.inl ?_)
    simp only [repairedRow, hstate]
    split_ifs <;> rfl
  · refine .inr (.inl ?_)
    simp only [repairedRow, hstate]
    split_ifs <;> simp_all
  · exact .inr (.inr ⟨v, hsnapshot.trans hv, hresult⟩)

theorem settled_create {s s' : Session} {op : Uuid} {origin : NativeOrigin} {prompt : String}
    {artifactIds : List String} {wait : ℕ}
    (h : store.create origin prompt artifactIds wait s = .ok (op, s'))
    (hs : ∀ op r, s.tables.operation? op = some r → Settles r) (op' : Uuid) (r : ClientRow)
    (hr : s'.tables.operation? op' = some r) : Settles r := by
  obtain hold | ⟨-, -, hpending, -⟩ := create_new h hr
  · exact hs op' r hold
  · exact .inl hpending

/-- A call that begins to wait finds the result its own. -/
theorem holds_enter (h : S.Inv) {op : Uuid} {origin : NativeOrigin} {prompt : String}
    {artifactIds : List String} {wait : ℕ} {clock : ℕ → Time} {uuids : ℕ → Uuid} {t : Session}
    {T : Tables} (hfree : ¬ S.Free op) (hcreate : store.create origin prompt artifactIds wait
      ⟨S.daemon.tables, clock, uuids⟩ = .ok (op, t)) (hpass : OnePass t.tables T op none) :
    (S.daemon.withTables T).Holds op origin := by
  cases hpass with
  | @waits r hr hnone hops =>
    obtain ⟨r', hr', horigin⟩ := create_row h.inbox.distinct hcreate
    obtain rfl := Option.some.inj (hr.symm.trans hr')
    have hrow : T.operation? op = some r := by rwa [Tables.operation?, hops]
    refine ⟨r, hrow, horigin, ?_⟩
    obtain hold | ⟨hnew, -, hpending, -⟩ := create_new hcreate hr
    · have hdelivery : S.daemon.tables.delivery? op = some r.deliveryState := by
        rw [Tables.delivery?, hold, Option.map_some]
      obtain hpending | hready | ⟨v, hv, hresult⟩ := h.settled op r hold
      · refine .inr ⟨.inl hpending, h.daemon.untouched op (.inr (.inl ?_))⟩
        rw [hdelivery, hpending]
      · by_cases hexpired : r.expired = true
        · exact .inl hexpired
        · exact absurd ⟨r, hold, by simpa using hexpired, hready⟩ hfree
      · rw [hv] at hnone
        exact absurd (hnone.symm.trans hresult.1) Bool.false_ne_true
    · refine .inr ⟨.inl hpending, h.daemon.untouched op (.inl ?_)⟩
      rw [Tables.delivery?, hnew, Option.map_none]

/-- What an orderly call that ends leaves to the others, in the terms of the pass. -/
theorem Orderly.keeps {op op' : Uuid} {others : List Waiter} {cut : Bool} {w : Waiter}
    (h : S.Orderly (.leave op' others cut)) (hw : w ∈ others) (hop : w.operation = op)
    (heq : op = op') :
    (∃ r, S.daemon.tables.operation? op = some r ∧
      (r.expired = true ∨ r.deliveryState ≠ .inlinePending)) ∨
    cut = false ∧ ∃ r v, S.daemon.tables.operation? op = some r ∧ r.expired = false ∧
      r.snapshot = some v ∧ Deliverable v := by
  obtain hcases | ⟨hcut, v, r, hr, hrest⟩ := h ⟨w, hw, hop.trans heq⟩
  · exact .inl (heq ▸ hcases)
  · exact .inr ⟨hcut, r, v, heq ▸ hr, hrest⟩

/-- A call that had waited returns its result in line. -/
theorem answered {D : Daemon} {T : Tables} {op : Uuid} {origin : NativeOrigin} {shown : View}
    (h : D.Holds op origin) (hpass : OnePass D.tables T op (some shown))
    (hresult : Deliverable shown.snapshot) (hlive : shown.resultExpired = false) :
    T.delivery? op = some .inlineReturned ∧ D.count op = 0 := by
  obtain ⟨r, hr, -, hown⟩ := h
  cases hpass with
  | returns hr₀ hv hc _ hops =>
    obtain rfl := Option.some.inj (hr.symm.trans hr₀)
    have hrow := operation?_of_operations hops (by exact fun _ => rfl) op
    rw [if_pos rfl, hr, Option.map_some] at hrow
    refine ⟨by rw [Tables.delivery?, hrow]; rfl, ?_⟩
    obtain hexpired | ⟨-, hzero⟩ := hown
    · rw [hc.2.1] at hexpired
      cases hexpired
    · exact hzero
  | releases hr₀ _ hexpired hc hops =>
    obtain rfl := Option.some.inj (hr.symm.trans hr₀)
    rw [hexpired] at hlive
    obtain hexpired | ⟨hpending | hreturned, hzero⟩ := hown
    · rw [hlive] at hexpired
      cases hexpired
    · exact absurd ⟨hresult, hlive, by simp [hpending]⟩ hc
    · have hrow := operation?_of_operations hops releasedRow_operationId op
      rw [if_pos rfl, hr, Option.map_some, releasedRow_of_ne (by simp [hreturned])] at hrow
      exact ⟨by rw [Tables.delivery?, hrow, Option.map_some, hreturned], hzero⟩

theorem mem_of_others {before after : List Waiter} {w w' : Waiter}
    (hw : S.waiters = before ++ w :: after) (hw' : w' ∈ before ++ after) : w' ∈ S.waiters := by
  rw [hw]
  simp only [List.mem_append, List.mem_cons] at hw' ⊢
  tauto

/-- **One step.** -/
theorem Step.inv (hstep : Service.Step store S act S') (horderly : S.Orderly act) (h : S.Inv) :
    S'.Inv := by
  have hnext := h.next hstep
  have haside := h.aside hstep
  cases hstep with
  | enter hstart =>
    obtain ⟨t, hcreate, hpass⟩ := submitStart_eq_ok hstart
    have hpassed := submitPass_eq_ok hpass
    refine hnext (fun op r hr => hpassed.settled (settled_create hcreate h.settled) op hr)
      (fun w hw => ?_) fun a ha => .inl ha
    obtain hw | hw := List.mem_append.mp hw
    · have hold := holds_create (h.waiters w hw) hcreate
      exact holds_passed (D := S.daemon.withTables t.tables) hold hpassed fun hx => absurd rfl hx
    · rw [List.mem_singleton.mp hw]
      exact holds_enter h horderly hcreate hpassed
  | pass hstart =>
    obtain ⟨t, hcreate, hpass⟩ := submitStart_eq_ok hstart
    have hpassed := submitPass_eq_ok hpass
    refine hnext (fun op r hr => hpassed.settled (settled_create hcreate h.settled) op hr)
      (fun w hw => ?_) fun a ha => .inl ha
    have hold := holds_create (h.waiters w hw) hcreate
    refine holds_passed (D := S.daemon.withTables t.tables) hold hpassed fun _ hop => ?_
    obtain ⟨r, hr, hcases⟩ | ⟨-, r, v, hr, hrest⟩ := Orderly.keeps horderly hw rfl hop
    · exact .inl ⟨r, create_keeps hcreate hr, hcases⟩
    · exact .inr ⟨r, v, create_keeps hcreate hr, hrest⟩
  | look hw hpass =>
    have hpassed := submitPass_eq_ok hpass
    exact hnext (fun op r hr => hpassed.settled h.settled op hr)
      (fun w' hw' => holds_passed (h.waiters w' hw') hpassed fun hx => absurd rfl hx)
      fun a ha => .inl ha
  | @answer before after w now shown clock uuids s' hw hpass =>
    have hpassed := submitPass_eq_ok hpass
    refine hnext (fun op r hr => hpassed.settled h.settled op hr)
      (fun w' hw' => ?_) fun a ha => ?_
    · refine holds_passed (h.waiters w' (mem_of_others hw hw')) hpassed fun _ hop => ?_
      exact (Orderly.keeps horderly hw' rfl hop).imp_right And.right
    · obtain ha | ha := List.mem_append.mp ha
      · exact .inl ha
      · rw [List.mem_singleton.mp ha]
        have hmem : w ∈ S.waiters := by
          rw [hw]
          exact List.mem_append_right _ (List.mem_cons_self ..)
        have hanswer := answered (h.waiters w hmem) hpassed
        exact .inr hanswer
  | cut hw hrelease =>
    have hops := congrArg Tables.operations (releaseInline_eq_ok hrelease)
    refine hnext (fun op r' hr' => ?_) (fun w' hw' => ?_) fun a ha => .inl ha
    · rw [Daemon.withTables, operation?_of_operations hops releasedRow_operationId] at hr'
      split_ifs at hr'
      · obtain ⟨r, hr, rfl⟩ := Option.map_eq_some_iff.mp hr'
        exact settles_releasedRow (h.settled op r hr)
      · exact h.settled op r' hr'
    · refine holds_released (h.waiters w' (mem_of_others hw hw')) hops fun hop => ?_
      obtain hcases | ⟨hcut, -⟩ := Orderly.keeps horderly hw' rfl hop
      · exact hcases
      · cases hcut
  | call hc hcall =>
    exact haside (perform_aside hc hcall) rfl rfl fun _ _ _ _ => rfl
  | work hwork hworker =>
    exact haside (hwork.aside hworker h.daemon) rfl rfl
      fun _ _ hd hstate => hwork.count_eq h.daemon hd hstate
  | ingest hv hingest =>
    exact haside (ingest_aside hingest) rfl rfl fun _ _ _ _ => rfl
  | advance hadvance =>
    refine haside (fun op => ?_) rfl rfl fun _ _ _ _ => rfl
    exact aside_of_eq (by rw [withTables, advance_eq_ok hadvance]; rfl) op
  | restart hstartup =>
    refine hnext (fun op r' hr' => ?_) (fun _ hw => absurd hw List.not_mem_nil)
      fun a ha => .inl ha
    rw [startup_rows hstartup op] at hr'
    obtain ⟨r, hr, rfl⟩ := Option.map_eq_some_iff.mp hr'
    exact settles_repairedRow (h.settled op r hr)

theorem OrderlyRun.inv (hrun : OrderlyRun store S S') (h : S.Inv) : S'.Inv := by
  induction hrun with
  | refl => exact h
  | tail _ hstep ih =>
    obtain ⟨act, hstep, horderly⟩ := hstep
    exact hstep.inv horderly ih

/-! ### The promise -/

/-- Only the worker claims, and only what was released. -/
theorem Step.claims (hstep : Service.Step store S act S') {op : Uuid} (hclaims : S.Claims S' op) :
    S.Free op := by
  obtain ⟨hworker, x, snapshot, todo, hclaimed⟩ := hclaims
  cases hstep with
  | work hwork =>
    cases hwork with
    | claim _ hvisit =>
      obtain ⟨rfl, -⟩ := Worker.claimed.inj hclaimed
      obtain ⟨r, v, hr, hlive, hready, -⟩ := visit_claimed hvisit
      exact ⟨r, hr, hlive, hready⟩
    | call => exact absurd rfl hworker
    | reconcile =>
      dsimp only at hclaimed
      split_ifs at hclaimed
    | _ => cases hclaimed
  | restart => cases hclaimed
  | _ => exact absurd rfl hworker

theorem Inv.not_free (h : S.Inv) {w : Waiter} (hw : w ∈ S.waiters) : ¬ S.Free w.operation := by
  rintro ⟨r, hr, hlive, hready⟩
  obtain ⟨r', hr', -, hown⟩ := h.waiters w hw
  obtain rfl := Option.some.inj (hr.symm.trans hr')
  rw [hlive, hready] at hown
  obtain hexpired | ⟨hpending | hreturned, -⟩ := hown
  · cases hexpired
  · cases hpending
  · cases hreturned

/-- A call whose result is there returns it. -/
theorem Inv.inline (h : S.Inv) {w : Waiter} (hw : w ∈ S.waiters) {v : Json}
    (hresult : S.HasResult w.operation v) (now : Time) (clock : ℕ → Time) (uuids : ℕ → Uuid) :
    ∃ shown s', submitPass w.operation w.origin w.deadline now ⟨S.daemon.tables, clock, uuids⟩ =
      .ok (some shown, s') ∧ shown.snapshot = v ∧
      s'.tables.delivery? w.operation = some .inlineReturned := by
  obtain ⟨r, hr, hlive, hv, hdeliverable⟩ := hresult
  obtain ⟨r', hr', horigin, hown⟩ := h.waiters w hw
  obtain rfl := Option.some.inj (hr.symm.trans hr')
  obtain ⟨shown, s', hpass⟩ := submitPass_of_row (s := ⟨S.daemon.tables, clock, uuids⟩) hr
    (congrArg NativeOrigin.threadId horigin) hv hdeliverable.1 w.deadline now
  refine ⟨shown, s', hpass, ?_⟩
  cases submitPass_eq_ok hpass with
  | returns hr₀ hv₀ _ hshown hops =>
    obtain rfl := Option.some.inj (hr.symm.trans hr₀)
    have hrow := operation?_of_operations hops (by exact fun _ => rfl) w.operation
    rw [if_pos rfl, hr₀, Option.map_some] at hrow
    exact ⟨hshown.trans (Option.some.inj (hv₀.symm.trans hv)), by rw [Tables.delivery?, hrow]; rfl⟩
  | releases hr₀ hshown _ hc hops =>
    obtain rfl := Option.some.inj (hr.symm.trans hr₀)
    rw [hv, Option.getD_some] at hshown
    rw [hlive] at hown
    have hreturned : r.deliveryState = .inlineReturned := by
      obtain hexpired | ⟨hpending | hreturned, -⟩ := hown
      · cases hexpired
      · exact absurd ⟨hshown ▸ hdeliverable, hlive, by simp [hpending]⟩ hc
      · exact hreturned
    have hrow := operation?_of_operations hops releasedRow_operationId w.operation
    rw [if_pos rfl, hr₀, Option.map_some, releasedRow_of_ne (by simp [hreturned])] at hrow
    exact ⟨hshown, by rw [Tables.delivery?, hrow, Option.map_some, hreturned]⟩

theorem Inv.owned (h : S.Inv) : S.Owned store where
  unclaimed act S' op hstep hclaims w hw := by
    rintro rfl
    exact h.not_free hw (hstep.claims hclaims)
  inline w hw v hresult now clock uuids := h.inline hw hresult now clock uuids
  unqueued := h.answers

end

end Service

/-- **A result that comes while a submit call waits belongs to that call**, in every run whose steps
are orderly: it is not claimed for native delivery, it is returned in line, and what was returned in
line is never queued. -/
theorem inline_owned {store : ClientStore} {S : Service}
    (h : Service.OrderlyRun store Service.initial S) : S.Owned store :=
  (h.inv Service.inv_initial).owned

/-- Two calls wait for one operation; the first to see the result returns it. -/
theorem inline_owned_pair :
    ∃ S : Service, Service.OrderlyRun ⟨ClientSettings.default, fun _ => ""⟩ Service.initial S ∧
      S.waiters.map Waiter.operation = [10] ∧ S.answers.map Prod.fst = [10] ∧
      S.Owned ⟨ClientSettings.default, fun _ => ""⟩ := by
  let store : ClientStore := ⟨ClientSettings.default, fun _ => ""⟩
  have hruns : (Tx.succeeds (store.submitStart ⟨1, 2, "a"⟩ "p" [] (seconds 5) 0 0
      ⟨Tables.empty, fun _ => 5, fun n => if n = 0 then 10 else 11⟩) fun x s₁ =>
      decide (x = (10, none) ∧ s₁.tables.delivery? 10 = some .inlinePending) &&
    Tx.succeeds (store.submitStart ⟨1, 2, "a"⟩ "p" [] (seconds 9) 1 1
      ⟨s₁.tables, fun _ => 6, fun _ => 0⟩) fun x s₂ =>
      decide (x = (10, none)) &&
    Tx.succeeds (store.ingest (completedSnapshot 10 11 30).toJson none (some 10)
      ⟨s₂.tables, fun _ => 7, fun _ => 0⟩) fun _ s₃ =>
      ((s₃.tables.operation? 10).any fun r =>
        r.expired = false && r.snapshot.any fun v => decide (Deliverable v)) &&
    Tx.succeeds (submitPass 10 ⟨1, 2, "a"⟩ (seconds 5) 2 ⟨s₃.tables, fun _ => 8, fun _ => 0⟩)
      fun x _ => x.isSome) = true := by decide +kernel
  obtain ⟨x, s₁, h₁, hruns⟩ := Tx.exists_of_succeeds hruns
  rw [Bool.and_eq_true, decide_eq_true_eq] at hruns
  obtain ⟨⟨rfl, hpending⟩, hruns⟩ := hruns
  obtain ⟨x, s₂, h₂, hruns⟩ := Tx.exists_of_succeeds hruns
  rw [Bool.and_eq_true, decide_eq_true_eq] at hruns
  obtain ⟨rfl, hruns⟩ := hruns
  obtain ⟨_, s₃, h₃, hruns⟩ := Tx.exists_of_succeeds hruns
  rw [Bool.and_eq_true, Option.any_eq_true] at hruns
  obtain ⟨⟨r, hr, hresult⟩, hruns⟩ := hruns
  rw [Bool.and_eq_true, decide_eq_true_eq, Option.any_eq_true] at hresult
  obtain ⟨hlive, v, hv, hdeliverable⟩ := hresult
  obtain ⟨x, s₄, h₄, hruns⟩ := Tx.exists_of_succeeds hruns
  obtain ⟨shown, rfl⟩ := Option.isSome_iff_exists.mp hruns
  let first : Waiter := ⟨10, ⟨1, 2, "a"⟩, 0 + seconds 5⟩
  let second : Waiter := ⟨10, ⟨1, 2, "a"⟩, 1 + seconds 9⟩
  let S (T : Tables) (ws : List Waiter) (as : List (Uuid × View)) : Service :=
    ⟨Daemon.initial.withTables T, ws, as⟩
  have hfirst : Service.Step store Service.initial (.enter 10) (S s₁.tables [first] []) := .enter h₁
  have hsecond : Service.Step store (S s₁.tables [first] []) (.enter 10)
      (S s₂.tables [first, second] []) := .enter h₂
  have hingest : Service.Step store (S s₂.tables [first, second] []) .other
      (S s₃.tables [first, second] []) := .ingest (Snapshot.tidy_toJson _).keyed h₃
  have hanswer : Service.Step store (S s₃.tables [first, second] []) (.leave 10 [second] false)
      (S s₄.tables [second] [(10, shown)]) :=
    @Service.Step.answer store _ [] _ first _ _ _ _ _ rfl h₄
  have hnew : ¬ Service.initial.Free 10 := by
    rintro ⟨r, hr, -⟩
    cases hr
  have hwaiting : ¬ (S s₁.tables [first] []).Free 10 := by
    rintro ⟨r, hr, -, hready⟩
    have hdelivery : s₁.tables.delivery? 10 = some r.deliveryState := by
      rw [Tables.delivery?, show s₁.tables.operation? 10 = some r from hr, Option.map_some]
    rw [hpending, hready] at hdelivery
    cases hdelivery
  have horderly : (S s₃.tables [first, second] []).Orderly (.leave 10 [second] false) :=
    fun _ => .inr ⟨rfl, v, r, hr, by simpa using hlive, hv, of_decide_eq_true hdeliverable⟩
  have hrun : Service.OrderlyRun store Service.initial (S s₄.tables [second] [(10, shown)]) :=
    (((Relation.ReflTransGen.single ⟨_, hfirst, hnew⟩).tail ⟨_, hsecond, hwaiting⟩).tail
      ⟨_, hingest, trivial⟩).tail ⟨_, hanswer, horderly⟩
  exact ⟨_, hrun, rfl, rfl, inline_owned hrun⟩

/-- One of two calls that wait for an operation ends without a result; the result comes, and the
worker claims it while the other call still waits. -/
theorem released_under_a_wait :
    ∃ S S' act w, Relation.ReflTransGen (fun S S' => ∃ act,
        Service.Step ⟨ClientSettings.default, fun _ => ""⟩ S act S') Service.initial S ∧
      Service.Step ⟨ClientSettings.default, fun _ => ""⟩ S act S' ∧ w ∈ S.waiters ∧
      S.Claims S' w.operation := by
  let store : ClientStore := ⟨ClientSettings.default, fun _ => ""⟩
  have hruns : (Tx.succeeds (store.submitStart ⟨1, 2, "a"⟩ "p" [] (seconds 5) 0 0
      ⟨Tables.empty, fun _ => 5, fun n => if n = 0 then 10 else 11⟩) fun x s₁ =>
      decide (x = (10, none)) &&
    Tx.succeeds (store.submitStart ⟨1, 2, "a"⟩ "p" [] (seconds 9) 1 1
      ⟨s₁.tables, fun _ => 6, fun _ => 0⟩) fun x s₂ =>
      decide (x = (10, none)) &&
    Tx.succeeds (submitPass 10 ⟨1, 2, "a"⟩ (0 + seconds 5) (seconds 5)
      ⟨s₂.tables, fun _ => 7, fun _ => 0⟩) fun x s₃ =>
      x.isSome &&
    Tx.succeeds (store.ingest (completedSnapshot 10 11 30).toJson none (some 10)
      ⟨s₃.tables, fun _ => 7, fun _ => 0⟩) fun _ s₄ =>
    Tx.succeeds (ids false ⟨s₄.tables, fun _ => 8, fun _ => 0⟩) fun todo s₅ =>
      decide (todo = [10]) &&
    Tx.succeeds (visit [] 10 ⟨s₄.tables, fun _ => 8, fun _ => 40⟩) fun x _ =>
      match x with
      | .claimed .. => true
      | .skipped | .unknown _ => false) = true := by decide +kernel
  obtain ⟨x, s₁, h₁, hruns⟩ := Tx.exists_of_succeeds hruns
  rw [Bool.and_eq_true, decide_eq_true_eq] at hruns
  obtain ⟨rfl, hruns⟩ := hruns
  obtain ⟨x, s₂, h₂, hruns⟩ := Tx.exists_of_succeeds hruns
  rw [Bool.and_eq_true, decide_eq_true_eq] at hruns
  obtain ⟨rfl, hruns⟩ := hruns
  obtain ⟨x, s₃, h₃, hruns⟩ := Tx.exists_of_succeeds hruns
  rw [Bool.and_eq_true] at hruns
  obtain ⟨hshown, hruns⟩ := hruns
  obtain ⟨shown, rfl⟩ := Option.isSome_iff_exists.mp hshown
  obtain ⟨_, s₄, h₄, hruns⟩ := Tx.exists_of_succeeds hruns
  obtain ⟨todo, s₅, h₅, hruns⟩ := Tx.exists_of_succeeds hruns
  rw [Bool.and_eq_true, decide_eq_true_eq] at hruns
  obtain ⟨rfl, hruns⟩ := hruns
  obtain ⟨x, s₆, h₆, hruns⟩ := Tx.exists_of_succeeds hruns
  cases x with
  | skipped | unknown r => cases hruns
  | claimed r snapshot =>
    let first : Waiter := ⟨10, ⟨1, 2, "a"⟩, 0 + seconds 5⟩
    let second : Waiter := ⟨10, ⟨1, 2, "a"⟩, 1 + seconds 9⟩
    let D (T : Tables) (worker : Worker) : Daemon := ⟨T, worker, false, [], []⟩
    let S (T : Tables) (ws : List Waiter) : Service := ⟨D T .idle, ws, []⟩
    let S' (T : Tables) (worker : Worker) : Service := ⟨D T worker, [second], [(10, shown)]⟩
    have hfirst : Service.Step store Service.initial (.enter 10) (S s₁.tables [first]) := .enter h₁
    have hsecond : Service.Step store (S s₁.tables [first]) (.enter 10)
        (S s₂.tables [first, second]) := .enter h₂
    have hanswer : Service.Step store (S s₂.tables [first, second]) (.leave 10 [second] false)
        (S' s₃.tables .idle) :=
      @Service.Step.answer store _ [] _ first _ _ _ _ _ rfl h₃
    have hingest : Service.Step store (S' s₃.tables .idle) .other (S' s₄.tables .idle) :=
      .ingest (Snapshot.tidy_toJson _).keyed h₄
    have hsweep : Service.Step store (S' s₄.tables .idle) .other (S' s₄.tables (.sweeping [10])) :=
      .work (.sweep rfl h₅) (by simp [S', D])
    have hclaim : Service.Step store (S' s₄.tables (.sweeping [10])) .other
        (S' s₆.tables (.claimed 10 r snapshot [])) := .work (.claim rfl h₆) (by simp [S', D])
    have hrun : Relation.ReflTransGen (fun S S' => ∃ act, Service.Step store S act S')
        Service.initial (S' s₄.tables (.sweeping [10])) :=
      ((((Relation.ReflTransGen.single ⟨_, hfirst⟩).tail ⟨_, hsecond⟩).tail
        ⟨_, hanswer⟩).tail ⟨_, hingest⟩).tail ⟨_, hsweep⟩
    exact ⟨_, _, _, second, hrun, hclaim, List.mem_singleton_self _,
      by simp [S', D], r, snapshot, [], rfl⟩

end HermesGateway.Client
