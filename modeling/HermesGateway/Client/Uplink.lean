import HermesGateway.Client.Receipts
import HermesGateway.Client.Threads
import HermesGateway.Client.Merge

/-!
# Commands to the broker

The client's side of the connection, with the awaits that matter: `dispatch_pending` and
`flush_receipts` of the worker, and `cancel`. Between the response to its `GET` and the mark it
leaves on an operation, the worker waits once more, and everything else goes on meanwhile.

The coroutines that only call the store or ingest what the broker sent (`submit`, `get`, `wait`,
`recover`, `_events`) are any such calls, made at any time, and so are the steps of the native
delivery, which the worker takes between two passes.

## Main definitions

* `Command`, `Outcome` — what is posted, and what the client reads of a response
* `Position`, `Uplink` — the worker, and the daemon it belongs to
* `Background` — a call, a delivery step, or a snapshot that comes in
* `Uplink.Step` — one step of the client, with the commands it sends

## Main results

* `Background.resumed`, `Background.lodges` — what the rest of the client does to a row, and to the
  receipts
* `Uplink.Step.row` — the row of an operation, after one step of any kind
* `Uplink.Step.sends` — where the commands come from
* `Uplink.Step.sent_iff` — a receipt is marked only when its command was answered
-/

namespace HermesGateway.Client

open ClientStore

/-! ### Commands -/

/-- A request of the client for one of its operations. -/
inductive Command
  | get (op : Uuid)
  | submit (p : Payload)
  | cancel (op : Uuid)
  | receipt (op : Uuid) (resultId : String) (status : ReceiptStatus)
deriving DecidableEq

/-- What the client reads of a response: a snapshot, no more than success, or an error status. -/
inductive Outcome
  | snapshot (s : Snapshot)
  | ok
  | refused (status : ℕ)
deriving DecidableEq

/-- The statuses on which `dispatch_pending` gives an operation up. -/
def rejections : List ℕ := [400, 403, 409, 413, 422]

/-- The calls that coroutines outside of `dispatch_pending`, `flush_receipts` and `cancel` make. -/
def Call.Local : Call → Prop
  | .create .. | .view .. | .releaseInline _ | .prune => True
  | .markSubmission .. | .cancelState .. | .receiptSent _ => False

/-- Where the worker is in `dispatch_pending` and `flush_receipts`. -/
inductive Position
  /-- In neither of them. -/
  | idle
  /-- Between two operations of `dispatch_pending`. -/
  | dispatching (todo : List Uuid)
  /-- Awaiting the response to a `GET`. -/
  | asking (op : Uuid) (todo : List Uuid)
  /-- Awaiting the response to a `POST` of the payload. -/
  | posting (op : Uuid) (p : Payload) (todo : List Uuid)
  /-- Between two receipts of `flush_receipts`. -/
  | flushing (todo : List ReceiptRow)
  /-- Awaiting the response to a receipt. -/
  | sending (x : ReceiptRow) (todo : List ReceiptRow)

/-- The operations `dispatch_pending` has still to settle in this pass. -/
def Position.todo : Position → List Uuid
  | dispatching todo => todo
  | asking op todo => op :: todo
  | posting op _ todo => op :: todo
  | idle | flushing _ | sending .. => []

/-- The receipts `flush_receipts` has still to send in this pass. -/
def Position.unsent : Position → List ReceiptRow
  | flushing todo => todo
  | sending x todo => x :: todo
  | idle | dispatching _ | asking .. | posting .. => []

/-- The client with its connection: the daemon, the worker's position, and the operations whose
`cancel` waits for a response. -/
structure Uplink where
  daemon : Daemon
  position : Position
  canceling : List Uuid

namespace Uplink

/-- The client on an empty directory. -/
def initial : Uplink := ⟨Daemon.initial, .idle, []⟩

/-- The tables. -/
def tables (U : Uplink) : Tables := U.daemon.tables

/-- The client with other tables. -/
def write (U : Uplink) (T : Tables) : Uplink := { U with daemon := { U.daemon with tables := T } }

end Uplink

/-- What happens besides: another coroutine calls the store, the native delivery goes on, the
cursor moves past a gap, or a snapshot comes in that the broker has shown. -/
inductive Background (store : ClientStore) (shown : Snapshot → Prop) : Daemon → Daemon → Prop
  | call {D : Daemon} {c : Call} {clock : ℕ → Time} {uuids : ℕ → Uuid} {s' : Session}
      (hlocal : c.Local) (h : store.perform c ⟨D.tables, clock, uuids⟩ = .ok ((), s')) :
      Background store shown D { D with tables := s'.tables }
  /-- A step of the worker of `deliver_ready` itself, which every step but a call is. -/
  | deliver {D D' : Daemon} (h : Daemon.Work store D D') (hworker : D'.worker ≠ D.worker) :
      Background store shown D D'
  | advance {D : Daemon} {seq : ℤ} {clock : ℕ → Time} {uuids : ℕ → Uuid} {s' : Session}
      (h : ClientStore.advance seq ⟨D.tables, clock, uuids⟩ = .ok ((), s')) :
      Background store shown D { D with tables := s'.tables }
  | ingest {D : Daemon} {s : Snapshot} {seq : Option ℤ} {expected : Option Uuid} {clock : ℕ → Time}
      {uuids : ℕ → Uuid} {s' : Session} (hs : shown s)
      (h : store.ingest s.toJson seq expected ⟨D.tables, clock, uuids⟩ = .ok ((), s')) :
      Background store shown D { D with tables := s'.tables }

/-- One step of the client, with the commands it sends. `answered` says what has been answered to a
command so far, at whichever time, and `shown` which snapshots the broker has sent. -/
inductive Uplink.Step (store : ClientStore) (answered : Command → Outcome → Prop)
    (shown : Snapshot → Prop) : Uplink → List Command → Uplink → Prop
  | background {U : Uplink} {D' : Daemon} (h : Background store shown U.daemon D') :
      Uplink.Step store answered shown U [] { U with daemon := D' }
  /-- `dispatch_pending` begins. -/
  | dispatch {U : Uplink} {todo : List Uuid} {clock : ℕ → Time} {uuids : ℕ → Uuid} {s' : Session}
      (hposition : U.position = .idle) (h : ids true ⟨U.tables, clock, uuids⟩ = .ok (todo, s')) :
      Uplink.Step store answered shown U [] { U with position := .dispatching todo }
  /-- It asks for the next operation. -/
  | ask {U : Uplink} {op : Uuid} {todo : List Uuid}
      (hposition : U.position = .dispatching (op :: todo)) :
      Uplink.Step store answered shown U [.get op] { U with position := .asking op todo }
  /-- The broker has the operation. -/
  | found {U : Uplink} {op : Uuid} {todo : List Uuid} {s : Snapshot} {clock : ℕ → Time}
      {uuids : ℕ → Uuid} {s' : Session} (hposition : U.position = .asking op todo)
      (hanswer : answered (.get op) (.snapshot s)) (hs : shown s)
      (h : store.ingest s.toJson none (some op) ⟨U.tables, clock, uuids⟩ = .ok ((), s')) :
      Uplink.Step store answered shown U []
        { U.write s'.tables with position := .dispatching todo }
  /-- The broker does not have it, and its payload is posted. -/
  | post {U : Uplink} {op : Uuid} {todo : List Uuid} {p : Payload} {clock : ℕ → Time}
      {uuids : ℕ → Uuid} {s' : Session} (hposition : U.position = .asking op todo)
      (hanswer : answered (.get op) (.refused 404))
      (h : payload op ⟨U.tables, clock, uuids⟩ = .ok (some p, s')) :
      Uplink.Step store answered shown U [.submit p] { U with position := .posting op p todo }
  /-- There is no payload any more, or it does not decrypt. -/
  | spent {U : Uplink} {op : Uuid} {todo : List Uuid} {p : Option Payload} {state : SubmissionState}
      {clock : ℕ → Time} {uuids : ℕ → Uuid} {s₁ s₂ : Session}
      (hposition : U.position = .asking op todo) (hanswer : answered (.get op) (.refused 404))
      (h : payload op ⟨U.tables, clock, uuids⟩ = .ok (p, s₁))
      (hstate : state = if p.isSome then .payloadKeyUnavailable else .outcomeUnknown)
      (hmark : markSubmission op state s₁ = .ok ((), s₂)) :
      Uplink.Step store answered shown U []
        { U.write s₂.tables with position := .dispatching todo }
  /-- The command is rejected. -/
  | reject {U : Uplink} {op : Uuid} {todo : List Uuid} {p : Payload} {status : ℕ}
      {clock : ℕ → Time} {uuids : ℕ → Uuid} {s' : Session}
      (hposition : U.position = .posting op p todo)
      (hanswer : answered (.submit p) (.refused status)) (hstatus : status ∈ rejections)
      (hmark : markSubmission op .rejected ⟨U.tables, clock, uuids⟩ = .ok ((), s')) :
      Uplink.Step store answered shown U []
        { U.write s'.tables with position := .dispatching todo }
  /-- The command is accepted. -/
  | posted {U : Uplink} {op : Uuid} {todo : List Uuid} {p : Payload} {s : Snapshot}
      {clock : ℕ → Time} {uuids : ℕ → Uuid} {s' : Session}
      (hposition : U.position = .posting op p todo)
      (hanswer : answered (.submit p) (.snapshot s)) (hs : shown s)
      (h : store.ingest s.toJson none (some op) ⟨U.tables, clock, uuids⟩ = .ok ((), s')) :
      Uplink.Step store answered shown U []
        { U.write s'.tables with position := .dispatching todo }
  /-- `flush_receipts` begins. -/
  | flush {U : Uplink} (hposition : U.position = .dispatching []) :
      Uplink.Step store answered shown U []
        { U with position := .flushing (U.tables.receipts.filter fun x => x.sent = false) }
  /-- It posts the next receipt. -/
  | sendReceipt {U : Uplink} {x : ReceiptRow} {todo : List ReceiptRow}
      (hposition : U.position = .flushing (x :: todo)) :
      Uplink.Step store answered shown U [.receipt x.operationId x.resultId x.status]
        { U with position := .sending x todo }
  /-- The receipt is acknowledged. -/
  | sent {U : Uplink} {x : ReceiptRow} {todo : List ReceiptRow} {clock : ℕ → Time}
      {uuids : ℕ → Uuid} {s' : Session} (hposition : U.position = .sending x todo)
      (hanswer : answered (.receipt x.operationId x.resultId x.status) .ok)
      (hmark : receiptSent x ⟨U.tables, clock, uuids⟩ = .ok ((), s')) :
      Uplink.Step store answered shown U [] { U.write s'.tables with position := .flushing todo }
  /-- The pass is over, or an error ends it anywhere. -/
  | leave {U : Uplink} : Uplink.Step store answered shown U [] { U with position := .idle }
  /-- `cancel` takes the operation up, the first time only. -/
  | cancel {U : Uplink} {op : Uuid} {origin : NativeOrigin} {r : ClientRow} {clock : ℕ → Time}
      {uuids : ℕ → Uuid} {s₁ s₂ : Session}
      (h : row op (some origin) ⟨U.tables, clock, uuids⟩ = .ok (r, s₁))
      (hfirst : r.cancelState = none) (hmark : cancelState op .sending s₁ = .ok ((), s₂)) :
      Uplink.Step store answered shown U [.cancel op]
        { U.write s₂.tables with canceling := op :: U.canceling }
  /-- The broker has taken the cancellation. -/
  | canceled {U : Uplink} {op : Uuid} {s : Snapshot} {clock clock' : ℕ → Time}
      {uuids uuids' : ℕ → Uuid} {s₁ s₂ : Session} (hwaits : op ∈ U.canceling)
      (hanswer : answered (.cancel op) (.snapshot s)) (hs : shown s)
      (h : store.ingest s.toJson none (some op) ⟨U.tables, clock, uuids⟩ = .ok ((), s₁))
      (hmark : cancelState op .requested ⟨s₁.tables, clock', uuids'⟩ = .ok ((), s₂)) :
      Uplink.Step store answered shown U []
        { U.write s₂.tables with canceling := U.canceling.erase op }
  /-- Whether it has is not known. -/
  | uncanceled {U : Uplink} {op : Uuid} {clock : ℕ → Time} {uuids : ℕ → Uuid} {s' : Session}
      (hwaits : op ∈ U.canceling)
      (hmark : cancelState op .outcomeUnknown ⟨U.tables, clock, uuids⟩ = .ok ((), s')) :
      Uplink.Step store answered shown U []
        { U.write s'.tables with canceling := U.canceling.erase op }
  /-- The coroutine is gone before the response. -/
  | dropped {U : Uplink} {op : Uuid} :
      Uplink.Step store answered shown U [] { U with canceling := U.canceling.erase op }
  /-- The daemon dies, at any time, and another one starts. -/
  | restart {U : Uplink} {supported : Bool} {clock : ℕ → Time} {uuids : ℕ → Uuid} {s' : Session}
      (h : startup ⟨U.tables, clock, uuids⟩ = .ok ((), s')) :
      Uplink.Step store answered shown U []
        { daemon :=
            { U.daemon with
              tables := s'.tables
              worker := .idle
              supported := supported
              reconciled := [] }
          position := .idle
          canceling := [] }

/-! ### Rows -/

/-- The columns that tell what became of the commands of an operation. -/
def ClientRow.outbound (r : ClientRow) : SubmissionState × Option CancelState :=
  (r.submissionState, r.cancelState)

/-- What no step changes of a row, but that its payload may be gone. -/
structure Resumes (r r' : ClientRow) : Prop where
  digest : r'.digest = r.digest
  flowId : r'.flowId = r.flowId
  payload : r'.payload = r.payload ∨ r'.payload = none

theorem Resumes.refl (r : ClientRow) : Resumes r r := ⟨rfl, rfl, .inl rfl⟩

/-- What the rest of the client does to the row of an operation; `seen` says that the broker has
shown a snapshot of it. -/
inductive Resumed (store : ClientStore) (seen : Prop) : Option ClientRow → Option ClientRow → Prop
  | absent : Resumed store seen none none
  | create (op flow : Uuid) (origin : NativeOrigin) (prompt : String) (artifactIds : List String)
      (wait : ℕ) (now : Time) : Resumed store seen none
        (some (store.createdRow op flow origin (store.digestOf prompt artifactIds) prompt
          artifactIds wait now))
  | keep {r r' : ClientRow} (h : Resumes r r') (hout : r'.outbound = r.outbound) :
      Resumed store seen (some r) (some r')
  | accept {r r' : ClientRow} (hseen : seen) (h : Resumes r r')
      (hout : r'.outbound = (.accepted, r.cancelState)) : Resumed store seen (some r) (some r')

/-- The digest and the columns of every row are the same. -/
def SameColumns (s s' : Session) : Prop :=
  ∀ op, (s'.tables.operation? op).map (fun r => (r.digest, r.outbound)) =
    (s.tables.operation? op).map fun r => (r.digest, r.outbound)

instance instIsPreorderSameColumns : IsPreorder Session SameColumns where
  refl _ _ := rfl
  trans _ _ _ h h' op := (h' op).trans (h op)

section

variable {store : ClientStore} {s s' : Session} {op : Uuid} {seen : Prop}

theorem Resumed.refl : ∀ o : Option ClientRow, Resumed store seen o o
  | none => .absent
  | some r => .keep (.refl r) rfl

theorem sameColumns_of_operations (h : s'.tables.operations = s.tables.operations) :
    SameColumns s s' := by
  intro op
  rw [Tables.operation?, h]
  rfl

theorem writeTables_sameColumns {f : Tables → Tables}
    (h : ∀ T, (f T).operations = T.operations) : Tx.Keeps SameColumns (writeTables f) :=
  Tx.Keeps.modifyGet fun s => sameColumns_of_operations (h s.tables)

theorem columns_update {T : Tables} {f : ClientRow → ClientRow}
    (hid : ∀ r, (f r).identity = r.identity)
    (hf : ∀ r, ((f r).digest, (f r).outbound) = (r.digest, r.outbound)) (op' : Uuid) :
    ((T.update op f).operation? op').map (fun r => (r.digest, r.outbound)) =
      (T.operation? op').map fun r => (r.digest, r.outbound) := by
  rw [operation?_update fun r => congrArg Prod.fst (hid r)]
  split_ifs
  · rw [Option.map_map]
    exact congrArg (fun g => Option.map g _) (funext hf)
  · rfl

/-- An update of one row that leaves the columns. -/
theorem update_sameColumns {f : ClientRow → ClientRow} (hid : ∀ r, (f r).identity = r.identity)
    (hf : ∀ r, ((f r).digest, (f r).outbound) = (r.digest, r.outbound)) :
    Tx.Keeps SameColumns (writeTables fun T => T.update op f) :=
  Tx.Keeps.modifyGet fun _ => columns_update hid hf

theorem row_sameColumns (origin : Option NativeOrigin) : Tx.Keeps SameColumns (row op origin) := by
  intro s r s' h
  rw [(row_eq_ok.mp h).2.2]
  exact fun _ => rfl

theorem receiptOf_sameColumns (v : Json) (status : ReceiptStatus) :
    Tx.Keeps SameColumns (writeTables (receiptOf op v status)) :=
  writeTables_sameColumns fun _ => operations_receiptOf v status

theorem columns_prunedRow (now : Time) (r : ClientRow) :
    ((prunedRow now r).digest, (prunedRow now r).outbound) = (r.digest, r.outbound) := by
  unfold prunedRow
  dsimp only
  split <;> split_ifs <;> rfl

/-- Every local call but `create`. -/
theorem perform_sameColumns {c : Call} (hlocal : c.Local) (hc : ∀ o p a w, c ≠ .create o p a w) :
    Tx.Keeps SameColumns (store.perform c) := by
  cases c with
  | create o p a w => exact absurd rfl (hc o p a w)
  | view op origin consume =>
    refine Tx.Keeps.bind ?_ fun _ => Tx.Keeps.pure _
    refine (row_sameColumns _).bind fun r => ?_
    refine Tx.Keeps.ite (Tx.Keeps.ite ?_ ?_) (Tx.Keeps.pure _)
    · refine (update_sameColumns ?_ ?_).bind fun _ =>
        (receiptOf_sameColumns _ _).bind fun _ => Tx.Keeps.pure _
      all_goals exact fun _ => rfl
    · exact (receiptOf_sameColumns _ _).bind fun _ => Tx.Keeps.pure _
  | releaseInline op =>
    refine update_sameColumns ?_ ?_
    all_goals
      intro r
      split_ifs <;> rfl
  | prune =>
    refine Tx.Keeps.bind (Tx.Keeps.modifyGet fun _ _ => rfl) fun now =>
      Tx.Keeps.modifyGet fun s op => ?_
    rw [operation?_of_map rfl (identity_prunedRow now), Option.map_map]
    exact congrArg (fun g => Option.map g _) (funext (columns_prunedRow now))
  | markSubmission | cancelState | receiptSent => exact hlocal.elim

theorem finishDelivery_sameColumns {status : DeliveryState} {queueId : Option String} :
    Tx.Keeps SameColumns (finishDelivery op status queueId) := by
  refine (update_sameColumns ?_ ?_).bind fun _ => Tx.Keeps.ite ?_ (Tx.Keeps.pure _)
  iterate 2 exact fun _ => rfl
  refine (row_sameColumns none).bind fun r => ?_
  cases r.snapshot with
  | none => exact Tx.Keeps.throw _
  | some v => exact receiptOf_sameColumns _ _

theorem visit_sameColumns {reconciled : List Uuid} :
    Tx.Keeps SameColumns (visit reconciled op) := by
  intro s x s' h
  obtain ⟨-, htables⟩ | ⟨r, -, htables, -⟩ | ⟨r, snapshot, -, -, id, htables⟩ := visit_eq_ok h
  · exact sameColumns_of_operations (congrArg Tables.operations htables)
  · exact sameColumns_of_operations (congrArg Tables.operations htables)
  · intro op'
    rw [htables]
    refine columns_update ?_ ?_ op'
    all_goals exact fun _ => rfl

/-- What is calm and leaves the columns. -/
theorem Calm.resumed {o o' : Option ClientRow} (h : Calm store o o')
    (hsame : o'.map (fun r => (r.digest, r.outbound)) = o.map fun r => (r.digest, r.outbound)) :
    Resumed store seen o o' := by
  cases h with
  | absent => exact .absent
  | create => cases hsame
  | keep hkept =>
    obtain ⟨hdigest, hout⟩ := Prod.mk.inj (Option.some.inj hsame)
    exact .keep ⟨hdigest, hkept.flowId, hkept.payload⟩ hout

/-- `create` inserts a row, or leaves them all. -/
theorem create_resumed {origin : NativeOrigin} {prompt : String} {artifactIds : List String}
    {wait : ℕ} (h : store.create origin prompt artifactIds wait s = .ok (op, s')) (op' : Uuid) :
    Resumed store seen (s.tables.operation? op') (s'.tables.operation? op') := by
  obtain ⟨-, rfl⟩ | ⟨-, hnone, -, flow, now, hops⟩ := create_eq_ok h
  · exact .refl _
  · rw [Tables.operation?, Tables.operation?, hops]
    obtain rfl | hop := eq_or_ne op op'
    · have hrow := @Table.lookup_insert_self _ _ _ ClientRow.operationId s.tables.operations
        (store.createdRow op flow origin (store.digestOf prompt artifactIds) prompt artifactIds wait
          now) hnone
      rw [show Table.lookup _ s.tables.operations op = none from hnone]
      exact hrow ▸ .create ..
    · rw [Table.lookup_insert_of_ne hop]
      exact .refl _

theorem columns_merged (r : ClientRow) (v : Json) (updated expires : Time) :
    (merged r v updated expires).digest = r.digest ∧
      ((merged r v updated expires).outbound = r.outbound ∨
        (merged r v updated expires).outbound = (.accepted, r.cancelState)) := by
  unfold merged
  split_ifs
  · exact ⟨rfl, .inl rfl⟩
  · exact ⟨rfl, .inr rfl⟩
  · exact ⟨rfl, .inl rfl⟩

/-- A snapshot that comes in tells of its own operation only. -/
theorem ingest_resumed {snap : Snapshot} {seq : Option ℤ} {expected : Option Uuid}
    (h : store.ingest snap.toJson seq expected s = .ok ((), s')) (op : Uuid) :
    Resumed store (snap.operationId = op) (s.tables.operation? op) (s'.tables.operation? op) := by
  obtain ⟨op', hop', -, -, -, -, u, e, hrows⟩ := acceptSnapshot_eq_ok (ingest_eq_ok h).2
  obtain rfl := Option.some.inj ((operationOf_toJson snap).symm.trans hop')
  rw [hrows op]
  split_ifs with hop
  · rw [hop]
    cases s.tables.operation? snap.operationId with
    | none => exact .absent
    | some r =>
      rw [Option.map_some]
      split_ifs with hexpired
      · exact .refl _
      · obtain ⟨hdigest, hout⟩ := columns_merged r snap.toJson u e
        obtain ⟨-, hflow, -, hpayload⟩ := merged_columns r snap.toJson u e
        have hresumes : Resumes r (merged r snap.toJson u e) := ⟨hdigest, hflow, hpayload⟩
        exact hout.elim (.keep hresumes) (.accept rfl hresumes)
  · exact .refl _

theorem Resumed.mono {seen' : Prop} {o o' : Option ClientRow} (h : Resumed store seen o o')
    (hseen : seen → seen') : Resumed store seen' o o' := by
  cases h with
  | absent => exact .absent
  | create => exact .create ..
  | keep h hout => exact .keep h hout
  | accept h h' hout => exact .accept (hseen h) h' hout

end

/-! ### Receipts -/

/-- New receipts are not marked as sent, and no mark changes. -/
def Lodges (s s' : Session) : Prop :=
  ∃ new, s'.tables.receipts = s.tables.receipts ++ new ∧ ∀ x ∈ new, x.sent = false

instance instIsPreorderLodges : IsPreorder Session Lodges where
  refl _ := ⟨[], (List.append_nil _).symm, fun _ h => absurd h List.not_mem_nil⟩
  trans _ _ _ := by
    rintro ⟨new, heq, hnew⟩ ⟨new', heq', hnew'⟩
    refine ⟨new ++ new', by rw [heq', heq, List.append_assoc], fun x hx => ?_⟩
    exact (List.mem_append.mp hx).elim (hnew x) (hnew' x)

section

variable {store : ClientStore} {s s' : Session} {op : Uuid}

theorem lodges_of_receipts (h : s'.tables.receipts = s.tables.receipts) : Lodges s s' :=
  ⟨[], by rw [h, List.append_nil], fun _ h => absurd h List.not_mem_nil⟩

theorem writeTables_lodges {f : Tables → Tables} (h : ∀ T, (f T).receipts = T.receipts) :
    Tx.Keeps Lodges (writeTables f) :=
  Tx.Keeps.modifyGet fun s => lodges_of_receipts (h s.tables)

theorem receipt_lodges (T : Tables) (resultId : String) (status : ReceiptStatus) :
    ∃ new, (T.receipt op resultId status).receipts = T.receipts ++ new ∧
      ∀ x ∈ new, x.sent = false := by
  unfold Tables.receipt
  split_ifs
  · exact ⟨[], (List.append_nil _).symm, fun _ h => absurd h List.not_mem_nil⟩
  · refine ⟨_, rfl, fun x hx => ?_⟩
    rw [List.mem_singleton.mp hx]

theorem receiptOf_lodges (v : Json) (status : ReceiptStatus) :
    Tx.Keeps Lodges (writeTables (receiptOf op v status)) := by
  refine Tx.Keeps.modifyGet fun s => ?_
  obtain heq | ⟨id, heq⟩ := receiptOf_eq op v status s.tables
  · exact lodges_of_receipts (congrArg Tables.receipts heq)
  · obtain ⟨new, hnew, hunsent⟩ := @receipt_lodges op s.tables id status
    exact ⟨new, (congrArg Tables.receipts heq).trans hnew, hunsent⟩

theorem row_lodges (origin : Option NativeOrigin) : Tx.Keeps Lodges (row op origin) := by
  intro s r s' h
  rw [(row_eq_ok.mp h).2.2]
  exact lodges_of_receipts rfl

/-- Every local call. -/
theorem perform_lodges {c : Call} (hlocal : c.Local) : Tx.Keeps Lodges (store.perform c) := by
  cases c with
  | create origin prompt artifactIds wait =>
    intro s x s' h
    obtain ⟨op, hcreate, -⟩ := Tx.map_eq_ok.mp h
    exact lodges_of_receipts (create_receipts hcreate)
  | view op origin consume =>
    refine Tx.Keeps.bind ?_ fun _ => Tx.Keeps.pure _
    refine (row_lodges _).bind fun r => ?_
    refine Tx.Keeps.ite (Tx.Keeps.ite ?_ ?_) (Tx.Keeps.pure _)
    · refine (writeTables_lodges ?_).bind fun _ =>
        (receiptOf_lodges _ _).bind fun _ => Tx.Keeps.pure _
      exact fun _ => rfl
    · exact (receiptOf_lodges _ _).bind fun _ => Tx.Keeps.pure _
  | releaseInline op =>
    rw [perform, ClientStore.releaseInline]
    refine writeTables_lodges ?_
    exact fun _ => rfl
  | prune =>
    refine Tx.Keeps.bind (Tx.Keeps.modifyGet fun _ => lodges_of_receipts rfl) fun now =>
      writeTables_lodges ?_
    exact fun _ => rfl
  | markSubmission | cancelState | receiptSent => exact hlocal.elim

theorem finishDelivery_lodges {status : DeliveryState} {queueId : Option String} :
    Tx.Keeps Lodges (finishDelivery op status queueId) := by
  refine (writeTables_lodges ?_).bind fun _ => Tx.Keeps.ite ?_ (Tx.Keeps.pure _)
  · exact fun _ => rfl
  refine (row_lodges none).bind fun r => ?_
  cases r.snapshot with
  | none => exact Tx.Keeps.throw _
  | some v => exact receiptOf_lodges _ _

theorem visit_lodges {reconciled : List Uuid} : Tx.Keeps Lodges (visit reconciled op) := by
  intro s x s' h
  obtain ⟨-, htables⟩ | ⟨r, -, htables, -⟩ | ⟨r, snapshot, -, -, id, htables⟩ := visit_eq_ok h
  · exact lodges_of_receipts (congrArg Tables.receipts htables)
  · exact lodges_of_receipts (congrArg Tables.receipts htables)
  · refine lodges_of_receipts ?_
    rw [htables]
    rfl

theorem ingest_lodges {v : Json} {seq : Option ℤ} {expected : Option Uuid} :
    Tx.Keeps Lodges (store.ingest v seq expected) := by
  intro s x s' h
  obtain ⟨op, flow, -, T, hmerges, htables⟩ := acceptSnapshot_merges (ingest_eq_ok h).2
  have hreceipts : s'.tables.receipts = T.receipts := by rw [htables, receipts_reach]
  cases hmerges with
  | absent | expired | conflict | keep => exact lodges_of_receipts hreceipts
  | replace =>
    obtain heq | ⟨id, heq⟩ := storedReceipt_eq op v (s.tables.update op _)
    · refine lodges_of_receipts (hreceipts.trans ?_)
      rw [heq]
      rfl
    · obtain ⟨new, hnew, hunsent⟩ := receipt_lodges (s.tables.update op _) id .stored
      exact ⟨new, hreceipts.trans (by rw [heq]; exact hnew), hunsent⟩

theorem startup_lodges : Tx.Keeps Lodges startup := by
  refine (writeTables_lodges ?_).bind fun _ => Tx.Keeps.modifyGet fun s => ?_
  · exact fun _ => rfl
  suffices h : ∀ (receipts : List (Uuid × String)) (T : Tables), ∃ new,
      (receipts.foldl (fun T x => T.receipt x.1 x.2 .deliveryOutcomeUnknown) T).receipts =
        T.receipts ++ new ∧ ∀ x ∈ new, x.sent = false from h _ _
  intro receipts
  induction receipts with
  | nil => exact fun T => ⟨[], (List.append_nil _).symm, fun _ h => absurd h List.not_mem_nil⟩
  | cons x receipts ih =>
    intro T
    obtain ⟨new, hnew, hunsent⟩ := receipt_lodges T x.2 .deliveryOutcomeUnknown
    obtain ⟨new', hnew', hunsent'⟩ := ih (T.receipt x.1 x.2 .deliveryOutcomeUnknown)
    refine ⟨new ++ new', ?_, fun y hy => (List.mem_append.mp hy).elim (hunsent y) (hunsent' y)⟩
    rw [List.foldl_cons, hnew', hnew, List.append_assoc]

end

/-! ### One step -/

section

variable {store : ClientStore} {answered : Command → Outcome → Prop} {shown : Snapshot → Prop}
  {D D' : Daemon} {U U' : Uplink} {cs : List Command}

/-- Whether a snapshot of an operation was shown. -/
def Seen (shown : Snapshot → Prop) (op : Uuid) : Prop := ∃ s, shown s ∧ s.operationId = op

/-- The rest of the client neither marks an operation nor a receipt. -/
theorem Background.resumed (h : Background store shown D D') (op : Uuid) :
    Resumed store (Seen shown op) (D.tables.operation? op) (D'.tables.operation? op) := by
  cases h with
  | @call c clock uuids s' hlocal hcall =>
    by_cases hcreate : ∃ o p a w, c = .create o p a w
    · obtain ⟨origin, prompt, artifactIds, wait, rfl⟩ := hcreate
      obtain ⟨op', hcreated, -⟩ := Tx.map_eq_ok.mp hcall
      exact create_resumed hcreated op
    · have hsame := perform_sameColumns hlocal (fun o p a w hc => hcreate ⟨o, p, a, w, hc⟩)
        _ _ _ hcall
      exact ((perform_rows hcall).1 op).rests.calm.resumed (hsame op)
  | deliver hwork hworker =>
    refine (hwork.calm op).resumed ?_
    cases hwork with
    | call => exact absurd rfl hworker
    | skip _ hvisit | reconcile _ hvisit | claim _ hvisit =>
      exact visit_sameColumns _ _ _ hvisit op
    | found _ hfinish | unsupported _ hfinish | unknown _ hfinish | queued _ hfinish =>
      exact finishDelivery_sameColumns _ _ _ hfinish op
    | sweep | swept | missing | enqueue | submit | die => rfl
  | advance hadvance =>
    rw [advance_eq_ok hadvance]
    exact .refl _
  | ingest hs hingest => exact (ingest_resumed hingest op).mono fun hop => ⟨_, hs, hop⟩

theorem Background.lodges (h : Background store shown D D') :
    ∃ new, D'.tables.receipts = D.tables.receipts ++ new ∧ ∀ x ∈ new, x.sent = false := by
  cases h with
  | call hlocal hcall => exact perform_lodges hlocal _ _ _ hcall
  | deliver hwork hworker =>
    cases hwork with
    | call => exact absurd rfl hworker
    | skip _ hvisit | reconcile _ hvisit | claim _ hvisit => exact visit_lodges _ _ _ hvisit
    | found _ hfinish | unsupported _ hfinish | unknown _ hfinish | queued _ hfinish =>
      exact finishDelivery_lodges _ _ _ hfinish
    | sweep | swept | missing | enqueue | submit | die =>
      exact ⟨[], (List.append_nil _).symm, fun _ h => absurd h List.not_mem_nil⟩
  | advance hadvance =>
    rw [advance_eq_ok hadvance]
    exact ⟨[], (List.append_nil _).symm, fun _ h => absurd h List.not_mem_nil⟩
  | ingest _ hingest => exact ingest_lodges _ _ _ hingest

/-- What one step does to the columns of an operation that tell of its commands. -/
inductive Uplink.Fate (answered : Command → Outcome → Prop) (shown : Snapshot → Prop)
    (U : Uplink) (cs : List Command) (U' : Uplink) (op : Uuid) :
    SubmissionState × Option CancelState → SubmissionState × Option CancelState → Prop
  | same (x : SubmissionState × Option CancelState) : Uplink.Fate answered shown U cs U' op x x
  | accepted {x : SubmissionState × Option CancelState} (hseen : Seen shown op) :
      Uplink.Fate answered shown U cs U' op x (.accepted, x.2)
  | spent {x : SubmissionState × Option CancelState} {state : SubmissionState}
      (hstate : state = .outcomeUnknown ∨ state = .payloadKeyUnavailable) {todo : List Uuid}
      (hposition : U.position = .asking op todo) (hposition' : U'.position = .dispatching todo)
      (hanswer : answered (.get op) (.refused 404)) :
      Uplink.Fate answered shown U cs U' op x (state, x.2)
  | rejected {x : SubmissionState × Option CancelState} {p : Payload} {todo : List Uuid}
      {status : ℕ} (hposition : U.position = .posting op p todo)
      (hposition' : U'.position = .dispatching todo)
      (hanswer : answered (.submit p) (.refused status)) (hstatus : status ∈ rejections) :
      Uplink.Fate answered shown U cs U' op x (.rejected, x.2)
  | sending {state : SubmissionState} (hsent : cs = [.cancel op]) :
      Uplink.Fate answered shown U cs U' op (state, none) (state, some .sending)
  | requested {x : SubmissionState × Option CancelState} {state : SubmissionState}
      (hstate : state = x.1 ∨ state = .accepted ∧ Seen shown op) {s : Snapshot}
      (hwaits : op ∈ U.canceling) (hwaits' : U'.canceling = U.canceling.erase op)
      (hanswer : answered (.cancel op) (.snapshot s)) :
      Uplink.Fate answered shown U cs U' op x (state, some .requested)
  | unanswered {x : SubmissionState × Option CancelState} (hwaits : op ∈ U.canceling)
      (hwaits' : U'.canceling = U.canceling.erase op) :
      Uplink.Fate answered shown U cs U' op x (x.1, some .outcomeUnknown)
  | repaired {state : SubmissionState} (hwaits' : U'.canceling = []) :
      Uplink.Fate answered shown U cs U' op (state, some .sending) (state, some .outcomeUnknown)

/-- What one step does to the row of an operation. -/
inductive Uplink.RowFate (store : ClientStore) (answered : Command → Outcome → Prop)
    (shown : Snapshot → Prop) (U : Uplink) (cs : List Command) (U' : Uplink) (op : Uuid) :
    Option ClientRow → Option ClientRow → Prop
  | absent : Uplink.RowFate store answered shown U cs U' op none none
  | create (op' flow : Uuid) (origin : NativeOrigin) (prompt : String) (artifactIds : List String)
      (wait : ℕ) (now : Time) : Uplink.RowFate store answered shown U cs U' op none
        (some (store.createdRow op' flow origin (store.digestOf prompt artifactIds) prompt
          artifactIds wait now))
  | keep {r r' : ClientRow} (h : Resumes r r')
      (hfate : Uplink.Fate answered shown U cs U' op r.outbound r'.outbound) :
      Uplink.RowFate store answered shown U cs U' op (some r) (some r')

theorem Resumed.fate {o o' : Option ClientRow} {op : Uuid}
    (h : Resumed store (Seen shown op) o o') :
    Uplink.RowFate store answered shown U cs U' op o o' := by
  cases h with
  | absent => exact .absent
  | create => exact .create ..
  | keep h hout => exact .keep h (hout ▸ .same _)
  | accept hseen h hout => exact .keep h (hout ▸ .accepted hseen)

theorem Uplink.RowFate.of_eq {o o' : Option ClientRow} {op : Uuid} (h : o' = o) :
    Uplink.RowFate store answered shown U cs U' op o o' := by
  rw [h]
  exact (Resumed.refl o).fate

/-- A mark in the row of one operation. -/
theorem Uplink.RowFate.of_update {T T' : Tables} {f : ClientRow → ClientRow} {op op' : Uuid}
    (hT : T' = T.update op f) (hid : ∀ r, (f r).operationId = r.operationId)
    (hf : ∀ r, Resumes r (f r))
    (hfate : ∀ r, T.operation? op = some r →
      Uplink.Fate answered shown U cs U' op r.outbound (f r).outbound) :
    Uplink.RowFate store answered shown U cs U' op' (T.operation? op') (T'.operation? op') := by
  rw [hT, operation?_update hid]
  split_ifs with hop
  · subst hop
    cases hr : T.operation? op' with
    | none => exact .absent
    | some r => exact .keep (hf r) (hfate r hr)
  · exact .of_eq rfl

theorem resumes_of_eq {r r' : ClientRow} (hdigest : r'.digest = r.digest)
    (hflow : r'.flowId = r.flowId) (hpayload : r'.payload = r.payload) : Resumes r r' :=
  ⟨hdigest, hflow, .inl hpayload⟩

theorem outbound_repairedRow (r : ClientRow) :
    Resumes r (repairedRow r) ∧ ((repairedRow r).outbound = r.outbound ∨
      r.outbound = (r.submissionState, some .sending) ∧
        (repairedRow r).outbound = (r.submissionState, some .outcomeUnknown)) := by
  unfold repairedRow ClientRow.outbound
  dsimp only
  split_ifs with hcancel <;> refine ⟨resumes_of_eq rfl rfl rfl, ?_⟩ <;> simp_all

theorem markSubmission_tables {s s' : Session} {op : Uuid} {state : SubmissionState}
    (h : markSubmission op state s = .ok ((), s')) :
    s'.tables = s.tables.update op fun r => { r with submissionState := state } :=
  (congrArg Session.tables (writeTables_eq_ok.mp h)).symm

theorem cancelState_tables {s s' : Session} {op : Uuid} {state : CancelState}
    (h : ClientStore.cancelState op state s = .ok ((), s')) :
    s'.tables = s.tables.update op fun r => { r with cancelState := some state } :=
  (congrArg Session.tables (writeTables_eq_ok.mp h)).symm

theorem markSubmission_receipts {s s' : Session} {op : Uuid} {state : SubmissionState}
    (h : markSubmission op state s = .ok ((), s')) : s'.tables.receipts = s.tables.receipts := by
  rw [markSubmission_tables h]
  rfl

theorem cancelState_receipts {s s' : Session} {op : Uuid} {state : CancelState}
    (h : ClientStore.cancelState op state s = .ok ((), s')) :
    s'.tables.receipts = s.tables.receipts := by
  rw [cancelState_tables h]
  rfl

/-- Reading a payload leaves the tables. -/
theorem payload_tables {s s' : Session} {op : Uuid} {p : Option Payload}
    (h : payload op s = .ok (p, s')) : s'.tables = s.tables := by
  simp only [payload, Tx.bind_eq_ok, row_eq_ok] at h
  obtain ⟨r, _, ⟨-, -, rfl⟩, h⟩ := h
  cases hp : r.payload with
  | none =>
    rw [hp] at h
    exact congrArg Session.tables (Prod.mk.inj (Tx.pure_eq_ok.mp h)).2.symm
  | some q =>
    simp only [hp, Tx.bind_eq_ok, time_eq_ok] at h
    obtain ⟨now, _, ⟨-, rfl⟩, h⟩ := h
    split_ifs at h
    all_goals
      obtain ⟨-, rfl⟩ := Prod.mk.inj (Tx.pure_eq_ok.mp h)
      rfl

/-- A snapshot that comes in inserts no row. -/
theorem ingest_none {s s' : Session} {v : Json} {seq : Option ℤ} {expected : Option Uuid}
    {op : Uuid} (h : store.ingest v seq expected s = .ok ((), s'))
    (hnone : s.tables.operation? op = none) : s'.tables.operation? op = none := by
  obtain ⟨op', -, -, -, -, -, u, e, hrows⟩ := acceptSnapshot_eq_ok (ingest_eq_ok h).2
  rw [hrows op]
  split_ifs with hop
  · rw [hnone]
    rfl
  · exact hnone

/-- **One step of the client**, and what it does to the row of any operation. -/
theorem Uplink.Step.row (h : Uplink.Step store answered shown U cs U') (op : Uuid) :
    Uplink.RowFate store answered shown U cs U' op (U.tables.operation? op)
      (U'.tables.operation? op) := by
  cases h with
  | background hbackground => exact (hbackground.resumed op).fate
  | dispatch | ask | post | flush | sendReceipt | leave | dropped => exact .of_eq rfl
  | found _ _ hs hingest | posted _ _ hs hingest =>
    exact ((ingest_resumed hingest op).mono fun hop => ⟨_, hs, hop⟩).fate
  | @spent op' todo p state clock uuids s₁ s₂ hposition hanswer hpayload hstate hmark =>
    have hT := markSubmission_tables hmark
    rw [payload_tables hpayload] at hT
    refine .of_update hT (fun _ => rfl) (fun r => resumes_of_eq rfl rfl rfl) fun r _ => ?_
    refine .spent ?_ hposition rfl hanswer
    rw [hstate]
    split_ifs
    · exact .inr rfl
    · exact .inl rfl
  | reject hposition hanswer hstatus hmark =>
    exact .of_update (markSubmission_tables hmark) (fun _ => rfl)
      (fun r => resumes_of_eq rfl rfl rfl) fun r _ => .rejected hposition rfl hanswer hstatus
  | sent _ _ hmark =>
    refine .of_eq ?_
    exact congrArg (fun s : Session => s.tables.operation? op) (writeTables_eq_ok.mp hmark).symm
  | cancel hrow hfirst hmark =>
    obtain ⟨hr, -, rfl⟩ := row_eq_ok.mp hrow
    refine .of_update (cancelState_tables hmark) (fun _ => rfl)
      (fun r => resumes_of_eq rfl rfl rfl) fun r' hr' => ?_
    obtain rfl := Option.some.inj (hr.symm.trans hr')
    rw [show ClientRow.outbound _ = (_, none) from congrArg (Prod.mk _) hfirst]
    exact .sending rfl
  | @canceled op' s clock clock' uuids uuids' s₁ s₂ hwaits hanswer hs hingest hmark =>
    have hin := (ingest_resumed hingest op).mono fun hop => (⟨_, hs, hop⟩ : Seen shown op)
    have hrow : s₂.tables.operation? op = if op = op' then (s₁.tables.operation? op).map fun r =>
        { r with cancelState := some .requested } else s₁.tables.operation? op := by
      rw [cancelState_tables hmark]
      refine operation?_update ?_
      exact fun _ => rfl
    change Uplink.RowFate _ _ _ _ _ _ _ _ (s₂.tables.operation? op)
    rw [hrow]
    split_ifs with hop
    · subst hop
      cases hr : U.tables.operation? op with
      | none =>
        rw [ingest_none hingest hr]
        exact .absent
      | some r =>
        rw [show (⟨U.tables, clock, uuids⟩ : Session).tables.operation? op = some r from hr] at hin
        generalize s₁.tables.operation? op = o₁ at hin
        cases hin with
        | keep hres hout =>
          refine .keep ⟨hres.digest, hres.flowId, hres.payload⟩
            (.requested (.inl ?_) hwaits rfl hanswer)
          exact congrArg Prod.fst hout
        | accept hseen hres hout =>
          refine .keep ⟨hres.digest, hres.flowId, hres.payload⟩
            (.requested (.inr ⟨?_, hseen⟩) hwaits rfl hanswer)
          exact congrArg Prod.fst hout
    · exact hin.fate
  | uncanceled hwaits hmark =>
    exact .of_update (cancelState_tables hmark) (fun _ => rfl)
      (fun r => resumes_of_eq rfl rfl rfl) fun r _ => .unanswered hwaits rfl
  | @restart supported clock uuids s' hstartup =>
    have hrow : s'.tables.operation? op = (U.tables.operation? op).map repairedRow :=
      startup_rows hstartup op
    change Uplink.RowFate _ _ _ _ _ _ _ _ (s'.tables.operation? op)
    rw [hrow]
    cases U.tables.operation? op with
    | none => exact .absent
    | some r =>
      obtain ⟨hres, hout | ⟨hsending, hout⟩⟩ := outbound_repairedRow r
      · exact .keep hres (hout ▸ .same _)
      · exact .keep hres (by rw [hsending, hout]; exact .repaired rfl)

/-- A row that is there stays, whatever the client does. -/
theorem Uplink.Step.kept (h : Uplink.Step store answered shown U cs U') {op : Uuid} {r : ClientRow}
    (hr : U.tables.operation? op = some r) :
    ∃ r', U'.tables.operation? op = some r' ∧ Resumes r r' ∧
      Uplink.Fate answered shown U cs U' op r.outbound r'.outbound := by
  have hrow := h.row op
  rw [hr] at hrow
  generalize U'.tables.operation? op = o at hrow
  cases hrow with
  | keep hres hfate => exact ⟨_, rfl, hres, hfate⟩

/-! ### Positions and commands -/

/-- A pass goes through the operations that were pending at its start, one by one. -/
theorem Uplink.Step.todo (h : Uplink.Step store answered shown U cs U') :
    U'.position.todo.Sublist U.position.todo ∨
      (U'.tables = U.tables ∧ U'.position.todo = (U.tables.operations.filter fun r =>
        r.expired = false ∧ r.submissionState = .pending).map ClientRow.operationId) := by
  cases h with
  | dispatch _ hids =>
    refine .inr ⟨rfl, ?_⟩
    simp only [ids, Tx.bind_eq_ok, readTables_eq_ok, Tx.pure_eq_ok] at hids
    obtain ⟨T, _, ⟨rfl, rfl⟩, hret⟩ := hids
    obtain ⟨rfl, -⟩ := Prod.mk.inj hret
    simp only [Position.todo, forall_const]
  | ask hposition | post hposition =>
    refine .inl ?_
    rw [hposition]
    exact List.Sublist.refl _
  | found hposition | spent hposition | reject hposition | posted hposition =>
    refine .inl ?_
    rw [hposition]
    exact List.sublist_cons_self _ _
  | background | cancel | canceled | uncanceled | dropped => exact .inl (List.Sublist.refl _)
  | flush | sendReceipt | sent | leave | restart => exact .inl (List.nil_sublist _)

/-- Where the commands come from. -/
inductive Uplink.Sends (U U' : Uplink) : Command → Prop
  | get (op : Uuid) : Uplink.Sends U U' (.get op)
  | submit {op : Uuid} {p : Payload} {r : ClientRow} {todo : List Uuid}
      (hr : U.tables.operation? op = some r) (hp : r.payload = some p)
      (hposition : U'.position = .posting op p todo) (htables : U'.tables = U.tables) :
      Uplink.Sends U U' (.submit p)
  | cancel {op : Uuid} {r : ClientRow} (hr : U.tables.operation? op = some r)
      (hfirst : r.cancelState = none) : Uplink.Sends U U' (.cancel op)
  | receipt {x : ReceiptRow} (hx : x ∈ U.position.unsent) :
      Uplink.Sends U U' (.receipt x.operationId x.resultId x.status)

theorem Uplink.Step.sends (h : Uplink.Step store answered shown U cs U') {c : Command}
    (hc : c ∈ cs) : Uplink.Sends U U' c := by
  cases h with
  | ask => exact List.mem_singleton.mp hc ▸ .get _
  | post _ _ hpayload =>
    obtain ⟨r, hr, hp⟩ := payload_eq_ok hpayload
    exact List.mem_singleton.mp hc ▸ .submit hr hp rfl rfl
  | sendReceipt hposition =>
    rw [List.mem_singleton.mp hc]
    exact .receipt (by rw [hposition]; exact List.mem_cons_self)
  | cancel hrow hfirst =>
    obtain ⟨hr, -, -⟩ := row_eq_ok.mp hrow
    exact List.mem_singleton.mp hc ▸ .cancel hr hfirst
  | _ => exact absurd hc List.not_mem_nil

/-- The payload that is being posted was sent in this pass. -/
theorem Uplink.Step.posting (h : Uplink.Step store answered shown U cs U') {op : Uuid} {p : Payload}
    {todo : List Uuid} (hposition' : U'.position = .posting op p todo) :
    U.position = .posting op p todo ∨ .submit p ∈ cs ∧ ∃ r, U.tables.operation? op = some r ∧
      r.payload = some p := by
  cases h with
  | post _ _ hpayload =>
    obtain ⟨rfl, rfl, rfl⟩ := Position.posting.inj hposition'
    exact .inr ⟨List.mem_singleton_self _, payload_eq_ok hpayload⟩
  | background | cancel | canceled | uncanceled | dropped => exact .inl hposition'
  | _ => cases hposition'

/-- A coroutine of `cancel` waits once it has sent its command, until it goes on or is gone. -/
theorem Uplink.Step.waits (h : Uplink.Step store answered shown U cs U') :
    ((∀ op, .cancel op ∉ cs) ∧ U'.canceling.Sublist U.canceling) ∨
      ∃ op, cs = [.cancel op] ∧ U'.canceling = op :: U.canceling ∧
        ∃ r, U'.tables.operation? op = some r ∧ r.cancelState = some .sending := by
  cases h with
  | @cancel op origin r clock uuids s₁ s₂ hrow _ hmark =>
    obtain ⟨hr, -, rfl⟩ := row_eq_ok.mp hrow
    refine .inr ⟨op, rfl, rfl, { r with cancelState := some .sending }, ?_, rfl⟩
    change s₂.tables.operation? op = _
    rw [cancelState_tables hmark]
    refine (operation?_update_of hr op ?_).trans (if_pos rfl)
    exact fun _ => rfl
  | canceled | uncanceled | dropped =>
    exact .inl ⟨fun _ => List.not_mem_nil, List.erase_sublist⟩
  | restart => exact .inl ⟨fun _ => List.not_mem_nil, List.nil_sublist _⟩
  | _ => exact .inl ⟨fun _ => by simp, List.Sublist.refl _⟩

/-- Whether a receipt is marked as sent. -/
def Tables.Sent (T : Tables) (k : Uuid × String × ReceiptStatus) : Prop :=
  ∃ x ∈ T.receipts, x.key = k ∧ x.sent = true

theorem sent_of_lodges {T T' : Tables} {k : Uuid × String × ReceiptStatus}
    (h : ∃ new, T'.receipts = T.receipts ++ new ∧ ∀ x ∈ new, x.sent = false) :
    T'.Sent k ↔ T.Sent k := by
  obtain ⟨new, heq, hnew⟩ := h
  constructor
  · rintro ⟨x, hx, hkey, hsent⟩
    rw [heq] at hx
    refine ⟨x, (List.mem_append.mp hx).resolve_right fun hx => ?_, hkey, hsent⟩
    rw [hnew x hx] at hsent
    cases hsent
  · rintro ⟨x, hx, hk⟩
    exact ⟨x, heq ▸ List.mem_append_left _ hx, hk⟩

theorem sent_of_receipts {T T' : Tables} {k : Uuid × String × ReceiptStatus}
    (h : T'.receipts = T.receipts) : T'.Sent k ↔ T.Sent k := by
  rw [Tables.Sent, Tables.Sent, h]

/-- **A receipt is marked** when its command was answered, and the mark stays. -/
theorem Uplink.Step.sent_iff (h : Uplink.Step store answered shown U cs U')
    (k : Uuid × String × ReceiptStatus) :
    (U.tables.Sent k → U'.tables.Sent k) ∧
      (U'.tables.Sent k → U.tables.Sent k ∨ answered (.receipt k.1 k.2.1 k.2.2) .ok) := by
  have of_iff : (U'.tables.Sent k ↔ U.tables.Sent k) → (U.tables.Sent k → U'.tables.Sent k) ∧
      (U'.tables.Sent k → U.tables.Sent k ∨ answered (.receipt k.1 k.2.1 k.2.2) .ok) :=
    fun hiff => ⟨hiff.mpr, fun hk => .inl (hiff.mp hk)⟩
  cases h with
  | background hbackground => exact of_iff (sent_of_lodges hbackground.lodges)
  | dispatch | ask | post | flush | sendReceipt | leave | dropped => exact of_iff .rfl
  | found _ _ _ hingest | posted _ _ _ hingest =>
    exact of_iff (sent_of_lodges (ingest_lodges _ _ _ hingest))
  | spent _ _ hpayload _ hmark =>
    exact of_iff (sent_of_receipts ((markSubmission_receipts hmark).trans
      (congrArg Tables.receipts (payload_tables hpayload))))
  | reject _ _ _ hmark => exact of_iff (sent_of_receipts (markSubmission_receipts hmark))
  | cancel hrow _ hmark =>
    obtain ⟨-, -, rfl⟩ := row_eq_ok.mp hrow
    exact of_iff (sent_of_receipts (cancelState_receipts hmark))
  | uncanceled _ hmark => exact of_iff (sent_of_receipts (cancelState_receipts hmark))
  | canceled _ _ _ hingest hmark =>
    have hlodged := @sent_of_lodges _ _ k (ingest_lodges _ _ _ hingest)
    exact of_iff ((sent_of_receipts (cancelState_receipts hmark)).trans hlodged)
  | restart hstartup => exact of_iff (sent_of_lodges (startup_lodges _ _ _ hstartup))
  | @sent x todo clock uuids s' hposition hanswer hmark =>
    have hreceipts : s'.tables.receipts = Table.modify ReceiptRow.key U.tables.receipts x.key
        fun r => { r with sent := true } :=
      congrArg (fun s : Session => s.tables.receipts) (writeTables_eq_ok.mp hmark).symm
    constructor
    · rintro ⟨y, hy, hkey, hsent⟩
      refine ⟨if y.key = x.key then { y with sent := true } else y, ?_, ?_, ?_⟩
      · rw [show (Uplink.tables _).receipts = s'.tables.receipts from rfl, hreceipts]
        exact List.mem_map_of_mem hy
      · split_ifs <;> exact hkey
      · split_ifs
        · rfl
        · exact hsent
    · rintro ⟨y, hy, hkey, hsent⟩
      rw [show (Uplink.tables _).receipts = s'.tables.receipts from rfl, hreceipts] at hy
      obtain ⟨z, hz, rfl⟩ := List.mem_map.mp hy
      split_ifs at hkey hsent with heq
      · rw [← show z.key = k from hkey, heq]
        exact .inr hanswer
      · exact .inl ⟨z, hz, hkey, hsent⟩

end

end HermesGateway.Client
