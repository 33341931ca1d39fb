import HermesGateway.Client.Delivery

/-!
# What a step leaves of a row

The columns a snapshot is merged into are written by `create`, `accept_snapshot` and `prune` only.
What every other step of the daemon leaves of a row is said here once, for all that is proved about
snapshots, commands and the cursor.

## Main definitions

* `Rests` — what a step that ingests nothing does to the row of an operation
* `Kept`, `Calm` — what it leaves of it
* `Daemon.Quiet` — the steps that ingest nothing

## Main results

* `Daemon.Quiet.rests`, `Daemon.Quiet.calm` — what they do to a row
* `Grows.distinct` — the keys of the rows stay distinct
* `merged_columns` — what `accept_snapshot` leaves
-/

namespace HermesGateway.Client

open ClientStore

/-- The columns that only `create`, `accept_snapshot` and `prune` write. -/
def ClientRow.inbox (r : ClientRow) :
    (Uuid × NativeOrigin) × Uuid × Option Payload × Option Json × Bool × Bool :=
  (r.identity, r.flowId, r.payload, r.snapshot, r.conflict, r.expired)

/-- What a step that ingests nothing does to the row of an operation. -/
inductive Rests (store : ClientStore) : Option ClientRow → Option ClientRow → Prop
  | absent : Rests store none none
  | create (op flow : Uuid) (origin : NativeOrigin) (digest prompt : String)
      (artifactIds : List String) (wait : ℕ) (now : Time) : Rests store none
        (some (store.createdRow op flow origin digest prompt artifactIds wait now))
  | keep {r r' : ClientRow} (h : r'.inbox = r.inbox) : Rests store (some r) (some r')
  | prune (r : ClientRow) (now : Time) : Rests store (some r) (some (prunedRow now r))

/-- What a step that ingests nothing leaves of a row. -/
structure Kept (r r' : ClientRow) : Prop where
  identity : r'.identity = r.identity
  flowId : r'.flowId = r.flowId
  payload : r'.payload = r.payload ∨ r'.payload = none
  conflict : r'.conflict = r.conflict
  snapshot : r'.expired = false → r.expired = false ∧ r'.snapshot = r.snapshot

theorem kept_prunedRow (now : Time) (r : ClientRow) : Kept r (prunedRow now r) where
  identity := identity_prunedRow now r
  flowId := by
    unfold prunedRow
    dsimp only
    split <;> split_ifs <;> rfl
  payload := by
    unfold prunedRow
    dsimp only
    split <;> split_ifs <;> simp
  conflict := by
    unfold prunedRow
    dsimp only
    split <;> split_ifs <;> rfl
  snapshot := by
    unfold prunedRow
    dsimp only
    split <;> split_ifs <;> simp_all

theorem kept_of_inbox {r r' : ClientRow} (h : r'.inbox = r.inbox) : Kept r r' := by
  simp only [ClientRow.inbox, Prod.mk.injEq] at h
  obtain ⟨hid, hflow, hpayload, hsnapshot, hconflict, hexpired⟩ := h
  exact ⟨hid, hflow, .inl hpayload, hconflict, fun h => ⟨hexpired ▸ h, hsnapshot⟩⟩

/-- The same, for an operation that may not be there yet. -/
inductive Calm (store : ClientStore) : Option ClientRow → Option ClientRow → Prop
  | absent : Calm store none none
  | create (op flow : Uuid) (origin : NativeOrigin) (digest prompt : String)
      (artifactIds : List String) (wait : ℕ) (now : Time) :
      Calm store none (some (store.createdRow op flow origin digest prompt artifactIds wait now))
  | keep {r r' : ClientRow} (h : Kept r r') : Calm store (some r) (some r')

section

variable {store : ClientStore} {s s' : Session} {T T' : Tables} {op op' : Uuid}

theorem Rests.calm {o o' : Option ClientRow} (h : Rests store o o') : Calm store o o' := by
  cases h with
  | absent => exact .absent
  | create => exact .create ..
  | keep hinbox => exact .keep (kept_of_inbox hinbox)
  | prune r now => exact .keep (kept_prunedRow now r)

theorem Rests.refl : ∀ o : Option ClientRow, Rests store o o
  | none => .absent
  | some _ => .keep rfl

theorem RowStep.rests {o o' : Option ClientRow} (h : RowStep store o o') : Rests store o o' := by
  cases h with
  | same => exact Rests.refl _
  | create => exact .create ..
  | prune now => exact .prune _ now
  | consume | release | submission | cancel => exact .keep rfl

theorem rests_of_map {f : ClientRow → ClientRow} {o o' : Option ClientRow} (h : o' = o.map f)
    (hf : ∀ r, (f r).inbox = r.inbox) : Rests store o o' := by
  rw [h]
  cases o with
  | none => exact .absent
  | some r => exact .keep (hf r)

theorem rests_of_update {f : ClientRow → ClientRow}
    (h : T'.operations = (T.update op f).operations) (hf : ∀ r, (f r).inbox = r.inbox) :
    Rests store (T.operation? op') (T'.operation? op') := by
  have hrow : T'.operation? op' = (T.update op f).operation? op' := by
    rw [Tables.operation?, h]
    rfl
  rw [operation?_update fun r => congrArg (fun x => x.1.1) (hf r)] at hrow
  split_ifs at hrow
  · exact rests_of_map hrow hf
  · rw [hrow]
    exact Rests.refl _

theorem rests_finish {status : DeliveryState} {queueId : Option String}
    (h : finishDelivery op status queueId s = .ok ((), s')) :
    Rests store (s.tables.operation? op') (s'.tables.operation? op') :=
  rests_of_update (finishDelivery_eq_ok h).1 fun _ => rfl

theorem rests_visit {reconciled : List Uuid} {x : Visit}
    (h : visit reconciled op s = .ok (x, s')) :
    Rests store (s.tables.operation? op') (s'.tables.operation? op') := by
  obtain ⟨-, htables⟩ | ⟨r, -, htables, -⟩ | ⟨r, snapshot, -, -, id, htables⟩ := visit_eq_ok h
  · rw [htables]
    exact Rests.refl _
  · rw [htables]
    exact Rests.refl _
  · exact rests_of_update (congrArg Tables.operations htables) fun _ => rfl

theorem inbox_repairedRow (r : ClientRow) : (repairedRow r).inbox = r.inbox := by
  unfold repairedRow
  dsimp only
  split_ifs <;> rfl

theorem rests_startup (h : startup s = .ok ((), s')) :
    Rests store (s.tables.operation? op) (s'.tables.operation? op) :=
  rests_of_map (startup_rows h op) inbox_repairedRow

theorem Daemon.Work.rests {D D' : Daemon} (hstep : Daemon.Work store D D') (op : Uuid) :
    Rests store (D.tables.operation? op) (D'.tables.operation? op) := by
  cases hstep with
  | call hcall => exact ((perform_rows hcall).1 op).rests
  | skip _ hvisit | reconcile _ hvisit | claim _ hvisit => exact rests_visit hvisit
  | found _ hfinish | unsupported _ hfinish | unknown _ hfinish | queued _ hfinish =>
    exact rests_finish hfinish
  | sweep | swept | missing | enqueue | submit | die => exact Rests.refl _

/-- **One step of the worker, or a call of another coroutine**, is calm. -/
theorem Daemon.Work.calm {D D' : Daemon} (hstep : Daemon.Work store D D') (op : Uuid) :
    Calm store (D.tables.operation? op) (D'.tables.operation? op) :=
  (hstep.rests op).calm

theorem rests_advance {seq : ℤ} (h : ClientStore.advance seq s = .ok ((), s')) :
    Rests store (s.tables.operation? op) (s'.tables.operation? op) := by
  rw [advance_eq_ok h]
  exact Rests.refl _

/-- One step on the directory that ingests nothing. -/
inductive Daemon.Quiet (store : ClientStore) : Daemon → Daemon → Prop
  | work {D D' : Daemon} (h : Daemon.Work store D D') : Daemon.Quiet store D D'
  /-- The event reader moves the cursor past a gap. -/
  | advance {D : Daemon} {seq : ℤ} {clock : ℕ → Time} {uuids : ℕ → Uuid} {s' : Session}
      (h : ClientStore.advance seq ⟨D.tables, clock, uuids⟩ = .ok ((), s')) :
      Daemon.Quiet store D { D with tables := s'.tables }
  /-- The daemon dies and another one starts. -/
  | restart {D : Daemon} {supported : Bool} {clock : ℕ → Time} {uuids : ℕ → Uuid} {s' : Session}
      (h : startup ⟨D.tables, clock, uuids⟩ = .ok ((), s')) :
      Daemon.Quiet store D
        { D with
          tables := s'.tables
          worker := .idle
          supported := supported
          reconciled := [] }

theorem Daemon.Quiet.rests {D D' : Daemon} (hstep : Daemon.Quiet store D D') (op : Uuid) :
    Rests store (D.tables.operation? op) (D'.tables.operation? op) := by
  cases hstep with
  | work hwork => exact hwork.rests op
  | advance hadvance => exact rests_advance hadvance
  | restart hstartup => exact rests_startup hstartup

theorem Daemon.Quiet.calm {D D' : Daemon} (hstep : Daemon.Quiet store D D') (op : Uuid) :
    Calm store (D.tables.operation? op) (D'.tables.operation? op) :=
  (hstep.rests op).calm

/-! ### Keys -/

theorem Grows.of_update {f : ClientRow → ClientRow}
    (h : T'.operations = (T.update op f).operations) (hf : ∀ r, (f r).identity = r.identity) :
    Grows T.identities T'.identities := by
  refine .inl ?_
  rw [Tables.identities, h]
  exact identities_update hf

theorem Daemon.Work.grows {D D' : Daemon} (hstep : Daemon.Work store D D') :
    Grows D.tables.identities D'.tables.identities := by
  cases hstep with
  | call hcall => exact (perform_rows hcall).2.1
  | skip _ hvisit | reconcile _ hvisit | claim _ hvisit =>
    obtain ⟨-, htables⟩ | ⟨r, -, htables, -⟩ | ⟨r, snapshot, -, -, id, htables⟩ :=
      visit_eq_ok hvisit
    · exact .inl (congrArg Tables.identities htables)
    · exact .inl (congrArg Tables.identities htables)
    · exact .of_update (congrArg Tables.operations htables) fun _ => rfl
  | found _ hfinish | unsupported _ hfinish | unknown _ hfinish | queued _ hfinish =>
    exact .of_update (finishDelivery_eq_ok hfinish).1 fun _ => rfl
  | sweep | swept | missing | enqueue | submit | die => exact .inl rfl

/-- A step that ingests nothing adds one identity at most. -/
theorem Daemon.Quiet.grows {D D' : Daemon} (hstep : Daemon.Quiet store D D') :
    Grows D.tables.identities D'.tables.identities := by
  cases hstep with
  | work hwork => exact hwork.grows
  | advance hadvance =>
    rw [advance_eq_ok hadvance]
    exact .inl rfl
  | restart hstartup =>
    refine .inl ?_
    rw [Tables.identities, (startup_eq_ok hstartup).1]
    exact identities_map identity_repairedRow _

/-- The operation is a key of the rows, and so is the native call. -/
structure Tables.Distinct (T : Tables) : Prop where
  operations : Table.Keyed ClientRow.operationId T.operations
  origins : Table.Keyed ClientRow.origin T.operations

theorem Grows.distinct (h : Grows T.identities T'.identities) (hT : T.Distinct) : T'.Distinct := by
  have hfst : ∀ U : Tables, U.identities.map Prod.fst = U.operations.map ClientRow.operationId :=
    fun U => List.map_map
  have hsnd : ∀ U : Tables, U.identities.map Prod.snd = U.operations.map ClientRow.origin :=
    fun U => List.map_map
  have hops := hT.operations
  have horigins := hT.origins
  rw [Table.Keyed, ← hfst] at hops
  rw [Table.Keyed, ← hsnd] at horigins
  constructor
  · rw [Table.Keyed, ← hfst]
    obtain heq | ⟨x, hx, -, heq⟩ := h
    · rwa [heq]
    · rw [heq, List.map_append, List.map_singleton]
      exact List.nodup_append.mpr ⟨hops, List.nodup_singleton _, fun a ha b hb hab =>
        hx (List.mem_singleton.mp hb ▸ hab ▸ ha)⟩
  · rw [Table.Keyed, ← hsnd]
    obtain heq | ⟨x, -, hx, heq⟩ := h
    · rwa [heq]
    · rw [heq, List.map_append, List.map_singleton]
      exact List.nodup_append.mpr ⟨horigins, List.nodup_singleton _, fun a ha b hb hab =>
        hx (List.mem_singleton.mp hb ▸ hab ▸ ha)⟩

theorem Tables.distinct_empty : Tables.empty.Distinct := ⟨List.nodup_nil, List.nodup_nil⟩

/-- `create` leaves a row of the native call. -/
theorem create_row (hs : s.tables.Distinct) {origin : NativeOrigin}
    {prompt : String} {artifactIds : List String} {wait : ℕ}
    (h : store.create origin prompt artifactIds wait s = .ok (op, s')) :
    ∃ r, s'.tables.operation? op = some r ∧ r.origin = origin := by
  obtain ⟨⟨r, hr, hid⟩, rfl⟩ | ⟨-, hnone, -, flow, now, hops⟩ := create_eq_ok h
  · obtain ⟨rfl, rfl⟩ := Prod.mk.inj hid
    exact ⟨r, (hs.operations.mem_iff_lookup).mp hr, rfl⟩
  · refine ⟨store.createdRow op flow origin (store.digestOf prompt artifactIds) prompt
      artifactIds wait now, ?_, rfl⟩
    rw [Tables.operation?, hops]
    exact Table.lookup_insert_self hnone

/-- What `accept_snapshot` leaves of a row, besides the snapshot and the flag. -/
theorem merged_columns (r : ClientRow) (v : Json) (updated expires : Time) :
    (merged r v updated expires).identity = r.identity ∧
      (merged r v updated expires).flowId = r.flowId ∧
      (merged r v updated expires).expired = r.expired ∧
      ((merged r v updated expires).payload = r.payload ∨
        (merged r v updated expires).payload = none) := by
  unfold merged
  split_ifs
  · exact ⟨rfl, rfl, rfl, .inl rfl⟩
  · exact ⟨rfl, rfl, rfl, .inr rfl⟩
  · exact ⟨rfl, rfl, rfl, .inl rfl⟩

end

end HermesGateway.Client
