import HermesGateway.Client.Rows

/-!
# Threads and flows

A native thread gets its flow with its first operation, and `create` is the only method that writes
to `client_flows` or inserts an operation. So a flow is never taken from its thread, it is given to
no other one, and every operation of the thread has it, as does the payload it is dispatched with.

## Main definitions

* `Threads` — what a step on the directory does to threads and operations
* `Tables.Threaded` — flows and threads are one to one, and operations have the flow of their thread

## Main results

* `Daemon.Step.threads` — every step on the directory
* `Threads.threaded`, `Threads.lookup`, `Threads.row` — what it keeps
* `create_flow` — an operation that is created has the flow of its thread
-/

namespace HermesGateway.Client

open ClientStore

/-! ### Methods that leave the threads -/

/-- No flow was given and no operation inserted. -/
def SameThreads (s s' : Session) : Prop :=
  s'.tables.flows = s.tables.flows ∧ s'.tables.identities = s.tables.identities

instance : IsPreorder Session SameThreads where
  refl _ := ⟨rfl, rfl⟩
  trans _ _ _ h h' := ⟨h'.1.trans h.1, h'.2.trans h.2⟩

section

variable {T : Tables} {op : Uuid}

@[simp] theorem flows_receipt (resultId : String) (status : ReceiptStatus) :
    (T.receipt op resultId status).flows = T.flows := by
  unfold Tables.receipt
  split_ifs <;> rfl

@[simp] theorem flows_receiptOf (v : Json) (status : ReceiptStatus) :
    (receiptOf op v status T).flows = T.flows := by
  obtain heq | ⟨id, heq⟩ := receiptOf_eq op v status T
  · rw [heq]
  · rw [heq, flows_receipt]

@[simp] theorem flows_storedReceipt (v : Json) : (storedReceipt op v T).flows = T.flows := by
  obtain heq | ⟨id, heq⟩ := storedReceipt_eq op v T
  · rw [heq]
  · rw [heq, flows_receipt]

@[simp] theorem flows_reach (seq : Option ℤ) : (T.reach seq).flows = T.flows := by
  cases seq <;> rfl

theorem flows_foldl_receipt (receipts : List (Uuid × String)) (T : Tables) :
    (receipts.foldl (fun T x => T.receipt x.1 x.2 .deliveryOutcomeUnknown) T).flows = T.flows := by
  induction receipts generalizing T with
  | nil => rfl
  | cons x receipts ih => exact (ih _).trans (flows_receipt _ _)

end

section

variable {store : ClientStore} {s s' : Session} {op : Uuid}

theorem time_sameThreads : Tx.Keeps SameThreads time := Tx.Keeps.modifyGet fun _ => ⟨rfl, rfl⟩

theorem writeTables_sameThreads {f : Tables → Tables} (hflows : ∀ T, (f T).flows = T.flows)
    (hids : ∀ T, (f T).identities = T.identities) : Tx.Keeps SameThreads (writeTables f) :=
  Tx.Keeps.modifyGet fun s => ⟨hflows s.tables, hids s.tables⟩

/-- An update of one row that leaves its identity. -/
theorem update_sameThreads {f : ClientRow → ClientRow} (hf : ∀ r, (f r).identity = r.identity) :
    Tx.Keeps SameThreads (writeTables fun T => T.update op f) :=
  writeTables_sameThreads (fun _ => rfl) fun _ => identities_update hf

theorem receiptOf_sameThreads (v : Json) (status : ReceiptStatus) :
    Tx.Keeps SameThreads (writeTables (receiptOf op v status)) := by
  refine writeTables_sameThreads (fun T => flows_receiptOf v status) fun T => ?_
  rw [Tables.identities, operations_receiptOf]
  rfl

theorem row_sameThreads (origin : Option NativeOrigin) : Tx.Keeps SameThreads (row op origin) := by
  intro s r s' h
  rw [(row_eq_ok.mp h).2.2]
  exact ⟨rfl, rfl⟩

theorem view_sameThreads {origin : NativeOrigin} {consume : Bool} :
    Tx.Keeps SameThreads (view op origin consume) := by
  refine (row_sameThreads _).bind fun r => ?_
  refine Tx.Keeps.ite (Tx.Keeps.ite ?_ ?_) (Tx.Keeps.pure _)
  · refine (update_sameThreads ?_).bind fun _ =>
      (receiptOf_sameThreads _ _).bind fun _ => Tx.Keeps.pure _
    exact fun _ => rfl
  · exact (receiptOf_sameThreads _ _).bind fun _ => Tx.Keeps.pure _

/-- Every call but `create`. -/
theorem perform_sameThreads {c : Call} (hc : ∀ o p a w, c ≠ .create o p a w) :
    Tx.Keeps SameThreads (store.perform c) := by
  cases c with
  | create o p a w => exact absurd rfl (hc o p a w)
  | view op origin consume => exact view_sameThreads.bind fun _ => Tx.Keeps.pure _
  | releaseInline op =>
    refine update_sameThreads fun r => ?_
    split_ifs <;> rfl
  | markSubmission op state =>
    refine update_sameThreads ?_
    exact fun _ => rfl
  | cancelState op state =>
    refine update_sameThreads ?_
    exact fun _ => rfl
  | receiptSent receipt =>
    rw [perform, receiptSent]
    refine writeTables_sameThreads ?_ ?_
    all_goals exact fun _ => rfl
  | prune =>
    refine time_sameThreads.bind fun now => writeTables_sameThreads ?_ fun T => ?_
    · exact fun _ => rfl
    · exact identities_map (identity_prunedRow now) T.operations

theorem finishDelivery_sameThreads {status : DeliveryState} {queueId : Option String} :
    Tx.Keeps SameThreads (finishDelivery op status queueId) := by
  refine (update_sameThreads ?_).bind fun _ => Tx.Keeps.ite ?_ (Tx.Keeps.pure _)
  · exact fun _ => rfl
  · refine (row_sameThreads none).bind fun r => ?_
    cases r.snapshot with
    | none => exact Tx.Keeps.throw _
    | some v => exact receiptOf_sameThreads _ _

theorem visit_sameThreads {reconciled : List Uuid} :
    Tx.Keeps SameThreads (visit reconciled op) := by
  intro s x s' h
  obtain ⟨-, htables⟩ | ⟨r, -, htables, -⟩ | ⟨r, snapshot, -, -, id, htables⟩ := visit_eq_ok h
  · rw [SameThreads, htables]
    exact ⟨rfl, rfl⟩
  · rw [SameThreads, htables]
    exact ⟨rfl, rfl⟩
  · rw [SameThreads, htables]
    exact ⟨rfl, identities_update fun _ => rfl⟩

theorem advance_sameThreads {seq : ℤ} : Tx.Keeps SameThreads (ClientStore.advance seq) := by
  intro s x s' h
  rw [SameThreads, advance_eq_ok h]
  exact ⟨rfl, rfl⟩

theorem startup_sameThreads : Tx.Keeps SameThreads startup := by
  refine (writeTables_sameThreads ?_ fun T => ?_).bind fun _ =>
    writeTables_sameThreads (fun T => flows_foldl_receipt _ T) fun T => ?_
  · exact fun _ => rfl
  · exact identities_map identity_repairedRow T.operations
  · rw [Tables.identities, (foldl_receipt _ T).1]
    rfl

theorem ingest_sameThreads {v : Json} {seq : Option ℤ} {expected : Option Uuid} :
    Tx.Keeps SameThreads (store.ingest v seq expected) := by
  intro s x s' h
  obtain ⟨op, flow, -, T, hmerges, htables⟩ := acceptSnapshot_merges (ingest_eq_ok h).2
  have hflows : T.flows = s.tables.flows := by
    cases hmerges with
    | absent | expired | conflict | keep => rfl
    | replace => exact flows_storedReceipt v
  rw [SameThreads, htables, flows_reach, Tables.identities, operations_reach]
  exact ⟨hflows, hmerges.rows.2.1⟩

end

/-! ### What a step does -/

/-- What a step that inserts no operation leaves of a row. -/
structure Carried (r r' : ClientRow) : Prop where
  identity : r'.identity = r.identity
  flowId : r'.flowId = r.flowId
  payload : r'.payload = r.payload ∨ r'.payload = none

/-- What a step on the directory does to threads and operations. -/
inductive Threads (store : ClientStore) (T : Tables) : Tables → Prop
  | same {T' : Tables} (hflows : T'.flows = T.flows)
      (hrows : ∀ op, Option.Rel Carried (T.operation? op) (T'.operation? op)) : Threads store T T'
  | create {op flow : Uuid} {origin : NativeOrigin} {digest prompt : String}
      {artifactIds : List String} {wait : ℕ} {now : Time} {U : Tables}
      (hnew : T.operation? op = none) (hflow : Flows origin.threadId flow T U) :
      Threads store T { U with operations := U.operations ++
        [store.createdRow op flow origin digest prompt artifactIds wait now] }

section

variable {store : ClientStore} {s s' : Session} {T T' : Tables} {op : Uuid}

theorem Carried.refl (r : ClientRow) : Carried r r := ⟨rfl, rfl, .inl rfl⟩

theorem Kept.carried {r r' : ClientRow} (h : Kept r r') : Carried r r' :=
  ⟨h.identity, h.flowId, h.payload⟩

theorem Threads.refl (T : Tables) : Threads store T T :=
  .same rfl fun op => by
    cases T.operation? op with
    | none => exact .none
    | some r => exact .some (Carried.refl r)

/-- An operation is known by its identity. -/
theorem operation?_eq_none_iff : T.operation? op = none ↔ op ∉ T.identities.map Prod.fst := by
  rw [Tables.operation?, Table.lookup_eq_none, Tables.identities, List.map_map, List.mem_map]
  constructor
  · rintro h ⟨r, hr, hop⟩
    exact h r hr hop
  · intro h r hr hop
    exact h ⟨r, hr, hop⟩

/-- A step that inserts no operation and leaves of each row what `Calm` says. -/
theorem Threads.of_calm (h : SameThreads s s')
    (hcalm : ∀ op, Calm store (s.tables.operation? op) (s'.tables.operation? op)) :
    Threads store s.tables s'.tables := by
  refine .same h.1 fun op => ?_
  have hnone : s.tables.operation? op = none → s'.tables.operation? op = none := by
    rw [operation?_eq_none_iff, operation?_eq_none_iff, h.2]
    exact id
  have hop := hcalm op
  generalize s.tables.operation? op = o at hop hnone
  generalize s'.tables.operation? op = o' at hop hnone
  cases hop with
  | absent => exact .none
  | create => cases hnone rfl
  | keep hkept => exact .some hkept.carried

theorem ingest_threads {v : Json} {seq : Option ℤ} {expected : Option Uuid}
    (h : store.ingest v seq expected s = .ok ((), s')) : Threads store s.tables s'.tables := by
  obtain ⟨op, -, -, -, -, -, u, e, hrows⟩ := acceptSnapshot_eq_ok (ingest_eq_ok h).2
  refine .same (ingest_sameThreads s () s' h).1 fun op' => ?_
  rw [hrows op']
  cases s.tables.operation? op' with
  | none =>
    split_ifs
    · exact .none
    · exact .none
  | some r =>
    split_ifs
    · refine .some ?_
      dsimp only
      split_ifs
      · exact Carried.refl r
      · obtain ⟨hid, hflow, -, hpayload⟩ := merged_columns r v u e
        exact ⟨hid, hflow, hpayload⟩
    · exact .some (Carried.refl r)

theorem create_threads {origin : NativeOrigin} {prompt : String} {artifactIds : List String}
    {wait : ℕ} (h : store.create origin prompt artifactIds wait s = .ok (op, s')) :
    Threads store s.tables s'.tables := by
  obtain ⟨-, rfl⟩ | ⟨-, hnew, flow, now, U, hflow, htables⟩ := create_inserts h
  · exact Threads.refl _
  · rw [htables]
    exact .create hnew hflow

theorem Daemon.Work.threads {D D' : Daemon} (hstep : Daemon.Work store D D') :
    Threads store D.tables D'.tables := by
  have hcalm := hstep.calm
  have of_same {s s' : Session} (h : SameThreads s s')
      (hcalm : ∀ op, Calm store (s.tables.operation? op) (s'.tables.operation? op)) :=
    Threads.of_calm h hcalm
  cases hstep with
  | @call c _ _ s' hcall =>
    by_cases hcreate : ∃ o p a w, c = .create o p a w
    · obtain ⟨origin, prompt, artifactIds, wait, rfl⟩ := hcreate
      obtain ⟨op, hop, -⟩ := Tx.map_eq_ok.mp hcall
      exact create_threads hop
    · refine of_same (perform_sameThreads (fun o p a w hc => hcreate ⟨o, p, a, w, hc⟩) _ _ _ hcall)
        hcalm
  | skip _ hvisit | reconcile _ hvisit | claim _ hvisit =>
    exact of_same (visit_sameThreads _ _ _ hvisit) hcalm
  | found _ hfinish | unsupported _ hfinish | unknown _ hfinish | queued _ hfinish =>
    exact of_same (finishDelivery_sameThreads _ _ _ hfinish) hcalm
  | sweep | swept | missing | enqueue | submit | die => exact Threads.refl _

/-- **Every step on the directory.** -/
theorem Daemon.Step.threads {D D' : Daemon} (hstep : Daemon.Step store D D') :
    Threads store D.tables D'.tables := by
  cases hstep with
  | restart hstartup =>
    exact Threads.of_calm (startup_sameThreads _ _ _ hstartup) fun op =>
      (rests_startup hstartup).calm
  | live hlive =>
    cases hlive with
    | work hwork => exact hwork.threads
    | ingest hingest => exact ingest_threads hingest
    | advance hadvance =>
      exact Threads.of_calm (advance_sameThreads _ _ _ hadvance) fun op =>
        (rests_advance hadvance).calm

/-- The operation is a key of the rows, and so is the native call. -/
theorem Daemon.Step.distinct {D D' : Daemon} (hstep : Daemon.Step store D D')
    (hD : D.tables.Distinct) : D'.tables.Distinct := by
  cases hstep with
  | restart hstartup => exact Grows.distinct (.inl (startup_sameThreads _ _ _ hstartup).2) hD
  | live hlive =>
    cases hlive with
    | work hwork => exact hwork.grows.distinct hD
    | ingest hingest => exact Grows.distinct (.inl (ingest_sameThreads _ _ _ hingest).2) hD
    | advance hadvance => exact Grows.distinct (.inl (advance_sameThreads _ _ _ hadvance).2) hD

/-- Two operations never come from one native call. -/
theorem Tables.Distinct.operation_eq (hT : T.Distinct) {op' : Uuid} {r r' : ClientRow}
    (hr : T.operation? op = some r) (hr' : T.operation? op' = some r')
    (horigin : r.origin = r'.origin) : op = op' := by
  rw [← operationId_of_operation? hr, ← operationId_of_operation? hr',
    hT.origins.eq_of_key_eq (Table.mem_of_lookup hr) (Table.mem_of_lookup hr') horigin]

end

/-! ### Flows -/

/-- Threads and flows are one to one, and an operation has the flow of its thread, as does the
payload it is dispatched with. -/
structure Tables.Threaded (T : Tables) : Prop where
  threads : (T.flows.map Prod.fst).Nodup
  flows : (T.flows.map Prod.snd).Nodup
  rows : ∀ op r, T.operation? op = some r → T.flows.lookup r.origin.threadId = some r.flowId
  payloads : ∀ op r p, T.operation? op = some r → r.payload = some p →
    p.operationId = op ∧ p.flowId = r.flowId

section

variable {store : ClientStore} {T T' U : Tables} {op thread flow : Uuid}

theorem mem_of_lookup {flows : List (Uuid × Uuid)} (h : flows.lookup thread = some flow) :
    (thread, flow) ∈ flows := by
  induction flows with
  | nil => cases h
  | cons x flows ih =>
    rw [List.lookup_cons] at h
    split at h
    · next heq =>
      obtain rfl := Option.some.inj h
      rw [beq_iff_eq.mp heq]
      exact List.mem_cons_self
    · exact List.mem_cons_of_mem x (ih h)

theorem not_mem_of_lookup {flows : List (Uuid × Uuid)} (h : flows.lookup thread = none) :
    thread ∉ flows.map Prod.fst := by
  rintro hmem
  obtain ⟨x, hx, rfl⟩ := List.mem_map.mp hmem
  have := List.lookup_eq_none_iff.mp h x hx
  simp at this

theorem threaded_empty : Tables.empty.Threaded where
  threads := List.nodup_nil
  flows := List.nodup_nil
  rows _ _ h := by cases h
  payloads _ _ _ h := by cases h

/-- Two threads never share a flow. -/
theorem Tables.Threaded.thread_eq (hT : T.Threaded) {thread' : Uuid}
    (h : T.flows.lookup thread = some flow) (h' : T.flows.lookup thread' = some flow) :
    thread = thread' :=
  congrArg Prod.fst (List.inj_on_of_nodup_map hT.flows (mem_of_lookup h) (mem_of_lookup h') rfl)

/-- The flow `create` uses is that of the thread from then on, and no other flow moves. -/
theorem Flows.lookup (h : Flows thread flow T U) :
    U.flows.lookup thread = some flow ∧
      ∀ t f, T.flows.lookup t = some f → U.flows.lookup t = some f := by
  cases h with
  | known hknown => exact ⟨hknown, fun _ _ => id⟩
  | fresh hnone =>
    refine ⟨?_, fun t f ht => ?_⟩
    · rw [List.lookup_append, hnone]
      simp
    · rw [List.lookup_append, ht]
      rfl

theorem Flows.nodup (h : Flows thread flow T U) (hT : T.Threaded) :
    (U.flows.map Prod.fst).Nodup ∧ (U.flows.map Prod.snd).Nodup := by
  cases h with
  | known => exact ⟨hT.threads, hT.flows⟩
  | fresh hnone hnew =>
    have hthread := not_mem_of_lookup hnone
    rw [List.map_append, List.map_append]
    refine ⟨List.nodup_append.mpr ⟨hT.threads, List.nodup_singleton _, ?_⟩,
      List.nodup_append.mpr ⟨hT.flows, List.nodup_singleton _, ?_⟩⟩
    · rintro a ha b hb rfl
      rw [List.mem_singleton.mp hb] at ha
      exact hthread ha
    · rintro a ha b hb rfl
      rw [List.mem_singleton.mp hb] at ha
      exact hnew ha

/-- The row of an operation after an insertion: it was there, or it is the one that was inserted. -/
theorem operation?_create {r₀ r : ClientRow} (hU : U.operations = T.operations)
    (h : Tables.operation? { U with operations := U.operations ++ [r₀] } op = some r) :
    T.operation? op = some r ∨ T.operation? op = none ∧ r₀.operationId = op ∧ r = r₀ := by
  change Table.lookup ClientRow.operationId (U.operations ++ [r₀]) op = some r at h
  rw [hU, Table.lookup_insert] at h
  cases hop : T.operation? op with
  | some r' =>
    rw [show Table.lookup _ T.operations op = some r' from hop] at h
    exact .inl h
  | none =>
    rw [show Table.lookup _ T.operations op = none from hop, Option.none_or] at h
    split_ifs at h with hkey
    exact .inr ⟨rfl, hkey, (Option.some.inj h).symm⟩

/-- **A flow is never taken from its thread.** -/
theorem Threads.lookup (h : Threads store T T') (hflow : T.flows.lookup thread = some flow) :
    T'.flows.lookup thread = some flow := by
  cases h with
  | same hflows => rwa [hflows]
  | create _ hflows => exact hflows.lookup.2 _ _ hflow

/-- An operation keeps its native call and its flow. -/
theorem Threads.row (h : Threads store T T') {r : ClientRow} (hr : T.operation? op = some r) :
    ∃ r', T'.operation? op = some r' ∧ r'.identity = r.identity ∧ r'.flowId = r.flowId := by
  cases h with
  | same _ hrows =>
    have hop := hrows op
    rw [hr] at hop
    generalize T'.operation? op = o' at hop ⊢
    cases hop with
    | some hcarried => exact ⟨_, rfl, hcarried.identity, hcarried.flowId⟩
  | @create op' flow origin digest prompt artifactIds wait now U hnew hflows =>
    refine ⟨r, ?_, rfl, rfl⟩
    change Table.lookup ClientRow.operationId (U.operations ++ [_]) op = some r
    rw [hflows.rest.1, Table.lookup_insert, show Table.lookup _ T.operations op = some r from hr]
    rfl

/-- **Flows and threads stay one to one.** -/
theorem Threads.threaded (h : Threads store T T') (hT : T.Threaded) : T'.Threaded := by
  cases h with
  | same hflows hrows =>
    have hback : ∀ op r', T'.operation? op = some r' →
        ∃ r, T.operation? op = some r ∧ Carried r r' := by
      intro op r' hr'
      have hop := hrows op
      rw [hr'] at hop
      generalize T.operation? op = o at hop
      cases hop with
      | some hcarried => exact ⟨_, rfl, hcarried⟩
    constructor
    · exact hflows ▸ hT.threads
    · exact hflows ▸ hT.flows
    · intro op r' hr'
      obtain ⟨r, hr, hcarried⟩ := hback op r' hr'
      have horigin : r'.origin = r.origin := congrArg Prod.snd hcarried.identity
      rw [hflows, horigin, hcarried.flowId]
      exact hT.rows op r hr
    · intro op r' p hr' hp
      obtain ⟨r, hr, hcarried⟩ := hback op r' hr'
      rw [hcarried.flowId]
      refine hT.payloads op r p hr ?_
      obtain heq | hnone := hcarried.payload
      · exact heq ▸ hp
      · cases hnone.symm.trans hp
  | create hnew hflows =>
    obtain ⟨hthreads, hflowIds⟩ := hflows.nodup hT
    refine ⟨hthreads, hflowIds, fun op r hr => ?_, fun op r p hr hp => ?_⟩
    · obtain hold | ⟨-, -, rfl⟩ := operation?_create hflows.rest.1 hr
      · exact hflows.lookup.2 _ _ (hT.rows op r hold)
      · exact hflows.lookup.1
    · obtain hold | ⟨-, hkey, rfl⟩ := operation?_create hflows.rest.1 hr
      · exact hT.payloads op r p hold hp
      · obtain rfl := Option.some.inj hp
        exact ⟨hkey, rfl⟩

/-- **`create` gives the operation the flow of its thread.** -/
theorem create_flow {s s' : Session} {origin : NativeOrigin} {prompt : String}
    {artifactIds : List String} {wait : ℕ} (hT : s.tables.Threaded) (hD : s.tables.Distinct)
    (h : store.create origin prompt artifactIds wait s = .ok (op, s')) :
    ∃ r, s'.tables.operation? op = some r ∧ r.origin = origin ∧
      s'.tables.flows.lookup origin.threadId = some r.flowId := by
  obtain ⟨r, hr, rfl⟩ := create_row hD h
  exact ⟨r, hr, rfl, ((create_threads h).threaded hT).rows op r hr⟩

/-! ### Payloads -/

/-- What `payload` returns is in the row of its operation. -/
theorem payload_eq_ok {s s' : Session} {p : Payload} (h : payload op s = .ok (some p, s')) :
    ∃ r, s.tables.operation? op = some r ∧ r.payload = some p := by
  simp only [payload, Tx.bind_eq_ok, row_eq_ok] at h
  obtain ⟨r, _, ⟨hr, -, rfl⟩, h⟩ := h
  cases hp : r.payload with
  | none =>
    rw [hp] at h
    cases (Prod.mk.inj (Tx.pure_eq_ok.mp h)).1
  | some p' =>
    simp only [hp, Tx.bind_eq_ok, time_eq_ok] at h
    obtain ⟨now, _, -, h⟩ := h
    split_ifs at h with hexpired
    · cases (Prod.mk.inj (Tx.pure_eq_ok.mp h)).1
    · obtain rfl := Option.some.inj (Prod.mk.inj (Tx.pure_eq_ok.mp h)).1
      exact ⟨r, hr, hp⟩

end

end HermesGateway.Client
