import HermesGateway.Client.Store

/-!
# What a method does to the client's rows

One theorem for each method of `ClientStore`: what a successful call does to the row of any
operation, and to the cursor. As on the broker's side, nothing after this module unfolds a method.

The methods the native delivery worker calls are kept apart from the others, because it is the
only coroutine that calls them.

## Main definitions

* `ClientStore.merged` — the row `accept_snapshot` leaves
* `RowStep` — what a method other than the worker's can do to one row
* `Call`, `ClientStore.perform` — any of these methods

## Main results

* `acceptSnapshot_eq_ok` — `accept_snapshot` merges into the row of the snapshot's operation
* `perform_rows` — every other method takes each row through a `RowStep`
* `claimDelivery_eq_ok`, `finishDelivery_eq_ok`, `startup_eq_ok` — the worker's methods, the repair
-/

namespace HermesGateway.Client

open ClientStore

/-! ### Statements -/

section

variable {s s' : Session}

theorem time_eq_ok {t : Time} :
    time s = .ok (t, s') ↔ s.clock 0 = t ∧ { s with clock := fun n => s.clock (n + 1) } = s' := by
  rw [time, Tx.modifyGet_eq_ok, Prod.mk.injEq]

theorem uuid4_eq_ok {u : Uuid} :
    uuid4 s = .ok (u, s') ↔ s.uuids 0 = u ∧ { s with uuids := fun n => s.uuids (n + 1) } = s' := by
  rw [uuid4, Tx.modifyGet_eq_ok, Prod.mk.injEq]

theorem readTables_eq_ok {T : Tables} :
    readTables s = .ok (T, s') ↔ s.tables = T ∧ s = s' := by
  rw [readTables, Tx.modifyGet_eq_ok, Prod.mk.injEq]

theorem writeTables_eq_ok {f : Tables → Tables} {r : Unit × Session} :
    writeTables f s = .ok r ↔ { s with tables := f s.tables } = r.2 := by
  rw [writeTables, Tx.modify_eq_ok, Prod.ext_iff]
  simp

theorem row_eq_ok {op : Uuid} {origin : Option NativeOrigin} {r : ClientRow} :
    row op origin s = .ok (r, s') ↔ s.tables.operation? op = some r ∧
      (∀ o, origin = some o → r.origin.threadId = o.threadId) ∧ s = s' := by
  simp only [row, Tx.bind_eq_ok, readTables_eq_ok]
  constructor
  · rintro ⟨T, t, ⟨rfl, rfl⟩, h⟩
    cases hr : s.tables.operation? op with
    | none => simp [hr, Tx.throw_eq_ok] at h
    | some r' =>
      simp only [hr, Tx.bind_eq_ok, Tx.refuse_eq_ok, Tx.pure_eq_ok] at h
      obtain ⟨_, _, ⟨horigin, heq⟩, hret⟩ := h
      obtain ⟨-, rfl⟩ := Prod.mk.inj heq
      obtain ⟨rfl, rfl⟩ := Prod.mk.inj hret
      exact ⟨rfl, fun o ho => by_contra fun hne => horigin ⟨o, ho, hne⟩, rfl⟩
  · rintro ⟨hr, horigin, rfl⟩
    refine ⟨_, _, ⟨rfl, rfl⟩, ?_⟩
    simp only [hr, Tx.bind_eq_ok, Tx.refuse_eq_ok, Tx.pure_eq_ok]
    refine ⟨(), s, ⟨?_, rfl⟩, rfl⟩
    rintro ⟨o, ho, hne⟩
    exact hne (horigin o ho)

theorem native_eq_ok {v : Json} {name : String} {u : Uuid} :
    native v name s = .ok (u, s') ↔ v.str?.bind nativeUuid = some u ∧ s = s' := by
  unfold native
  cases hv : v.str? with
  | none => simp [Tx.throw_eq_ok]
  | some text =>
    cases hu : nativeUuid text with
    | none => simp [Tx.throw_eq_ok, hu]
    | some u' => simp [Tx.pure_eq_ok, hu]

end

/-! ### Tables -/

section

variable {T : Tables} {op op' : Uuid}

/-- The row of an operation after an update that keeps the identifiers. -/
theorem operation?_update {f : ClientRow → ClientRow}
    (hf : ∀ r, (f r).operationId = r.operationId) :
    (T.update op f).operation? op' =
      if op' = op then (T.operation? op').map f else T.operation? op' := by
  rw [Tables.operation?, Tables.update, Table.lookup_modify hf]
  rfl

theorem operation?_update_of {f : ClientRow → ClientRow} {r : ClientRow}
    (hr : T.operation? op = some r) (op' : Uuid)
    (hf : ∀ r, (f r).operationId = r.operationId := by exact fun _ => rfl) :
    (T.update op f).operation? op' = if op' = op then some (f r) else T.operation? op' := by
  rw [operation?_update hf]
  split_ifs with hop
  · rw [hop, hr]
    rfl
  · rfl

@[simp] theorem operation?_receipt (resultId : String) (status : ReceiptStatus) :
    (T.receipt op resultId status).operation? op' = T.operation? op' := by
  unfold Tables.receipt
  split_ifs <;> rfl

@[simp] theorem cursor_receipt (resultId : String) (status : ReceiptStatus) :
    (T.receipt op resultId status).cursor = T.cursor := by
  unfold Tables.receipt
  split_ifs <;> rfl

@[simp] theorem operations_receipt (resultId : String) (status : ReceiptStatus) :
    (T.receipt op resultId status).operations = T.operations := by
  unfold Tables.receipt
  split_ifs <;> rfl

@[simp] theorem cursor_update (f : ClientRow → ClientRow) : (T.update op f).cursor = T.cursor := rfl

theorem receiptOf_eq (op : Uuid) (v : Json) (status : ReceiptStatus) (T : Tables) :
    receiptOf op v status T = T ∨ ∃ id, receiptOf op v status T = T.receipt op id status := by
  unfold receiptOf
  cases (member "result_id" v).str? with
  | none => exact .inl rfl
  | some id => exact .inr ⟨id, rfl⟩

@[simp] theorem operation?_receiptOf (v : Json) (status : ReceiptStatus) :
    (receiptOf op v status T).operation? op' = T.operation? op' := by
  obtain heq | ⟨id, heq⟩ := receiptOf_eq op v status T
  · rw [heq]
  · rw [heq, operation?_receipt]

@[simp] theorem cursor_receiptOf (v : Json) (status : ReceiptStatus) :
    (receiptOf op v status T).cursor = T.cursor := by
  obtain heq | ⟨id, heq⟩ := receiptOf_eq op v status T
  · rw [heq]
  · rw [heq, cursor_receipt]

@[simp] theorem operations_receiptOf (v : Json) (status : ReceiptStatus) :
    (receiptOf op v status T).operations = T.operations := by
  obtain heq | ⟨id, heq⟩ := receiptOf_eq op v status T
  · rw [heq]
  · rw [heq, operations_receipt]

theorem operationId_of_operation? {r : ClientRow} (h : T.operation? op = some r) :
    r.operationId = op :=
  Table.key_of_lookup h

end

/-! ### `accept_snapshot` -/

/-- The operation a snapshot is about. -/
def operationOf (v : Json) : Option Uuid := (member "operation_id" v).str?.bind nativeUuid

/-- The row `accept_snapshot` leaves of an unexpired one. -/
def ClientStore.merged (r : ClientRow) (v : Json) (updated expires : Time) : ClientRow :=
  if Conflicts r.snapshot v then { r with conflict := true }
  else if Replaces r.snapshot v then storedRow r v updated expires
  else r

/-- What is never changed of a row. -/
def ClientRow.identity (r : ClientRow) : Uuid × NativeOrigin := (r.operationId, r.origin)

/-- The identities of all rows. -/
def Tables.identities (T : Tables) : List (Uuid × NativeOrigin) :=
  T.operations.map ClientRow.identity

theorem identities_map {f : ClientRow → ClientRow} (hf : ∀ r, (f r).identity = r.identity)
    (rows : List ClientRow) :
    (rows.map f).map ClientRow.identity = rows.map ClientRow.identity := by
  rw [List.map_map]
  exact List.map_congr_left fun r _ => hf r

theorem identities_update {T : Tables} {op : Uuid} {f : ClientRow → ClientRow}
    (hf : ∀ r, (f r).identity = r.identity) : (T.update op f).identities = T.identities := by
  refine identities_map (fun r => ?_) T.operations
  split_ifs
  · exact hf r
  · rfl

theorem operation?_of_map {T T' : Tables} {f : ClientRow → ClientRow}
    (h : T'.operations = T.operations.map f) (hf : ∀ r, (f r).identity = r.identity) (op : Uuid) :
    T'.operation? op = (T.operation? op).map f := by
  have hkey : ∀ r, (f r).operationId = r.operationId := fun r => congrArg Prod.fst (hf r)
  rw [Tables.operation?, h, Table.lookup_map hkey]
  rfl

section

variable {store : ClientStore} {s s' : Session}

/-- The flow a snapshot is about. -/
def flowIdOf (v : Json) : Option Uuid := (member "flow_id" v).str?.bind nativeUuid

/-- A result identifier is `None` or the text of a UUID. -/
def ResultIdOk (v : Json) : Prop :=
  member "result_id" v = .null ∨ ∃ id, member "result_id" v = .str id ∧ nativeUuid id ≠ none

theorem eq_str_of_str? {v : Json} {id : String} (h : v.str? = some id) : v = .str id := by
  cases v with
  | str text => rw [Option.some.inj h]
  | null | bool | int | float | arr | obj => cases h

theorem checkResultId_eq_ok {v : Json} {x : Unit × Session}
    (h : checkResultId v s = .ok x) : ResultIdOk v ∧ s = x.2 := by
  unfold checkResultId at h
  split_ifs at h with hnull
  · exact ⟨.inl hnull, congrArg Prod.snd (Tx.pure_eq_ok.mp h)⟩
  · simp only [Tx.bind_eq_ok, native_eq_ok, Tx.pure_eq_ok] at h
    obtain ⟨u, _, ⟨hid, rfl⟩, hret⟩ := h
    obtain ⟨id, hstr, hu⟩ := Option.bind_eq_some_iff.mp hid
    refine ⟨.inr ⟨id, eq_str_of_str? hstr, ?_⟩, congrArg Prod.snd hret⟩
    rw [hu]
    exact Option.some_ne_none u

/-- A snapshot passes the checks. -/
structure Passes (v : Json) (seq : Option ℤ) (x : Uuid × Uuid) : Prop where
  operationId : operationOf v = some x.1
  flowId : flowIdOf v = some x.2
  state : ∃ state, stateOf v = some state
  required : ∀ key ∈ ClientStore.required, v.get? key ≠ none
  resultId : ResultIdOk v
  terminal : TerminalSnapshot v → member "result_id" v ≠ .null
  cursor : ∀ n, seq = some n → 0 ≤ n

theorem checkResultId_of_ok {v : Json} (h : ResultIdOk v) : checkResultId v s = .ok ((), s) := by
  unfold checkResultId
  split_ifs with hnull
  · rfl
  · obtain hnull' | ⟨id, hid, hnative⟩ := h
    · exact absurd hnull' hnull
    · obtain ⟨u, hu⟩ := Option.ne_none_iff_exists'.mp hnative
      have hread : native (member "result_id" v) "result_id" s = .ok (u, s) :=
        native_eq_ok.mpr ⟨by rw [hid]; exact hu, rfl⟩
      rw [Tx.bind_of_ok hread]
      rfl

theorem checkSnapshot_eq_ok {v : Json} {seq : Option ℤ} {x : Uuid × Uuid} :
    checkSnapshot v seq s = .ok (x, s') ↔ Passes v seq x ∧ s' = s := by
  constructor
  · intro h
    simp only [checkSnapshot, Tx.bind_eq_ok, native_eq_ok] at h
    obtain ⟨op, _, ⟨hop, rfl⟩, flow, _, ⟨hflow, rfl⟩, h⟩ := h
    cases hstate : stateOf v with
    | none =>
      rw [hstate] at h
      cases hmem : member "state" v <;> simp [hmem, Tx.throw_eq_ok] at h
    | some state =>
      simp only [hstate, Tx.bind_eq_ok, Tx.refuse_eq_ok, Tx.pure_eq_ok] at h
      obtain ⟨_, _, ⟨hrequired, heq⟩, _, t, hresult, _, _, ⟨hterminal, heq'⟩, _, _,
        ⟨hseq, heq''⟩, hret⟩ := h
      obtain ⟨-, rfl⟩ := Prod.mk.inj heq
      obtain ⟨hid, rfl⟩ := checkResultId_eq_ok hresult
      obtain ⟨-, rfl⟩ := Prod.mk.inj heq'
      obtain ⟨-, rfl⟩ := Prod.mk.inj heq''
      obtain ⟨rfl, rfl⟩ := Prod.mk.inj hret
      refine ⟨⟨hop, hflow, ⟨state, hstate⟩, fun key hkey hnone => hrequired ⟨key, hkey, hnone⟩, hid,
        ?_, fun n hn => ?_⟩, rfl⟩
      · rintro ⟨state', hstate', hfinal⟩ hnull
        rw [Option.some.inj (hstate'.symm.trans hstate)] at hfinal
        exact hterminal ⟨hfinal, hnull⟩
      · by_contra hneg
        exact hseq ⟨n, hn, not_le.mp hneg⟩
  · rintro ⟨h, rfl⟩
    obtain ⟨state, hstate⟩ := h.state
    have hrequired : ¬ ∃ key ∈ ClientStore.required, v.get? key = none :=
      fun ⟨key, hkey, hnone⟩ => h.required key hkey hnone
    have hterminal : ¬ (state.Terminal ∧ member "result_id" v = .null) :=
      fun ⟨hfinal, hnull⟩ => h.terminal ⟨state, hstate, hfinal⟩ hnull
    have hcursor : ¬ ∃ n, seq = some n ∧ n < 0 :=
      fun ⟨n, hn, hneg⟩ => not_lt.mpr (h.cursor n hn) hneg
    rw [checkSnapshot, Tx.bind_of_ok (native_eq_ok.mpr ⟨h.operationId, rfl⟩),
      Tx.bind_of_ok (native_eq_ok.mpr ⟨h.flowId, rfl⟩)]
    simp only [hstate]
    rw [Tx.bind_of_ok (Tx.refuse_of_not hrequired), Tx.bind_of_ok (checkResultId_of_ok h.resultId),
      Tx.bind_of_ok (Tx.refuse_of_not hterminal), Tx.bind_of_ok (Tx.refuse_of_not hcursor)]
    rfl

theorem storedReceipt_eq (op : Uuid) (v : Json) (T : Tables) :
    storedReceipt op v T = T ∨ ∃ id, storedReceipt op v T = T.receipt op id .stored := by
  unfold storedReceipt
  split
  · next id _ =>
    split_ifs
    · exact Or.inr ⟨id, rfl⟩
    · exact Or.inl rfl
  · exact Or.inl rfl

@[simp] theorem operations_storedReceipt (op : Uuid) (v : Json) (T : Tables) :
    (storedReceipt op v T).operations = T.operations := by
  obtain heq | ⟨id, heq⟩ := storedReceipt_eq op v T
  · rw [heq]
  · rw [heq, operations_receipt]

@[simp] theorem cursor_storedReceipt (op : Uuid) (v : Json) (T : Tables) :
    (storedReceipt op v T).cursor = T.cursor := by
  obtain heq | ⟨id, heq⟩ := storedReceipt_eq op v T
  · rw [heq]
  · rw [heq, cursor_receipt]

/-- What `accept_snapshot` does to the tables before it moves the cursor. -/
inductive Merges (store : ClientStore) (v : Json) (op flow : Uuid) (T : Tables) : Tables → Prop
  | absent (hr : T.operation? op = none) : Merges store v op flow T T
  | expired {r : ClientRow} (hr : T.operation? op = some r) (h : r.expired = true) :
      Merges store v op flow T T
  | conflict {r : ClientRow} (hr : T.operation? op = some r) (hlive : r.expired = false)
      (hflow : flow = r.flowId) (h : Conflicts r.snapshot v) :
      Merges store v op flow T (T.update op fun r => { r with conflict := true })
  | replace {r : ClientRow} (hr : T.operation? op = some r) (hlive : r.expired = false)
      (hflow : flow = r.flowId) (hnot : ¬ Conflicts r.snapshot v) (h : Replaces r.snapshot v)
      (updated expires : Time) : Merges store v op flow T
        (storedReceipt op v (T.update op fun r => storedRow r v updated expires))
  | keep {r : ClientRow} (hr : T.operation? op = some r) (hlive : r.expired = false)
      (hflow : flow = r.flowId) (hnot : ¬ Conflicts r.snapshot v) (h : ¬ Replaces r.snapshot v) :
      Merges store v op flow T T

theorem merges_of_mergeSnapshot {r : ClientRow} {v : Json} {op flow : Uuid} {x : Unit × Session}
    (hr : s.tables.operation? op = some r) (hlive : r.expired = false) (hflow : flow = r.flowId)
    (h : store.mergeSnapshot r v s = .ok x) : Merges store v op flow s.tables x.2.tables := by
  have hop := operationId_of_operation? hr
  unfold mergeSnapshot at h
  rw [hop] at h
  split_ifs at h with hconflict hreplace
  · rw [writeTables_eq_ok] at h
    rw [← h]
    exact .conflict hr hlive hflow hconflict
  · simp only [storeSnapshot, Tx.bind_eq_ok, time_eq_ok, writeTables_eq_ok] at h
    obtain ⟨u, _, ⟨-, rfl⟩, e, _, ⟨-, rfl⟩, _, _, rfl, h⟩ := h
    rw [← h, hop]
    exact .replace hr hlive hflow hconflict hreplace u _
  · rw [Tx.pure_eq_ok] at h
    rw [← h]
    exact .keep hr hlive hflow hconflict hreplace

theorem merges_of_applySnapshot {flow op : Uuid} {v : Json} {x : Unit × Session}
    (h : store.applySnapshot flow v (s.tables.operation? op) s = .ok x) :
    Merges store v op flow s.tables x.2.tables := by
  cases hr : s.tables.operation? op with
  | none =>
    rw [hr] at h
    rw [← Tx.pure_eq_ok.mp h]
    exact .absent hr
  | some r =>
    rw [hr] at h
    simp only [applySnapshot] at h
    split_ifs at h with hexpired
    · rw [← Tx.pure_eq_ok.mp h]
      exact .expired hr hexpired
    · simp only [Tx.bind_eq_ok, Tx.refuse_eq_ok] at h
      obtain ⟨_, _, ⟨hflow, heq⟩, h⟩ := h
      obtain ⟨-, rfl⟩ := Prod.mk.inj heq
      exact merges_of_mergeSnapshot hr (by simpa using hexpired) (not_not.mp hflow) h

/-- The tables with the cursor where a sequence number leaves it. -/
def Tables.reach (T : Tables) : Option ℤ → Tables
  | none => T
  | some n => T.raise n.toNat

@[simp] theorem operation?_reach (T : Tables) (seq : Option ℤ) (op : Uuid) :
    (T.reach seq).operation? op = T.operation? op := by
  cases seq <;> rfl

@[simp] theorem operations_reach (T : Tables) (seq : Option ℤ) :
    (T.reach seq).operations = T.operations := by
  cases seq <;> rfl

@[simp] theorem receipts_reach (T : Tables) (seq : Option ℤ) :
    (T.reach seq).receipts = T.receipts := by
  cases seq <;> rfl

/-- **What `accept_snapshot` does**: its checks, the merge and the cursor. -/
theorem acceptSnapshot_merges {v : Json} {seq : Option ℤ} {x : Unit × Session}
    (h : store.acceptSnapshot v seq s = .ok x) :
    ∃ op flow, Passes v seq (op, flow) ∧
      ∃ T, Merges store v op flow s.tables T ∧ x.2.tables = T.reach seq := by
  simp only [acceptSnapshot, Tx.bind_eq_ok, readTables_eq_ok] at h
  obtain ⟨⟨op, flow⟩, _, hcheck, T, _, ⟨rfl, rfl⟩, _, t, happly, hmove⟩ := h
  obtain ⟨hpasses, rfl⟩ := checkSnapshot_eq_ok.mp hcheck
  refine ⟨op, flow, hpasses, t.tables, merges_of_applySnapshot happly, ?_⟩
  cases seq with
  | none =>
    rw [← Tx.pure_eq_ok.mp hmove]
    rfl
  | some n =>
    rw [moveCursor, writeTables_eq_ok] at hmove
    rw [← hmove]
    rfl

/-- The flow is that of the operation, if it is known and unexpired. -/
def Tables.Agrees (T : Tables) (op flow : Uuid) : Prop :=
  ∀ r, T.operation? op = some r → r.expired = false → flow = r.flowId

theorem Merges.agrees {v : Json} {op flow : Uuid} {T T' : Tables}
    (h : Merges store v op flow T T') : T.Agrees op flow := by
  intro r hr hlive
  cases h with
  | absent hnone => cases hr.symm.trans hnone
  | expired hr' hexpired =>
    rw [← Option.some.inj (hr.symm.trans hr'), hlive] at hexpired
    cases hexpired
  | conflict hr' _ hflow | replace hr' _ hflow | keep hr' _ hflow =>
    rw [Option.some.inj (hr.symm.trans hr')]
    exact hflow

/-- **What `accept_snapshot` takes**: what passes the checks and agrees in its flow. -/
theorem acceptSnapshot_of_passes {v : Json} {seq : Option ℤ} {op flow : Uuid}
    (hpasses : Passes v seq (op, flow)) (hagrees : s.tables.Agrees op flow) :
    ∃ s', store.acceptSnapshot v seq s = .ok ((), s') := by
  have hmerge : ∀ r, ∃ s', store.mergeSnapshot r v s = .ok ((), s') := by
    intro r
    unfold mergeSnapshot
    split_ifs <;> exact ⟨_, rfl⟩
  have happly : ∃ s', store.applySnapshot flow v (s.tables.operation? op) s = .ok ((), s') := by
    cases hr : s.tables.operation? op with
    | none => exact ⟨s, rfl⟩
    | some r =>
      simp only [applySnapshot]
      split_ifs with hexpired
      · exact ⟨s, rfl⟩
      · have hflow := hagrees r hr (by simpa using hexpired)
        rw [Tx.bind_of_ok (Tx.refuse_of_not (not_not.mpr hflow))]
        exact hmerge r
  have hmove : ∀ t : Session, ∃ s', moveCursor seq t = .ok ((), s') := by
    intro t
    cases seq with
    | none => exact ⟨t, rfl⟩
    | some n => exact ⟨_, rfl⟩
  obtain ⟨t, happly⟩ := happly
  obtain ⟨s', hmove⟩ := hmove t
  refine ⟨s', ?_⟩
  rw [acceptSnapshot, Tx.bind_of_ok (checkSnapshot_eq_ok.mpr ⟨hpasses, rfl⟩)]
  dsimp only
  rw [Tx.bind_of_ok (readTables_eq_ok.mpr ⟨rfl, rfl⟩), Tx.bind_of_ok happly, hmove]

/-- The rows after a merge, and what else it leaves. -/
theorem Merges.rows {v : Json} {op flow : Uuid} {T T' : Tables} (h : Merges store v op flow T T') :
    T'.cursor = T.cursor ∧ T'.identities = T.identities ∧
      ∃ updated expires, ∀ op', T'.operation? op' =
        if op' = op then (T.operation? op).map fun r =>
          if r.expired = true then r else merged r v updated expires
        else T.operation? op' := by
  have hsame : ∀ {o : Option ClientRow}, o = T.operation? op → ∀ op',
      T.operation? op' = if op' = op then o else T.operation? op' := by
    rintro o rfl op'
    split_ifs with hop
    · rw [hop]
    · rfl
  cases h with
  | absent hr =>
    refine ⟨rfl, rfl, 0, 0, hsame ?_⟩
    rw [hr]
    rfl
  | expired hr hexpired =>
    refine ⟨rfl, rfl, 0, 0, hsame ?_⟩
    rw [hr, Option.map_some, if_pos hexpired]
  | conflict hr hlive _ hconflict =>
    refine ⟨rfl, identities_update fun _ => rfl, 0, 0, fun op' => ?_⟩
    rw [operation?_update_of hr, hr]
    simp [hlive, merged, hconflict]
  | replace hr hlive _ hnot hreplace u e =>
    refine ⟨by simp, ?_, u, e, fun op' => ?_⟩
    · rw [Tables.identities, operations_storedReceipt]
      exact identities_update fun _ => rfl
    · rw [Tables.operation?, operations_storedReceipt, ← Tables.operation?,
        operation?_update_of hr, hr]
      simp [hlive, merged, hnot, hreplace]
  | keep hr hlive _ hnot hkeep =>
    refine ⟨rfl, rfl, 0, 0, hsame ?_⟩
    rw [hr]
    simp [hlive, merged, hnot, hkeep]

/-- Where a sequence number leaves the cursor. -/
def advanced (cursor : ℕ) : Option ℤ → ℕ
  | none => cursor
  | some n => max cursor n.toNat

theorem cursor_reach (T : Tables) (seq : Option ℤ) :
    (T.reach seq).cursor = advanced T.cursor seq := by
  cases seq <;> rfl

theorem le_advanced (cursor : ℕ) (seq : Option ℤ) : cursor ≤ advanced cursor seq := by
  cases seq with
  | none => exact le_rfl
  | some n => exact le_max_left _ _

/-- `accept_snapshot` merges the snapshot into the row of its operation, if there is one that is
not expired, and moves the cursor, both or neither. -/
theorem acceptSnapshot_eq_ok {v : Json} {seq : Option ℤ} {x : Unit × Session}
    (h : store.acceptSnapshot v seq s = .ok x) :
    ∃ op, operationOf v = some op ∧ (∃ state, stateOf v = some state) ∧
      (∀ n, seq = some n → 0 ≤ n) ∧ x.2.tables.cursor = advanced s.tables.cursor seq ∧
      x.2.tables.identities = s.tables.identities ∧
      ∃ updated expires, ∀ op', x.2.tables.operation? op' =
        if op' = op then (s.tables.operation? op').map fun r =>
          if r.expired = true then r else merged r v updated expires
        else s.tables.operation? op' := by
  obtain ⟨op, flow, hpasses, T, hmerges, htables⟩ := acceptSnapshot_merges h
  obtain ⟨hcursor, hids, u, e, hrows⟩ := hmerges.rows
  refine ⟨op, hpasses.operationId, hpasses.state, hpasses.cursor, ?_, ?_, u, e, fun op' => ?_⟩
  · rw [htables, cursor_reach, hcursor]
  · rw [htables, Tables.identities, operations_reach]
    exact hids
  · rw [htables, operation?_reach, hrows op']
    split_ifs with hop'
    · rw [hop']
    · rfl

/-- `ingest` is `accept_snapshot` on a snapshot of the expected operation. -/
theorem ingest_eq_ok {v : Json} {seq : Option ℤ} {expected : Option Uuid} {x : Unit × Session}
    (h : store.ingest v seq expected s = .ok x) :
    (∀ op, expected = some op → member "operation_id" v = .str op.text) ∧
      store.acceptSnapshot v seq s = .ok x := by
  simp only [ingest, Tx.bind_eq_ok, Tx.refuse_eq_ok] at h
  obtain ⟨_, _, ⟨hid, heq⟩, h⟩ := h
  obtain ⟨-, rfl⟩ := Prod.mk.inj heq
  refine ⟨fun op hop => ?_, h⟩
  by_contra hne
  exact hid (Or.inr (by simpa [hop] using hne))

end

/-! ### The other methods -/

/-- A call of a method that coroutines other than the native delivery worker make, those apart that
move the cursor. -/
inductive Call
  | create (origin : NativeOrigin) (prompt : String) (artifactIds : List String) (wait : ℕ)
  | view (op : Uuid) (origin : NativeOrigin) (consume : Bool)
  | releaseInline (op : Uuid)
  | markSubmission (op : Uuid) (state : SubmissionState)
  | cancelState (op : Uuid) (state : CancelState)
  | receiptSent (receipt : ReceiptRow)
  | prune

/-- Make a call. -/
def ClientStore.perform (store : ClientStore) : Call → ClientTx Unit
  | .create origin prompt artifactIds wait => do
    let _ ← store.create origin prompt artifactIds wait
  | .view op origin consume => do
    let _ ← ClientStore.view op origin consume
  | .releaseInline op => ClientStore.releaseInline op
  | .markSubmission op state => ClientStore.markSubmission op state
  | .cancelState op state => ClientStore.cancelState op state
  | .receiptSent receipt => ClientStore.receiptSent receipt
  | .prune => ClientStore.prune

/-- What a call can do to the row of an operation. -/
inductive RowStep (store : ClientStore) : Option ClientRow → Option ClientRow → Prop
  | same (r : Option ClientRow) : RowStep store r r
  | create (op flow : Uuid) (origin : NativeOrigin) (digest prompt : String)
      (artifactIds : List String) (wait : ℕ) (now : Time) : RowStep store none
        (some (store.createdRow op flow origin digest prompt artifactIds wait now))
  | consume {r : ClientRow} (h : r.deliveryState ∈ [.inlinePending, .ready, .unsupported]) :
      RowStep store (some r) (some { r with deliveryState := .inlineReturned })
  | release {r : ClientRow} (h : r.deliveryState = .inlinePending) :
      RowStep store (some r) (some { r with inlineDeadline := 0, deliveryState := .ready })
  | submission {r : ClientRow} (state : SubmissionState) :
      RowStep store (some r) (some { r with submissionState := state })
  | cancel {r : ClientRow} (state : CancelState) :
      RowStep store (some r) (some { r with cancelState := some state })
  | prune {r : ClientRow} (now : Time) : RowStep store (some r) (some (prunedRow now r))

/-- What a call can do to the identities: at most one comes in, and neither half of it was there. -/
def Grows (ids ids' : List (Uuid × NativeOrigin)) : Prop :=
  ids' = ids ∨ ∃ x, x.1 ∉ ids.map Prod.fst ∧ x.2 ∉ ids.map Prod.snd ∧ ids' = ids ++ [x]

section

variable {store : ClientStore} {s s' : Session}

/-- What `flowOf` does to the tables. -/
inductive Flows (thread flow : Uuid) (T : Tables) : Tables → Prop
  | known (h : T.flows.lookup thread = some flow) : Flows thread flow T T
  | fresh (hnone : T.flows.lookup thread = none) (hnew : flow ∉ T.flows.map Prod.snd) :
      Flows thread flow T { T with flows := T.flows ++ [(thread, flow)] }

theorem flowOf_eq_ok {thread flow : Uuid} (h : flowOf thread s = .ok (flow, s')) :
    Flows thread flow s.tables s'.tables := by
  simp only [flowOf, Tx.bind_eq_ok, uuid4_eq_ok, readTables_eq_ok] at h
  obtain ⟨fresh, _, ⟨-, rfl⟩, T, _, ⟨rfl, rfl⟩, h⟩ := h
  dsimp only at h
  cases hflow : s.tables.flows.lookup thread with
  | some flow' =>
    rw [hflow] at h
    obtain ⟨rfl, rfl⟩ := Prod.mk.inj (Tx.pure_eq_ok.mp h)
    exact .known hflow
  | none =>
    simp only [hflow, Tx.bind_eq_ok, Tx.refuse_eq_ok, writeTables_eq_ok, Tx.pure_eq_ok] at h
    obtain ⟨_, _, ⟨hnew, heq⟩, _, _, hwrite, hret⟩ := h
    obtain ⟨-, rfl⟩ := Prod.mk.inj heq
    obtain ⟨rfl, rfl⟩ := Prod.mk.inj hret
    rw [← hwrite]
    exact .fresh hflow hnew

/-- The digest of a command. -/
def ClientStore.digestOf (store : ClientStore) (prompt : String) (artifactIds : List String) :
    String :=
  store.sha256 (String.ofList (commandJson prompt artifactIds).canonical).toUTF8

/-- `create` finds the operation of the native call, or inserts it with the flow of the thread. -/
theorem create_inserts {origin : NativeOrigin} {prompt : String} {artifactIds : List String}
    {wait : ℕ} {op : Uuid} (h : store.create origin prompt artifactIds wait s = .ok (op, s')) :
    ((∃ r ∈ s.tables.operations, r.identity = (op, origin)) ∧ s' = s) ∨
      ((∀ r ∈ s.tables.operations, r.origin ≠ origin) ∧ s.tables.operation? op = none ∧
        ∃ flow now T, Flows origin.threadId flow s.tables T ∧
          s'.tables = { T with operations := T.operations ++ [store.createdRow op flow origin
            (store.digestOf prompt artifactIds) prompt artifactIds wait now] }) := by
  simp only [create, Tx.bind_eq_ok, Tx.refuse_eq_ok, readTables_eq_ok] at h
  obtain ⟨_, _, ⟨-, heq⟩, _, _, ⟨-, heq'⟩, _, t, hids, T, _, ⟨rfl, rfl⟩, h⟩ := h
  obtain ⟨-, rfl⟩ := Prod.mk.inj heq
  obtain ⟨-, rfl⟩ := Prod.mk.inj heq'
  obtain rfl : t = s := by
    refine Tx.forM_rec (I := fun _ u => t = u) rfl (fun a _ u w hnative ih => ?_) _ _ hids
    simp only [Tx.bind_eq_ok, native_eq_ok, Tx.pure_eq_ok] at hnative
    obtain ⟨_, _, ⟨-, rfl⟩, hret⟩ := hnative
    exact ih.trans (Prod.mk.inj hret).2.symm
  cases hfind : t.tables.operations.find? fun r => r.origin = origin with
  | some existing =>
    simp only [hfind, Tx.bind_eq_ok, Tx.refuse_eq_ok, Tx.pure_eq_ok] at h
    obtain ⟨_, _, ⟨-, heq⟩, hret⟩ := h
    obtain ⟨-, rfl⟩ := Prod.mk.inj heq
    obtain ⟨rfl, rfl⟩ := Prod.mk.inj hret
    have horigin : existing.origin = origin := by simpa using List.find?_some hfind
    exact Or.inl ⟨⟨existing, List.mem_of_find?_eq_some hfind, Prod.ext rfl horigin⟩, rfl⟩
  | none =>
    simp only [hfind, Tx.bind_eq_ok, Tx.refuse_eq_ok, time_eq_ok, uuid4_eq_ok, writeTables_eq_ok,
      Tx.pure_eq_ok] at h
    obtain ⟨_, _, ⟨-, heq⟩, now, _, ⟨-, rfl⟩, op', _, ⟨-, rfl⟩, flow, u, hflow, _, _,
      ⟨hfresh, heq'⟩, _, _, hwrite, hret⟩ := h
    obtain ⟨-, rfl⟩ := Prod.mk.inj heq
    obtain ⟨-, rfl⟩ := Prod.mk.inj heq'
    obtain ⟨rfl, rfl⟩ := Prod.mk.inj hret
    have hflows := flowOf_eq_ok hflow
    rw [← hwrite]
    refine Or.inr ⟨fun r hr horigin => ?_, by simpa using hfresh, flow, now, u.tables, hflows, rfl⟩
    exact absurd horigin (by simpa using List.find?_eq_none.mp hfind r hr)

theorem Flows.rest {thread flow : Uuid} {T T' : Tables} (h : Flows thread flow T T') :
    T'.operations = T.operations ∧ T'.cursor = T.cursor ∧ T'.receipts = T.receipts := by
  cases h <;> exact ⟨rfl, rfl, rfl⟩

theorem create_eq_ok {origin : NativeOrigin} {prompt : String} {artifactIds : List String}
    {wait : ℕ} {op : Uuid} (h : store.create origin prompt artifactIds wait s = .ok (op, s')) :
    ((∃ r ∈ s.tables.operations, r.identity = (op, origin)) ∧ s' = s) ∨
      ((∀ r ∈ s.tables.operations, r.origin ≠ origin) ∧ s.tables.operation? op = none ∧
        s'.tables.cursor = s.tables.cursor ∧ ∃ flow now, s'.tables.operations =
          s.tables.operations ++ [store.createdRow op flow origin
            (store.digestOf prompt artifactIds) prompt artifactIds wait now]) := by
  refine (create_inserts h).imp_right ?_
  rintro ⟨horigin, hnone, flow, now, T, hflows, htables⟩
  rw [htables]
  exact ⟨horigin, hnone, hflows.rest.2.1, flow, now, congrArg (· ++ _) hflows.rest.1⟩

theorem create_rows {origin : NativeOrigin} {prompt : String} {artifactIds : List String}
    {wait : ℕ} {op : Uuid} (h : store.create origin prompt artifactIds wait s = .ok (op, s')) :
    (∀ op, RowStep store (s.tables.operation? op) (s'.tables.operation? op)) ∧
      Grows s.tables.identities s'.tables.identities ∧ s'.tables.cursor = s.tables.cursor := by
  obtain ⟨-, rfl⟩ | ⟨horigin, hop, hcursor, flow, now, hops⟩ := create_eq_ok h
  · exact ⟨fun op => .same _, Or.inl rfl, rfl⟩
  · refine ⟨fun op' => ?_, Or.inr ⟨(op, origin), ?_, ?_, ?_⟩, hcursor⟩
    · rw [Tables.operation?, Tables.operation?, hops]
      by_cases hop' : op = op'
      · subst hop'
        rw [Table.lookup_insert, show Table.lookup _ s.tables.operations op = none from hop,
          Option.none_or]
        change RowStep store none (if op = op then _ else none)
        rw [if_pos rfl]
        exact .create ..
      · rw [Table.lookup_insert_of_ne hop']
        exact .same _
    · rintro hmem
      obtain ⟨_, hx, rfl⟩ := List.mem_map.mp hmem
      obtain ⟨r, hr, rfl⟩ := List.mem_map.mp hx
      exact Table.lookup_eq_none.mp hop r hr rfl
    · rintro hmem
      obtain ⟨_, hx, heq⟩ := List.mem_map.mp hmem
      obtain ⟨r, hr, rfl⟩ := List.mem_map.mp hx
      exact horigin r hr heq
    · rw [Tables.identities, hops, List.map_append]
      rfl

/-- A call that updates the row of one operation. -/
theorem update_rows {op : Uuid} {f : ClientRow → ClientRow} {x : Unit × Session}
    (h : writeTables (fun T => T.update op f) s = .ok x)
    (hf : ∀ r, RowStep store (some r) (some (f r)))
    (hid : ∀ r, (f r).identity = r.identity) :
    (∀ op, RowStep store (s.tables.operation? op) (x.2.tables.operation? op)) ∧
      Grows s.tables.identities x.2.tables.identities ∧ x.2.tables.cursor = s.tables.cursor := by
  rw [writeTables_eq_ok] at h
  rw [← h]
  refine ⟨fun op' => ?_, Or.inl (identities_update hid), rfl⟩
  rw [show ({ s with tables := s.tables.update op f } : Session).tables = s.tables.update op f
    from rfl, operation?_update fun r => congrArg Prod.fst (hid r)]
  split_ifs
  · cases s.tables.operation? op' with
    | none => exact .same _
    | some r => exact hf r
  · exact .same _

theorem identity_prunedRow (now : Time) (r : ClientRow) :
    (prunedRow now r).identity = r.identity := by
  unfold prunedRow
  dsimp only
  split <;> split_ifs <;> rfl

theorem view_rows {op : Uuid} {origin : NativeOrigin} {consume : Bool} {x : View × Session}
    (h : view op origin consume s = .ok x) :
    (∀ op, RowStep store (s.tables.operation? op) (x.2.tables.operation? op)) ∧
      Grows s.tables.identities x.2.tables.identities ∧ x.2.tables.cursor = s.tables.cursor := by
  obtain ⟨result, s'⟩ := x
  simp only [view, Tx.bind_eq_ok, row_eq_ok] at h
  obtain ⟨r, _, ⟨hr, -, rfl⟩, h⟩ := h
  split_ifs at h with hconsume hstate
  · simp only [Tx.bind_eq_ok, writeTables_eq_ok, Tx.pure_eq_ok] at h
    obtain ⟨_, _, rfl, _, _, rfl, hret⟩ := h
    obtain ⟨-, rfl⟩ := Prod.mk.inj hret
    refine ⟨fun op' => ?_, Or.inl ?_, by simp⟩
    · rw [operation?_receiptOf, operation?_update_of hr]
      split_ifs with hop
      · rw [hop, hr]
        exact .consume hstate
      · exact .same _
    · rw [Tables.identities, operations_receiptOf]
      exact identities_update fun _ => rfl
  · simp only [Tx.bind_eq_ok, writeTables_eq_ok, Tx.pure_eq_ok] at h
    obtain ⟨_, _, rfl, hret⟩ := h
    obtain ⟨-, rfl⟩ := Prod.mk.inj hret
    refine ⟨fun op' => ?_, Or.inl ?_, by simp⟩
    · rw [operation?_receiptOf]
      exact .same _
    · rw [Tables.identities, operations_receiptOf]
      rfl
  · obtain ⟨-, rfl⟩ := Prod.mk.inj (Tx.pure_eq_ok.mp h)
    exact ⟨fun op' => .same _, Or.inl rfl, rfl⟩

/-- What any of the calls does to the rows and to the cursor. -/
theorem perform_rows {c : Call} {x : Unit × Session} (h : store.perform c s = .ok x) :
    (∀ op, RowStep store (s.tables.operation? op) (x.2.tables.operation? op)) ∧
      Grows s.tables.identities x.2.tables.identities ∧ x.2.tables.cursor = s.tables.cursor := by
  cases c with
  | create origin prompt artifactIds wait =>
    simp only [perform, Tx.bind_eq_ok, Tx.pure_eq_ok] at h
    obtain ⟨op, _, hcreate, rfl⟩ := h
    exact create_rows hcreate
  | view op origin consume =>
    simp only [perform, Tx.bind_eq_ok, Tx.pure_eq_ok] at h
    obtain ⟨_, _, hview, rfl⟩ := h
    exact view_rows hview
  | releaseInline op =>
    refine update_rows h (fun r => ?_) (fun r => ?_)
    · split_ifs with hstate
      · exact .release hstate
      · exact .same _
    · split_ifs <;> rfl
  | markSubmission op state => exact update_rows h (fun r => .submission state) fun r => rfl
  | cancelState op state => exact update_rows h (fun r => .cancel state) fun r => rfl
  | receiptSent receipt =>
    rw [perform, receiptSent, writeTables_eq_ok] at h
    rw [← h]
    exact ⟨fun op => .same _, Or.inl rfl, rfl⟩
  | prune =>
    simp only [perform, ClientStore.prune, Tx.bind_eq_ok, time_eq_ok, writeTables_eq_ok] at h
    obtain ⟨now, _, ⟨-, rfl⟩, h⟩ := h
    have hops : x.2.tables.operations = s.tables.operations.map (prunedRow now) := by rw [← h]
    refine ⟨fun op => ?_, Or.inl ?_, by rw [← h]⟩
    swap
    · rw [Tables.identities, hops]
      exact identities_map (identity_prunedRow now) _
    rw [operation?_of_map hops (identity_prunedRow now)]
    cases s.tables.operation? op with
    | none => exact .same _
    | some r => exact .prune now

/-- `advance` raises the cursor and leaves the rows. -/
theorem advance_eq_ok {seq : ℤ} {x : Unit × Session} (h : advance seq s = .ok x) :
    x.2.tables = s.tables.raise seq.toNat := by
  simp only [advance, Tx.bind_eq_ok, Tx.refuse_eq_ok, writeTables_eq_ok] at h
  obtain ⟨_, _, ⟨-, heq⟩, h⟩ := h
  obtain ⟨-, rfl⟩ := Prod.mk.inj heq
  rw [← h]

/-! ### The methods of the native delivery worker -/

/-- `claim_delivery` takes up an operation that is ready, and changes nothing else. -/
theorem claimDelivery_eq_ok {op : Uuid} {x : Option (ClientRow × Json)}
    (h : claimDelivery op s = .ok (x, s')) :
    (x = none ∧ s'.tables = s.tables) ∨
      ∃ r id snapshot, s.tables.operation? op = some r ∧ r.expired = false ∧
        r.deliveryState = .ready ∧ r.snapshot = some snapshot ∧ Deliverable snapshot ∧
        x = some ({ r with deliveryId := some id }, snapshot) ∧
        s'.tables = s.tables.update op fun r =>
          { r with deliveryState := .enqueueing, deliveryId := some id } := by
  simp only [claimDelivery, Tx.bind_eq_ok, row_eq_ok] at h
  obtain ⟨r, _, ⟨hr, -, rfl⟩, h⟩ := h
  split_ifs at h with hskip
  · obtain ⟨rfl, rfl⟩ := Prod.mk.inj (Tx.pure_eq_ok.mp h)
    exact Or.inl ⟨rfl, rfl⟩
  · simp only [Tx.bind_eq_ok, time_eq_ok] at h
    obtain ⟨now, _, ⟨-, rfl⟩, h⟩ := h
    cases hsnapshot : r.snapshot with
    | none =>
      rw [hsnapshot] at h
      obtain ⟨rfl, rfl⟩ := Prod.mk.inj (Tx.pure_eq_ok.mp h)
      exact Or.inl ⟨rfl, rfl⟩
    | some snapshot =>
      simp only [hsnapshot] at h
      split_ifs at h with hearly
      · obtain ⟨rfl, rfl⟩ := Prod.mk.inj (Tx.pure_eq_ok.mp h)
        exact Or.inl ⟨rfl, rfl⟩
      · simp only [Tx.bind_eq_ok, uuid4_eq_ok, writeTables_eq_ok, Tx.pure_eq_ok] at h
        obtain ⟨id, _, ⟨-, rfl⟩, _, _, rfl, hret⟩ := h
        obtain ⟨rfl, rfl⟩ := Prod.mk.inj hret
        push Not at hskip hearly
        exact Or.inr ⟨r, id, snapshot, hr, by simpa using hskip.1, hskip.2, hsnapshot, hearly.2,
          by rw [hsnapshot], rfl⟩

/-- `finish_delivery` overwrites the delivery state. -/
theorem finishDelivery_eq_ok {op : Uuid} {status : DeliveryState} {queueId : Option String}
    {x : Unit × Session} (h : finishDelivery op status queueId s = .ok x) :
    x.2.tables.operations = (s.tables.update op fun r =>
      { r with deliveryState := status, queueId := queueId }).operations ∧
      x.2.tables.cursor = s.tables.cursor := by
  simp only [finishDelivery, Tx.bind_eq_ok, writeTables_eq_ok] at h
  obtain ⟨_, _, rfl, h⟩ := h
  split_ifs at h with hunknown
  · simp only [unknownReceipt, Tx.bind_eq_ok, row_eq_ok] at h
    obtain ⟨r, _, ⟨-, -, rfl⟩, h⟩ := h
    cases hsnapshot : r.snapshot with
    | none =>
      rw [hsnapshot] at h
      exact (Tx.throw_eq_ok.mp h).elim
    | some snapshot =>
      simp only [hsnapshot, writeTables_eq_ok] at h
      rw [← h]
      exact ⟨operations_receiptOf _ _, cursor_receiptOf _ _⟩
  · rw [← Tx.pure_eq_ok.mp h]
    exact ⟨rfl, rfl⟩

theorem identity_repairedRow (r : ClientRow) : (repairedRow r).identity = r.identity := by
  unfold repairedRow
  dsimp only
  split_ifs <;> rfl

theorem foldl_receipt (receipts : List (Uuid × String)) (T : Tables) :
    (receipts.foldl (fun T x => T.receipt x.1 x.2 .deliveryOutcomeUnknown) T).operations =
        T.operations ∧
      (receipts.foldl (fun T x => T.receipt x.1 x.2 .deliveryOutcomeUnknown) T).cursor =
        T.cursor := by
  induction receipts generalizing T with
  | nil => exact ⟨rfl, rfl⟩
  | cons x receipts ih =>
    obtain ⟨hops, hcursor⟩ := ih (T.receipt x.1 x.2 .deliveryOutcomeUnknown)
    exact ⟨hops.trans (operations_receipt _ _), hcursor.trans (cursor_receipt _ _)⟩

/-- The repair goes over every row. -/
theorem startup_eq_ok {x : Unit × Session} (h : startup s = .ok x) :
    x.2.tables.operations = s.tables.operations.map repairedRow ∧
      x.2.tables.cursor = s.tables.cursor := by
  simp only [startup, Tx.bind_eq_ok, writeTables_eq_ok] at h
  obtain ⟨_, _, rfl, h⟩ := h
  rw [← h]
  exact foldl_receipt _ _

theorem startup_rows {x : Unit × Session} (h : startup s = .ok x) (op : Uuid) :
    x.2.tables.operation? op = (s.tables.operation? op).map repairedRow := by
  exact operation?_of_map (startup_eq_ok h).1 identity_repairedRow op

end

end HermesGateway.Client
