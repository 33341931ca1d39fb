import HermesGateway.Client.Rows

/-!
# The client's receipts

A receipt is written in four places: with a snapshot that is stored, with a result that is handed
out, with a delivery whose outcome is unknown, and by the repair at the start. Each of them takes
the operation and the result identifier from the row. Receipts are marked as sent and never deleted.

## Main definitions

* `Tables.HasReceipt`, `Tables.Names` — the keys of the receipts, and what the rows name
* `Receives` — new receipts are of stored snapshots

## Main results

* `Daemon.Quiet.receives` — a step that ingests nothing
* `Merges.receipts` — a snapshot that is ingested
-/

namespace HermesGateway.Client

open ClientStore

/-- Whether there is a receipt with a key. -/
def Tables.HasReceipt (T : Tables) (k : Uuid × String × ReceiptStatus) : Prop :=
  ∃ x ∈ T.receipts, x.key = k

/-- Whether the stored snapshot of an operation has a result identifier. -/
def Tables.Names (T : Tables) (op : Uuid) (id : String) : Prop :=
  ∃ r v, T.operation? op = some r ∧ r.snapshot = some v ∧ member "result_id" v = .str id

/-- No receipt is lost, and a new one is of a stored snapshot. -/
structure Receives (T T' : Tables) : Prop where
  kept : ∀ k, T.HasReceipt k → T'.HasReceipt k
  named : ∀ k, T'.HasReceipt k → T.HasReceipt k ∨ T.Names k.1 k.2.1

section

variable {store : ClientStore} {s s' : Session} {T T' : Tables} {op : Uuid} {v : Json}
  {k : Uuid × String × ReceiptStatus}

theorem hasReceipt_congr (h : T'.receipts = T.receipts) : T'.HasReceipt k ↔ T.HasReceipt k := by
  rw [Tables.HasReceipt, Tables.HasReceipt, h]

theorem hasReceipt_receipt {resultId : String} {status : ReceiptStatus} :
    (T.receipt op resultId status).HasReceipt k ↔ T.HasReceipt k ∨ k = (op, resultId, status) := by
  unfold Tables.receipt
  split_ifs with h
  · refine ⟨.inl, fun hk => hk.elim id ?_⟩
    rintro rfl
    exact h
  · simp only [Tables.HasReceipt, List.mem_append, List.mem_singleton, or_and_right, exists_or,
      exists_eq_left]
    exact or_congr_right eq_comm

theorem Receives.of_eq (h : T'.receipts = T.receipts) : Receives T T' where
  kept _ := (hasReceipt_congr h).mpr
  named _ hk := .inl ((hasReceipt_congr h).mp hk)

/-- A receipt of what a row has stored. -/
theorem Receives.receiptOf {r : ClientRow} {status : ReceiptStatus} (hr : T.operation? op = some r)
    (hv : r.snapshot = some v) (h : T'.receipts = T.receipts) :
    Receives T (receiptOf op v status T') := by
  unfold ClientStore.receiptOf
  cases hid : (member "result_id" v).str? with
  | none => exact .of_eq h
  | some id =>
    refine ⟨fun k hk => hasReceipt_receipt.mpr (.inl ((hasReceipt_congr h).mpr hk)), fun k hk => ?_⟩
    obtain hk | rfl := hasReceipt_receipt.mp hk
    · exact .inl ((hasReceipt_congr h).mp hk)
    · exact .inr ⟨r, v, hr, hv, eq_str_of_str? hid⟩

/-- A receipt of what `view` shows of a row. -/
theorem Receives.shown {r : ClientRow} {status : ReceiptStatus} (hr : T.operation? op = some r)
    (h : T'.receipts = T.receipts) :
    Receives T (ClientStore.receiptOf op (r.snapshot.getD (placeholder r)) status T') := by
  cases hv : r.snapshot with
  | none => exact .of_eq h
  | some v => exact .receiptOf hr hv h

theorem create_receipts {origin : NativeOrigin} {prompt : String} {artifactIds : List String}
    {wait : ℕ} (h : store.create origin prompt artifactIds wait s = .ok (op, s')) :
    s'.tables.receipts = s.tables.receipts := by
  obtain ⟨-, rfl⟩ | ⟨-, -, flow, now, T, hflows, htables⟩ := create_inserts h
  · rfl
  · rw [htables]
    exact hflows.rest.2.2

theorem view_receives {origin : NativeOrigin} {consume : Bool} {x : View × Session}
    (h : view op origin consume s = .ok x) : Receives s.tables x.2.tables := by
  obtain ⟨result, s'⟩ := x
  simp only [view, Tx.bind_eq_ok, row_eq_ok] at h
  obtain ⟨r, _, ⟨hr, -, rfl⟩, h⟩ := h
  split_ifs at h with hconsume hstate
  · simp only [Tx.bind_eq_ok, writeTables_eq_ok, Tx.pure_eq_ok] at h
    obtain ⟨_, _, rfl, _, _, rfl, hret⟩ := h
    obtain ⟨-, rfl⟩ := Prod.mk.inj hret
    exact .shown hr rfl
  · simp only [Tx.bind_eq_ok, writeTables_eq_ok, Tx.pure_eq_ok] at h
    obtain ⟨_, _, rfl, hret⟩ := h
    obtain ⟨-, rfl⟩ := Prod.mk.inj hret
    exact .shown hr rfl
  · obtain ⟨-, rfl⟩ := Prod.mk.inj (Tx.pure_eq_ok.mp h)
    exact .of_eq rfl

/-- Marking a receipt as sent leaves its key. -/
theorem receives_sent (receipt : ReceiptRow) :
    Receives T { T with
      receipts :=
        Table.modify ReceiptRow.key T.receipts receipt.key fun r => { r with sent := true } } := by
  have hkeys : ∀ k, Tables.HasReceipt { T with
      receipts :=
        Table.modify ReceiptRow.key T.receipts receipt.key fun r => { r with sent := true } } k ↔
      T.HasReceipt k := by
    intro k
    simp only [Tables.HasReceipt, Table.modify, List.mem_map, exists_exists_and_eq_and]
    refine exists_congr fun x => and_congr_right fun _ => ?_
    split_ifs <;> rfl
  exact ⟨fun k => (hkeys k).mpr, fun k hk => .inl ((hkeys k).mp hk)⟩

theorem perform_receives {c : Call} {x : Unit × Session} (h : store.perform c s = .ok x) :
    Receives s.tables x.2.tables := by
  cases c with
  | create origin prompt artifactIds wait =>
    simp only [perform, Tx.bind_eq_ok, Tx.pure_eq_ok] at h
    obtain ⟨op, _, hcreate, rfl⟩ := h
    exact .of_eq (create_receipts hcreate)
  | view op origin consume =>
    simp only [perform, Tx.bind_eq_ok, Tx.pure_eq_ok] at h
    obtain ⟨_, _, hview, rfl⟩ := h
    exact view_receives hview
  | releaseInline op =>
    rw [perform, releaseInline, writeTables_eq_ok] at h
    rw [← h]
    exact .of_eq rfl
  | markSubmission op state =>
    rw [perform, markSubmission, writeTables_eq_ok] at h
    rw [← h]
    exact .of_eq rfl
  | cancelState op state =>
    rw [perform, ClientStore.cancelState, writeTables_eq_ok] at h
    rw [← h]
    exact .of_eq rfl
  | receiptSent receipt =>
    rw [perform, receiptSent, writeTables_eq_ok] at h
    rw [← h]
    exact receives_sent receipt
  | prune =>
    simp only [perform, ClientStore.prune, Tx.bind_eq_ok, time_eq_ok, writeTables_eq_ok] at h
    obtain ⟨now, _, ⟨-, rfl⟩, h⟩ := h
    rw [← h]
    exact .of_eq rfl

theorem finish_receives {status : DeliveryState} {queueId : Option String} {x : Unit × Session}
    (h : finishDelivery op status queueId s = .ok x) : Receives s.tables x.2.tables := by
  simp only [finishDelivery, Tx.bind_eq_ok, writeTables_eq_ok] at h
  obtain ⟨_, _, rfl, h⟩ := h
  split_ifs at h with hunknown
  · simp only [unknownReceipt, Tx.bind_eq_ok, row_eq_ok] at h
    obtain ⟨r', _, ⟨hr', -, rfl⟩, h⟩ := h
    cases hv : r'.snapshot with
    | none =>
      rw [hv] at h
      exact (Tx.throw_eq_ok.mp h).elim
    | some v =>
      simp only [hv, writeTables_eq_ok] at h
      rw [operation?_update (by exact fun _ => rfl), if_pos rfl] at hr'
      obtain ⟨r, hr, rfl⟩ := Option.map_eq_some_iff.mp hr'
      rw [← h]
      exact .receiptOf hr hv rfl
  · rw [← Tx.pure_eq_ok.mp h]
    exact .of_eq rfl

theorem visit_receives {reconciled : List Uuid} {x : Visit}
    (h : visit reconciled op s = .ok (x, s')) : Receives s.tables s'.tables := by
  obtain ⟨-, htables⟩ | ⟨r, -, htables, -⟩ | ⟨r, snapshot, -, -, id, htables⟩ := visit_eq_ok h
  all_goals
    rw [htables]
    exact .of_eq rfl

theorem hasReceipt_foldl (receipts : List (Uuid × String)) (T : Tables) :
    (receipts.foldl (fun T x => T.receipt x.1 x.2 .deliveryOutcomeUnknown) T).HasReceipt k ↔
      T.HasReceipt k ∨ ∃ x ∈ receipts, k = (x.1, x.2, .deliveryOutcomeUnknown) := by
  induction receipts generalizing T with
  | nil => simp
  | cons x receipts ih =>
    rw [List.foldl_cons, ih, hasReceipt_receipt, or_assoc]
    simp

/-- The repair reads its receipts off the rows. -/
theorem startup_receives (hkeys : Table.Keyed ClientRow.operationId s.tables.operations)
    {x : Unit × Session} (h : startup s = .ok x) : Receives s.tables x.2.tables := by
  simp only [startup, Tx.bind_eq_ok, writeTables_eq_ok] at h
  obtain ⟨_, _, rfl, h⟩ := h
  rw [← h]
  refine ⟨fun k hk => (hasReceipt_foldl _ _).mpr (.inl hk), fun k hk => ?_⟩
  obtain hk | ⟨⟨op, id⟩, hmem, rfl⟩ := (hasReceipt_foldl _ _).mp hk
  · exact .inl hk
  simp only [unknownReceipts, List.mem_filterMap, List.mem_map, exists_exists_and_eq_and] at hmem
  obtain ⟨r, hr, hid⟩ := hmem
  have hinbox := inbox_repairedRow r
  simp only [ClientRow.inbox, Prod.mk.injEq] at hinbox
  split at hid
  · next v _ hv =>
    obtain ⟨id', hstr, heq⟩ := Option.map_eq_some_iff.mp hid
    obtain ⟨rfl, rfl⟩ := Prod.mk.inj heq
    have hop : (repairedRow r).operationId = r.operationId := congrArg Prod.fst hinbox.1
    refine .inr ⟨r, v, ?_, hinbox.2.2.2.1 ▸ hv, eq_str_of_str? hstr⟩
    rw [hop]
    exact hkeys.mem_iff_lookup.mp hr
  · cases hid

theorem Daemon.Work.receives {D D' : Daemon} (hstep : Daemon.Work store D D') :
    Receives D.tables D'.tables := by
  cases hstep with
  | call hcall => exact perform_receives hcall
  | skip _ hvisit | reconcile _ hvisit | claim _ hvisit => exact visit_receives hvisit
  | found _ hfinish | unsupported _ hfinish | unknown _ hfinish | queued _ hfinish =>
    exact finish_receives hfinish
  | sweep | swept | missing | enqueue | submit | die => exact .of_eq rfl

/-- **A step that ingests nothing** keeps the receipts, and new ones are of stored snapshots. -/
theorem Daemon.Quiet.receives {D D' : Daemon} (hstep : Daemon.Quiet store D D')
    (hD : D.tables.Distinct) : Receives D.tables D'.tables := by
  cases hstep with
  | work hwork => exact hwork.receives
  | advance hadvance =>
    rw [advance_eq_ok hadvance]
    exact .of_eq rfl
  | restart hstartup => exact startup_receives hD.operations hstartup

theorem hasReceipt_storedReceipt : (storedReceipt op v T).HasReceipt k ↔
    T.HasReceipt k ∨ ∃ id, id ≠ "" ∧ member "result_id" v = .str id ∧ k = (op, id, .stored) := by
  unfold storedReceipt
  cases member "result_id" v with
  | str id =>
    dsimp only
    split_ifs with hne
    · rw [hasReceipt_receipt]
      refine or_congr_right ⟨fun hk => ⟨id, hne, rfl, hk⟩, ?_⟩
      rintro ⟨id', -, heq, hk⟩
      rw [hk, Json.str.inj heq]
    · refine ⟨.inl, fun hk => hk.resolve_right ?_⟩
      rintro ⟨id', hne', heq, -⟩
      exact hne (Json.str.inj heq ▸ hne')
  | null | bool | int | float | arr | obj =>
    refine ⟨.inl, fun hk => hk.resolve_right ?_⟩
    rintro ⟨id', -, heq, -⟩
    cases heq

/-- **A snapshot that is ingested** leaves the receipts, or is stored together with its own. -/
theorem Merges.receipts {flow : Uuid} (h : Merges store v op flow T T') :
    (T'.receipts = T.receipts ∧ ∀ op', (T'.operation? op').map ClientRow.snapshot =
        (T.operation? op').map ClientRow.snapshot) ∨
      (∀ k, T'.HasReceipt k ↔ T.HasReceipt k ∨
          ∃ id, id ≠ "" ∧ member "result_id" v = .str id ∧ k = (op, id, .stored)) ∧
        (∃ r, T'.operation? op = some r ∧ r.snapshot = some v.sortKeys) ∧
        ∀ op', op' ≠ op → T'.operation? op' = T.operation? op' := by
  cases h with
  | absent | expired | keep => exact .inl ⟨rfl, fun _ => rfl⟩
  | conflict hr =>
    refine .inl ⟨rfl, fun op' => ?_⟩
    rw [operation?_update_of hr]
    split_ifs with hop
    · rw [hop, hr]
      rfl
    · rfl
  | @replace r hr _ _ _ _ u e =>
    have hrow :
      ∀ op', (storedReceipt op v (T.update op fun r => storedRow r v u e)).operation? op' =
        if op' = op then some (storedRow r v u e) else T.operation? op' := by
      intro op'
      rw [Tables.operation?, operations_storedReceipt]
      exact operation?_update_of hr op'
    refine .inr ⟨fun k => hasReceipt_storedReceipt, ⟨_, (hrow op).trans (if_pos rfl), rfl⟩, ?_⟩
    intro op' hop
    rw [hrow op', if_neg hop]

end

end HermesGateway.Client
