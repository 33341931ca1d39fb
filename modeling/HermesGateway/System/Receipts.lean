import HermesGateway.Client.Inbox
import HermesGateway.System.Conflict

/-!
# Receipts match the broker's ledger

A receipt is written by the client long before it is sent, of a snapshot that may be outdated by
then. The broker takes it when the operation is the device's and has the receipt's result
identifier. That identifier is written once, so a snapshot that named it still does.

## Main definitions

* `receiptRequest` — the request `flush_receipts` makes of a receipt
* `Exchange.Traced` — the client's tables, traced back to what was shown
* `Received` — a receipt in the broker's ledger

## Main results

* `Exchange.Step.traced` — one step of the broker or of the client
* `receipts_match` — in every run, every receipt is taken at every later time
-/

namespace HermesGateway.System

open Broker Client ClientStore

/-! ### Receipts of the client -/

/-- The broker's name of a status. -/
def postedStatus : Client.ReceiptStatus → Broker.ReceiptStatus
  | .stored => .stored
  | .delivered => .delivered
  | .deliveryOutcomeUnknown => .deliveryOutcomeUnknown

/-- The request `flush_receipts` makes of a receipt, if its body is valid. -/
def receiptRequest (x : Client.ReceiptRow) : Option Request :=
  (nativeUuid x.resultId).map fun id => .receipt x.operationId id (postedStatus x.status)

/-- Whether a result identifier of an operation was shown. -/
def Exchange.Showed (X : Exchange) (op : Uuid) (id : String) : Prop :=
  ∃ p ∈ X.shown, p.operationId = op ∧ ∃ u, p.resultId = some u ∧ id = u.text

/-- The client's rows and receipts name result identifiers that were shown. -/
structure Exchange.Traced (X : Exchange) : Prop where
  inbox : Inbox.Inv X.client.tables
  named : ∀ op id, X.client.tables.Names op id → X.Showed op id
  receipts : ∀ k, X.client.tables.HasReceipt k → X.Showed k.1 k.2.1

section

variable {disp : BrokerDispatcher} {store : ClientStore} {d : Device} {ms : List Meeting}
  {X X' : Exchange}

theorem Exchange.Showed.mono {op : Uuid} {id : String} (h : X.Showed op id)
    (hle : ∀ s ∈ X.shown, s ∈ X'.shown) : X'.Showed op id := by
  obtain ⟨p, hp, hop⟩ := h
  exact ⟨p, hle p hp, hop⟩

/-- A step that ingests nothing names nothing new. -/
theorem names_of_quiet {D D' : Daemon} (hquiet : Daemon.Quiet store D D')
    (hinv : Inbox.Inv D.tables) {op : Uuid} {id : String} (h : D'.tables.Names op id) :
    D.tables.Names op id := by
  obtain ⟨r', w, hr', hw, hid⟩ := h
  have hrests := hquiet.rests op
  rw [hr'] at hrests
  generalize hr : D.tables.operation? op = o at hrests
  cases hrests with
  | create => cases hw
  | keep hinbox =>
    simp only [ClientRow.inbox, Prod.mk.injEq] at hinbox
    exact ⟨_, w, hr, hinbox.2.2.2.1.symm.trans hw, hid⟩
  | prune r now =>
    cases hv : r.snapshot with
    | none =>
      rw [snapshot_prunedRow_of_none hv] at hw
      cases hw
    | some v =>
      refine ⟨r, v, hr, hv, ?_⟩
      obtain ⟨hsnapshot, -⟩ | ⟨-, -, -, hsnapshot⟩ := prunedRow_cases hv now
      · rwa [Option.some.inj (hw.symm.trans hsnapshot)] at hid
      · rw [Option.some.inj (hw.symm.trans hsnapshot),
          (hinv.filed op r hr v hv).emptied.rest "result_id" (by decide) (by decide)] at hid
        exact hid

/-- The identifier a snapshot of the broker names. -/
theorem showed_of_mem {s : Snapshot} (hs : s ∈ X.shown) {id : String}
    (hid : member "result_id" s.toJson = .str id) : X.Showed s.operationId id := by
  rw [(member_toJson s).2.2.2.1] at hid
  cases hu : s.resultId with
  | none =>
    rw [hu] at hid
    cases hid
  | some u =>
    rw [hu] at hid
    exact ⟨s, hs, rfl, u, hu, (Json.str.inj hid).symm⟩

/-- A snapshot arrives. -/
theorem Exchange.Traced.merges (h : X.Traced) {s : Snapshot} (hs : s ∈ X.shown) {flow : Uuid}
    {T : Tables} (hmerges : Merges store s.toJson s.operationId flow X.client.tables T) :
    (∀ op id, T.Names op id → X.Showed op id) ∧ ∀ k, T.HasReceipt k → X.Showed k.1 k.2.1 := by
  obtain ⟨hreceipts, hrows⟩ | ⟨hreceipts, ⟨r₀, hr₀, hstored⟩, hothers⟩ := hmerges.receipts
  · refine ⟨?_, fun k hk => h.receipts k ((hasReceipt_congr hreceipts).mp hk)⟩
    rintro op id ⟨r', w, hr', hw, hid⟩
    have hsnapshot := hrows op
    rw [hr', Option.map_some] at hsnapshot
    obtain ⟨r, hr, hsame⟩ := Option.map_eq_some_iff.mp hsnapshot.symm
    exact h.named op id ⟨r, w, hr, hsame.trans hw, hid⟩
  · constructor
    · rintro op id ⟨r', w, hr', hw, hid⟩
      by_cases hop : op = s.operationId
      · subst hop
        obtain rfl := Option.some.inj (hr₀.symm.trans hr')
        obtain rfl := Option.some.inj (hstored.symm.trans hw)
        rw [member_sortKeys s.tidy_toJson.keyed, (member_toJson s).2.2.2.1] at hid
        refine showed_of_mem hs ?_
        rw [(member_toJson s).2.2.2.1]
        cases hu : s.resultId <;> rw [hu] at hid <;> exact hid
      · exact h.named op id ⟨r', w, hothers op hop ▸ hr', hw, hid⟩
    · intro k hk
      obtain hk | ⟨id, -, hid, rfl⟩ := (hreceipts k).mp hk
      · exact h.receipts k hk
      · exact showed_of_mem hs hid

theorem Exchange.traced_initial : Exchange.initial.Traced where
  inbox := Inbox.inv_empty
  named := by rintro _ _ ⟨_, _, h, -⟩; cases h
  receipts := by rintro _ ⟨_, h, -⟩; cases h

/-- **One step** of the broker or of the client. -/
theorem Exchange.Step.traced (h : X.Traced) (hstep : Exchange.Step disp store d X ms X') :
    X'.Traced := by
  cases hstep with
  | broker hbroker =>
    exact ⟨h.inbox, fun op id hnames => (h.named op id hnames).mono fun s => List.mem_append_left _,
      fun k hk => (h.receipts k hk).mono fun s => List.mem_append_left _⟩
  | client hquiet =>
    refine ⟨Inbox.Step.inv (.quiet hquiet) h.inbox,
      fun op id hnames => h.named op id (names_of_quiet hquiet h.inbox hnames), fun k hk => ?_⟩
    obtain hk | hnames := (hquiet.receives h.inbox.distinct).named k hk
    · exact h.receipts k hk
    · exact h.named _ _ hnames
  | @ingest s seq _ clock uuids σ' hs hingest =>
    have haccept := (ingest_eq_ok hingest).2
    obtain ⟨op, flow, hpasses, T, hmerges, htables⟩ := acceptSnapshot_merges haccept
    obtain rfl : s.operationId = op :=
      Option.some.inj ((operationOf_toJson s).symm.trans hpasses.operationId)
    obtain ⟨hnamed, hreceipts⟩ := h.merges hs hmerges
    have hsame : ∀ op id, σ'.tables.Names op id → T.Names op id := by
      rintro op id ⟨r, v, hr, hv⟩
      rw [htables, operation?_reach] at hr
      exact ⟨r, v, hr, hv⟩
    have hkept : ∀ k, σ'.tables.HasReceipt k → T.HasReceipt k := fun k hk =>
      (hasReceipt_congr (by rw [htables, receipts_reach])).mp hk
    exact ⟨Inbox.Step.inv (.accept s.tidy_toJson.keyed haccept) h.inbox,
      fun op id hnames => hnamed op id (hsame op id hnames), fun k hk => hreceipts k (hkept k hk)⟩

end

/-! ### Receipts of the broker -/

/-- The ledger has a receipt, and the row of its device. -/
structure Received (L : Ledger) (x : Key × Uuid × Broker.ReceiptStatus) : Prop where
  device : L.device? x.1.1 ≠ none
  receipt : ∃ r ∈ L.receipts, r.key = x

section

variable {R : Time → Time → Prop} {P : Ledger → OperationRow → Edit → Prop} {L L' : Ledger}
  {ks : List Key} {x : Key × Uuid × Broker.ReceiptStatus} {d : Device}

theorem device?_modify {rows : List DeviceRow} (f : DeviceRow → DeviceRow)
    (hf : ∀ r, (f r).deviceId = r.deviceId) {d' : Device}
    (h : Table.lookup DeviceRow.deviceId rows d ≠ none) :
    Table.lookup DeviceRow.deviceId (Table.modify DeviceRow.deviceId rows d' f) d ≠ none := by
  rw [Table.lookup_modify hf]
  split_ifs
  · rwa [Ne, Option.map_eq_none_iff]
  · exact h

theorem device?_numbered {d' : Device} {n : ℕ} (h : L.device? d ≠ none)
    (hL : L'.devices = Table.modify DeviceRow.deviceId L.devices d' fun r =>
      { r with sequence := n }) : L'.device? d ≠ none := by
  rw [Ledger.device?, hL]
  exact device?_modify (fun r => { r with sequence := n }) (fun _ => rfl) h

theorem device?_dropEvents (h : L.device? d ≠ none) (d' : Device) (n : ℕ) :
    (L.dropEvents d' n).device? d ≠ none :=
  device?_modify (fun r => { r with floor := max r.floor n }) (fun _ => rfl) h

theorem receipts_ledger (e : Edit) (k : Key) (L : Ledger) :
    (e.ledger k L).receipts = L.receipts := by
  cases e <;> rfl

/-- A receipt is never lost. -/
theorem Received.move (h : Received L x) (hmove : Move R P L ks L') : Received L' x := by
  obtain ⟨hdevice, y, hy, hkey⟩ := h
  cases hmove with
  | @device d' hnew =>
    refine ⟨fun hnone => hdevice ?_, y, hy, hkey⟩
    refine Table.lookup_eq_none.mpr fun r hr => Table.lookup_eq_none.mp hnone r ?_
    exact List.mem_append_left _ hr
  | insert => exact ⟨device?_numbered hdevice rfl, y, hy, hkey⟩
  | @edit k e _ dev =>
    have hdevices := e.devices_ledger k L
    refine ⟨@device?_numbered _ _ _ k.1 (dev.sequence + 1) hdevice ?_, y, ?_, hkey⟩
    · rw [← hdevices]
      rfl
    · change y ∈ (e.ledger k L).receipts
      rwa [receipts_ledger]
  | purgeEvents => exact ⟨device?_dropEvents hdevice _ _, y, hy, hkey⟩
  | receipt => exact ⟨hdevice, y, List.mem_append_left _ hy, hkey⟩
  | poll | cancelClaim | dropArtifacts | putArtifact | purge => exact ⟨hdevice, y, hy, hkey⟩

end

section

variable {k : Key} {id : Uuid} {status : Broker.ReceiptStatus} {σ : Broker.Session}
  {r : OperationRow}

/-- The receipt of a result that is there is taken, and again without a trace. -/
theorem receipt_taken (hr : σ.ledger.operation? k = some r) (hid : r.resultId = some id) :
    ∃ σ', BrokerStore.receipt k id status σ = .ok ((), σ') ∧
      Received σ'.ledger (k, id, status) ∧
      (Received σ.ledger (k, id, status) → σ'.ledger = σ.ledger) := by
  obtain ⟨τ, hdev⟩ : ∃ τ, BrokerStore.device k.1 σ = .ok ((), τ) := ⟨_, writeLedger_eq_ok.mpr rfl⟩
  obtain ⟨⟨dev, hdevice⟩, hops, -, -⟩ :=
    @BrokerStore.device_eq_ok (fun _ _ => True) (fun _ _ _ => True) _ _ _ hdev
  have hr' : τ.ledger.operation? k = some r := by rwa [Ledger.operation?, hops]
  have hmatch : ¬ r.resultId ≠ some id := not_not.mpr hid
  have hsame : Received σ.ledger (k, id, status) → τ.ledger = σ.ledger := by
    intro hreceived
    obtain ⟨row, hrow⟩ := Option.ne_none_iff_exists'.mp hreceived.device
    rw [BrokerStore.device, writeLedger_eq_ok, hrow] at hdev
    exact (congrArg Broker.Session.ledger hdev).symm
  rw [BrokerStore.receipt, Tx.bind_of_ok hdev, Tx.bind_of_ok (row_eq_ok.mpr ⟨hr', rfl⟩),
    Tx.bind_of_ok (Tx.refuse_of_not hmatch), Tx.bind_of_ok (utcnow_eq_ok.mpr ⟨rfl, rfl⟩)]
  refine ⟨_, writeLedger_eq_ok.mpr rfl, ?_, fun hreceived => ?_⟩
  · rw [Session.ledger_tick]
    split_ifs with hold
    · exact ⟨by rw [hdevice]; exact Option.some_ne_none dev, hold⟩
    · refine ⟨?_, _, List.mem_append_right _ (List.mem_singleton_self _), rfl⟩
      change τ.ledger.device? k.1 ≠ none
      rw [hdevice]
      exact Option.some_ne_none dev
  · have hold : ∃ x ∈ τ.ledger.receipts, x.key = (k, id, status) := by
      rw [hsame hreceived]
      exact hreceived.receipt
    rw [Session.ledger_tick, if_pos hold, hsame hreceived]

end

/-! ### Every run -/

section

variable {disp : BrokerDispatcher} {store : ClientStore} {d : Device} {ms ms' : List Meeting}
  {X Y : Exchange}

/-- The moves of the broker over a run. -/
theorem Exchange.received_of_trace {x : Key × Uuid × Broker.ReceiptStatus}
    (h : Trace (Exchange.Step disp store d) X ms Y) (hX : X.broker.Inv)
    (hx : Received X.broker.ledger x) : Received Y.broker.ledger x := by
  refine (h.invariant (I := fun X => X.broker.Inv ∧ Received X.broker.ledger x) ?_ ⟨hX, hx⟩).2
  rintro X l Y ⟨hinv, hx⟩ hstep
  cases hstep with
  | broker hbroker =>
    obtain ⟨⟨ks, hmoves⟩, hinv'⟩ := hbroker.disciplined hinv
    exact ⟨hinv', hmoves.invariant (I := fun L => Received L x) (fun h hmove => h.move hmove) hx⟩
  | client | ingest => exact ⟨hinv, hx⟩

/-- A receipt of the client is one of a result of the broker's. -/
theorem Exchange.result_of_receipt (h : Trace (Exchange.Step disp store d) Exchange.initial ms X)
    {k : Uuid × String × Client.ReceiptStatus} (hk : X.client.tables.HasReceipt k) :
    ∃ id, k.2.1 = Uuid.text id ∧ ∃ r, X.broker.ledger.operation? (d, k.1) = some r ∧
      r.resultId = some id := by
  have hinv : X.Inv d ms :=
    Trace.labels (I := Exchange.Inv d) (fun h hstep => hstep.inv h) h Exchange.inv_initial
  have htraced : X.Traced := h.invariant (fun h hstep => hstep.traced h) Exchange.traced_initial
  obtain ⟨p, hp, hop, id, hid, htext⟩ := htraced.receipts k hk
  obtain ⟨r, hr, hshown⟩ := hinv.shown p hp
  refine ⟨id, htext, r, hop ▸ hr, ?_⟩
  rw [hshown.resultId (by rw [hid]; exact Option.some_ne_none id), hid]

theorem Merges.keeps {v : Json} {op flow : Uuid} {T T' : Tables}
    (h : Merges store v op flow T T') {k : Uuid × String × Client.ReceiptStatus}
    (hk : T.HasReceipt k) : T'.HasReceipt k := by
  obtain ⟨hreceipts, -⟩ | ⟨hreceipts, -⟩ := h.receipts
  · exact (hasReceipt_congr hreceipts).mpr hk
  · exact (hreceipts k).mpr (.inl hk)

/-- A receipt of the client stays. -/
theorem Exchange.hasReceipt_of_trace (h : Trace (Exchange.Step disp store d) X ms Y)
    (hX : X.Traced) {k : Uuid × String × Client.ReceiptStatus}
    (hk : X.client.tables.HasReceipt k) : Y.client.tables.HasReceipt k := by
  refine (h.invariant (I := fun X => X.Traced ∧ X.client.tables.HasReceipt k) ?_ ⟨hX, hk⟩).2
  rintro X l Y ⟨htraced, hk⟩ hstep
  refine ⟨hstep.traced htraced, ?_⟩
  cases hstep with
  | broker => exact hk
  | client hquiet => exact (hquiet.receives htraced.inbox.distinct).kept k hk
  | ingest _ hingest =>
    obtain ⟨_, _, -, T, hmerges, htables⟩ := acceptSnapshot_merges (ingest_eq_ok hingest).2
    exact (hasReceipt_congr (by rw [htables, receipts_reach])).mpr (Merges.keeps hmerges hk)

/-- The request is served when the result is there, and again without a trace. -/
theorem serve_receipt {k : Key} {id : Uuid} {status : Broker.ReceiptStatus} {σ : Broker.Session}
    {r : OperationRow} (hr : σ.ledger.operation? k = some r) (hresult : r.resultId = some id) :
    ∃ σ', disp.store.serve k.1 (.receipt k.2 id status) σ = .ok (.ok, σ') ∧
      Received σ'.ledger (k, id, status) ∧
      (Received σ.ledger (k, id, status) → σ'.ledger = σ.ledger) := by
  obtain ⟨σ', htaken, hreceived⟩ := @receipt_taken k id status σ r hr hresult
  exact ⟨σ', Tx.bind_of_ok htaken, hreceived⟩

/-- **Receipts always match.** In every run of the broker with the client of a device, every receipt
that was ever in the client's table names, at every later time, an operation of the device and its
result; so the broker takes it, and from then on, sending it again leaves the ledger as it is. -/
theorem receipts_match (h : Trace (Exchange.Step disp store d) Exchange.initial ms X)
    (h' : Trace (Exchange.Step disp store d) X ms' Y) {x : Client.ReceiptRow}
    (hx : x ∈ X.client.tables.receipts) :
    ∃ id row, x.resultId = Uuid.text id ∧ Y.broker.ledger.operation? (d, x.operationId) = some row ∧
      row.resultId = some id ∧
      receiptRequest x = some (.receipt x.operationId id (postedStatus x.status)) ∧
      ∀ clock uuids, ∃ σ',
        disp.store.serve d (.receipt x.operationId id (postedStatus x.status))
          ⟨Y.broker.ledger, clock, uuids⟩ = .ok (.ok, σ') ∧
        ∀ ms'' Z, Trace (Exchange.Step disp store d)
            { Y with broker := { Y.broker with ledger := σ'.ledger } } ms'' Z →
          ∀ clock' uuids', ∃ σ'',
            disp.store.serve d (.receipt x.operationId id (postedStatus x.status))
              ⟨Z.broker.ledger, clock', uuids'⟩ = .ok (.ok, σ'') ∧
            σ''.ledger = Z.broker.ledger := by
  have htraced : X.Traced := h.invariant (fun h hstep => hstep.traced h) Exchange.traced_initial
  have hk : Y.client.tables.HasReceipt x.key := Exchange.hasReceipt_of_trace h' htraced ⟨x, hx, rfl⟩
  have hY := h.trans h'
  obtain ⟨id, hid, r, hr, hresult⟩ := Exchange.result_of_receipt hY hk
  refine ⟨id, r, hid, hr, hresult,
    by rw [receiptRequest, show x.resultId = id.text from hid, nativeUuid_text]; rfl,
    fun clock uuids => ?_⟩
  obtain ⟨σ', hserve, hreceived, -⟩ := @serve_receipt disp (d, x.operationId) id
    (postedStatus x.status) ⟨Y.broker.ledger, clock, uuids⟩ r hr hresult
  refine ⟨σ', hserve, fun ms'' Z hZ clock' uuids' => ?_⟩
  have hsent := hY.snoc (Exchange.Step.serve hserve)
  rw [show Y.shown ++ Reply.ok.snapshots = Y.shown from List.append_nil _] at hsent
  -- the receipt is in the ledger from here on, and the client still has it
  have htraced' : Exchange.Traced { Y with broker := { Y.broker with ledger := σ'.ledger } } :=
    hsent.invariant (fun h hstep => hstep.traced h) Exchange.traced_initial
  have hinv := Trace.labels (I := Exchange.Inv d) (fun h hstep => hstep.inv h) hsent
    Exchange.inv_initial
  have hlater := Exchange.received_of_trace hZ hinv.broker hreceived
  obtain ⟨id', hid', r', hr', hresult'⟩ := Exchange.result_of_receipt (hsent.trans hZ)
    (Exchange.hasReceipt_of_trace hZ htraced' hk)
  obtain rfl : id = id' := text_injective (hid.symm.trans hid')
  obtain ⟨σ'', hagain, -, hsame⟩ := @serve_receipt disp (d, x.operationId) id
    (postedStatus x.status) ⟨Z.broker.ledger, clock', uuids'⟩ r' hr' hresult'
  exact ⟨σ'', hagain, hsame hlater⟩

end

theorem receipts_match_stored :
    ∃ ms X x id row σ', Trace (Exchange.Step ⟨BrokerStore.default, fun _ => "", fun _ => none⟩
        ⟨ClientSettings.default, fun _ => ""⟩ "laptop") Exchange.initial ms X ∧
      x ∈ X.client.tables.receipts ∧ x.resultId = Uuid.text id ∧
      X.broker.ledger.operation? ("laptop", x.operationId) = some row ∧ row.resultId = some id ∧
      BrokerStore.default.serve "laptop" (.receipt x.operationId id (postedStatus x.status))
        ⟨X.broker.ledger, fun _ => 9, fun _ => 0⟩ = .ok (.ok, σ') := by
  let disp : BrokerDispatcher := ⟨BrokerStore.default, fun _ => "", fun _ => none⟩
  let store : ClientStore := ⟨ClientSettings.default, fun _ => ""⟩
  have hruns : (Tx.succeeds (store.perform (.create ⟨4, 5, "a"⟩ "hello" [] 0)
      ⟨Tables.empty, fun _ => 5, fun n => if n = 0 then 1 else 2⟩) fun _ σ₁ =>
    Tx.succeeds (disp.store.serve "laptop" (.accept (sampleRequest 1 2))
      ⟨Ledger.empty, fun _ => 5, fun _ => 0⟩) fun reply₁ s₁ =>
    Tx.succeeds (disp.store.serve "laptop" (.cancel 1) ⟨s₁.ledger, fun _ => 6, fun _ => 3⟩)
        fun reply₂ _ =>
      reply₂.snapshots.head?.any fun s =>
    Tx.succeeds (store.ingest s.toJson none none ⟨σ₁.tables, fun _ => 8, fun _ => 0⟩) fun _ σ₂ =>
      !σ₂.tables.receipts.isEmpty) = true := by decide +kernel
  obtain ⟨_, σ₁, k₁, hruns⟩ := Tx.exists_of_succeeds hruns
  obtain ⟨reply₁, s₁, h₁, hruns⟩ := Tx.exists_of_succeeds hruns
  obtain ⟨reply₂, s₂, h₂, hruns⟩ := Tx.exists_of_succeeds hruns
  obtain ⟨s, hs, hruns⟩ := (Option.any_eq_true _ _).mp hruns
  obtain ⟨_, σ₂, k₂, hruns⟩ := Tx.exists_of_succeeds hruns
  let step := Exchange.Step disp store "laptop"
  let ledger (L : Ledger) : Process := { Process.initial with ledger := L }
  let daemon (T : Tables) : Daemon := { Daemon.initial with tables := T }
  have hcreated : step Exchange.initial [] ⟨Process.initial, daemon σ₁.tables, []⟩ :=
    .client (.work (.call k₁))
  have haccepted : step ⟨Process.initial, daemon σ₁.tables, []⟩ []
      ⟨ledger s₁.ledger, daemon σ₁.tables, reply₁.snapshots⟩ := Exchange.Step.serve h₁
  have hcanceled : step ⟨ledger s₁.ledger, daemon σ₁.tables, reply₁.snapshots⟩ []
      ⟨ledger s₂.ledger, daemon σ₁.tables, reply₁.snapshots ++ reply₂.snapshots⟩ :=
    Exchange.Step.serve h₂
  have hstored : step
      ⟨ledger s₂.ledger, daemon σ₁.tables, reply₁.snapshots ++ reply₂.snapshots⟩
      (meetings σ₁.tables s)
      ⟨ledger s₂.ledger, daemon σ₂.tables, reply₁.snapshots ++ reply₂.snapshots⟩ :=
    .ingest (List.mem_append_right _ (List.mem_of_head? hs)) k₂
  have hrun := (((Trace.single hcreated).snoc haccepted).snoc hcanceled).snoc hstored
  obtain ⟨x, hx⟩ := List.exists_mem_of_ne_nil σ₂.tables.receipts (by simpa using hruns)
  obtain ⟨id, row, hid, hrow, hresult, -, hserve⟩ := receipts_match hrun .nil hx
  obtain ⟨σ', hserve, -⟩ := hserve (fun _ => 9) (fun _ => 0)
  exact ⟨_, _, x, id, row, σ', hrun, hx, hid, hrow, hresult, hserve⟩

end HermesGateway.System
