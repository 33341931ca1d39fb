import HermesGateway.Client.Marks

/-!
# A pass of the worker

`_work` reports that there was no transport error when `dispatch_pending` and `flush_receipts` have
both returned. What that report says is stated here: each operation that was pending when the pass
began is pending no more, and each receipt that was there is marked as sent.

It is not enough that the pass goes through its list. A snapshot of a listed operation must also
take it out of `pending`, and `accept_snapshot` leaves a row alone that is expired or has a terminal
snapshot. So the invariant is that a pending operation has neither.

## Main definitions

* `ClientRow.Untold` — nothing was heard of an operation that is pending
* `Tables.Settled` — an operation is pending no more
* `Uplink.Passed` — what a pass has done so far

## Main results

* `ingest_settles` — a snapshot settles its operation
* `Uplink.Step.untold`, `Uplink.Step.settled`, `Uplink.Step.passed` — one step of the client
-/

namespace HermesGateway.Client

open ClientStore

/-- Nothing was heard of an operation that is pending. -/
def ClientRow.Untold (r : ClientRow) : Prop :=
  r.submissionState = .pending → r.snapshot = none ∧ r.expired = false

/-- The same, for every operation. -/
def Tables.Untold (T : Tables) : Prop := ∀ op r, T.operation? op = some r → r.Untold

/-- An operation is pending no more. -/
def Tables.Settled (T : Tables) (op : Uuid) : Prop :=
  ∃ r, T.operation? op = some r ∧ r.submissionState ≠ .pending

/-- `flush_receipts` has begun. -/
def Position.Flushes : Position → Prop
  | flushing _ | sending .. => True
  | idle | dispatching _ | asking .. | posting .. => False

/-- What a pass has done so far: of the operations that were pending at its start each is settled,
or still to come; and once the receipts are listed, each of those that were there is sent, or still
to come. -/
structure Uplink.Passed (pending : Uuid → Prop) (T₀ : Tables) (U : Uplink) : Prop where
  known : ∀ op, pending op → ∃ r, U.tables.operation? op = some r
  operations : ∀ op, pending op → op ∈ U.position.todo ∨ U.tables.Settled op
  receipts : U.position.Flushes → ∀ x ∈ T₀.receipts,
    U.tables.Sent x.key ∨ ∃ y ∈ U.position.unsent, y.key = x.key

section

variable {store : ClientStore} {answered : Command → Outcome → Prop} {shown : Snapshot → Prop}
  {U U' : Uplink} {cs : List Command} {op : Uuid} {s s' : Session}

/-! ### Snapshots -/

/-- What `accept_snapshot` leaves of a row is settled, if nothing was heard of it before. -/
theorem settled_merged {r : ClientRow} (v : Json) (updated expires : Time) (h : r.Untold) :
    (if r.expired = true then r else merged r v updated expires).submissionState ≠ .pending := by
  by_cases hpending : r.submissionState = .pending
  · obtain ⟨hnone, hlive⟩ := h hpending
    have hfresh : ¬ Stale r.snapshot := by
      rintro ⟨p, hp, -⟩
      cases hnone.symm.trans hp
    rw [if_neg (by rw [hlive]; decide), merged, if_neg fun hconflict => hfresh hconflict.1,
      if_pos (.inl hfresh)]
    exact fun haccepted => by cases haccepted
  · unfold merged
    split_ifs
    · exact hpending
    · exact hpending
    · exact fun haccepted => by cases haccepted
    · exact hpending

/-- **A snapshot settles its operation.** -/
theorem ingest_settles {v : Json} {seq : Option ℤ} (hT : s.tables.Untold)
    (h : store.ingest v seq (some op) s = .ok ((), s')) {r : ClientRow}
    (hr : s.tables.operation? op = some r) : s'.tables.Settled op := by
  obtain ⟨hmember, haccept⟩ := ingest_eq_ok h
  obtain ⟨op', hop', -, -, -, -, u, e, hrows⟩ := acceptSnapshot_eq_ok haccept
  rw [operationOf, hmember op rfl, Json.str?, Option.bind_some, nativeUuid_text] at hop'
  obtain rfl := Option.some.inj hop'
  refine ⟨_, ?_, settled_merged v u e (hT op r hr)⟩
  rw [hrows op, if_pos rfl, hr]
  rfl

theorem ingest_untold {v : Json} {seq : Option ℤ} {expected : Option Uuid} (hT : s.tables.Untold)
    (h : store.ingest v seq expected s = .ok ((), s')) : s'.tables.Untold := by
  obtain ⟨op', -, -, -, -, -, u, e, hrows⟩ := acceptSnapshot_eq_ok (ingest_eq_ok h).2
  intro op r' hr'
  rw [hrows op] at hr'
  split_ifs at hr' with hop
  · obtain ⟨r, hr, rfl⟩ := Option.map_eq_some_iff.mp hr'
    exact fun hpending => absurd hpending (settled_merged v u e (hT op r hr))
  · exact hT op r' hr'

/-! ### One step -/

/-- No step makes an operation pending. -/
theorem Uplink.Fate.of_pending {x x' : SubmissionState × Option CancelState}
    (h : Uplink.Fate answered shown U cs U' op x x') (hx' : x'.1 = .pending) : x.1 = .pending := by
  cases h with
  | same | sending | unanswered | repaired => exact hx'
  | accepted | rejected => cases hx'
  | spent hstate => rcases hstate with rfl | rfl <;> cases hx'
  | requested hstate =>
    rcases hstate with rfl | ⟨rfl, -⟩
    · exact hx'
    · cases hx'

/-- **What is settled stays so.** -/
theorem Uplink.Step.settled (h : Uplink.Step store answered shown U cs U')
    (hsettled : U.tables.Settled op) : U'.tables.Settled op := by
  obtain ⟨r, hr, hstate⟩ := hsettled
  obtain ⟨r', hr', -, hfate⟩ := h.kept hr
  exact ⟨r', hr', fun hpending => hstate (hfate.of_pending hpending)⟩

theorem untold_update {T : Tables} {f : ClientRow → ClientRow} (hT : T.Untold)
    (hid : ∀ r, (f r).operationId = r.operationId) (hf : ∀ r, r.Untold → (f r).Untold) :
    (T.update op f).Untold := by
  intro op' r' hr'
  rw [operation?_update hid] at hr'
  split_ifs at hr' with hop
  · obtain ⟨r, hr, rfl⟩ := Option.map_eq_some_iff.mp hr'
    exact hf r (hT op' r hr)
  · exact hT op' r' hr'

/-- What an operation is given up with. -/
theorem not_pending_of_spent {p : Option Payload} {state : SubmissionState}
    (h : state = if p.isSome then .payloadKeyUnavailable else .outcomeUnknown) :
    state ≠ .pending := by
  rw [h]
  cases p <;> exact fun heq => by cases heq

/-- A mark says that the operation is pending no more. -/
theorem untold_of_mark {state : SubmissionState} (h : markSubmission op state s = .ok ((), s'))
    (hstate : state ≠ .pending) (hT : s.tables.Untold) : s'.tables.Untold := by
  rw [markSubmission_tables h]
  exact untold_update hT (fun _ => rfl) fun r _ hpending => absurd hpending hstate

theorem untold_of_cancelState {state : CancelState} (h : cancelState op state s = .ok ((), s'))
    (hT : s.tables.Untold) : s'.tables.Untold := by
  rw [cancelState_tables h]
  exact untold_update hT (fun _ => rfl) fun r hr => hr

/-- A step that leaves the inbox, or prunes it. -/
theorem untold_of_rests (hU : U.tables.Untold) (h : Uplink.Step store answered shown U cs U')
    (hrests : ∀ op, Rests store (U.tables.operation? op) (U'.tables.operation? op)) :
    U'.tables.Untold := by
  intro op r' hr' hpending
  have hrow := hrests op
  have hkept := @Uplink.Step.kept _ _ _ _ _ _ h op
  have hold := hU op
  rw [hr'] at hrow hkept
  generalize U.tables.operation? op = o at hrow hkept hold
  have hwas : ∀ r, o = some r → r.snapshot = none ∧ r.expired = false := by
    intro r hr
    obtain ⟨r'', hr'', -, hfate⟩ := hkept hr
    obtain rfl := Option.some.inj hr''
    exact hold r hr (hfate.of_pending hpending)
  cases hrow with
  | create => exact ⟨rfl, rfl⟩
  | keep hinbox =>
    obtain ⟨hnone, hlive⟩ := hwas _ rfl
    simp only [ClientRow.inbox, Prod.mk.injEq] at hinbox
    exact ⟨hinbox.2.2.2.1.trans hnone, hinbox.2.2.2.2.2.trans hlive⟩
  | prune r now =>
    obtain ⟨hnone, hlive⟩ := hwas r rfl
    have hrow : prunedRow now r =
        if r.payloadExpires ≤ now then { r with payload := none } else r := by
      unfold prunedRow
      split_ifs <;> simp [hnone]
    rw [hrow]
    split_ifs
    · exact ⟨hnone, hlive⟩
    · exact ⟨hnone, hlive⟩

/-- **Nothing is heard of what is pending**, whatever the client does. -/
theorem Uplink.Step.untold (hU : U.tables.Untold) (h : Uplink.Step store answered shown U cs U') :
    U'.tables.Untold := by
  have hrests := @untold_of_rests _ _ _ _ _ _ hU h
  cases h with
  | background hbackground =>
    cases hbackground with
    | call _ hcall => exact hrests fun op => ((perform_rows hcall).1 op).rests
    | deliver hwork => exact hrests fun op => hwork.rests op
    | advance hadvance => exact hrests fun op => rests_advance hadvance
    | ingest _ hingest => exact ingest_untold hU hingest
  | dispatch | ask | post | flush | sendReceipt | leave | dropped => exact hU
  | found _ _ _ hingest | posted _ _ _ hingest => exact ingest_untold hU hingest
  | spent _ _ hpayload hstate hmark =>
    refine untold_of_mark hmark (not_pending_of_spent hstate) ?_
    rw [payload_tables hpayload]
    exact hU
  | reject _ _ _ hmark => exact untold_of_mark hmark (fun h => by cases h) hU
  | @sent x todo clock uuids s' _ _ hmark =>
    intro op r hr
    have hsame : s'.tables.operations = U.tables.operations :=
      congrArg (fun s : Session => s.tables.operations) (writeTables_eq_ok.mp hmark).symm
    exact hU op r (by rw [Tables.operation?, ← hsame]; exact hr)
  | cancel hrow _ hmark =>
    obtain ⟨-, -, rfl⟩ := row_eq_ok.mp hrow
    exact untold_of_cancelState hmark hU
  | @canceled op snap clock clock' uuids uuids' s₁ s₂ _ _ _ hingest hmark =>
    have hbetween : s₁.tables.Untold := ingest_untold hU hingest
    exact untold_of_cancelState hmark hbetween
  | uncanceled _ hmark => exact untold_of_cancelState hmark hU
  | restart hstartup => exact hrests fun op => rests_startup hstartup

/-! ### One pass -/

/-- What a mark settles. -/
theorem settled_of_mark {state : SubmissionState} (hstate : state ≠ .pending)
    (h : markSubmission op state s = .ok ((), s')) {r : ClientRow}
    (hr : s.tables.operation? op = some r) : s'.tables.Settled op := by
  refine ⟨{ r with submissionState := state }, ?_, hstate⟩
  rw [markSubmission_tables h]
  refine (operation?_update_of hr op ?_).trans (if_pos rfl)
  exact fun _ => rfl

/-- `flush_receipts` lists the receipts that are not sent. -/
theorem sent_or_listed {T : Tables} {k : Uuid × String × ReceiptStatus} (hk : T.HasReceipt k) :
    T.Sent k ∨ ∃ y ∈ T.receipts.filter (fun x => x.sent = false), y.key = k := by
  obtain ⟨x, hx, hkey⟩ := hk
  cases hsent : x.sent with
  | true => exact .inl ⟨x, hx, hkey, hsent⟩
  | false => exact .inr ⟨x, List.mem_filter.mpr ⟨hx, decide_eq_true hsent⟩, hkey⟩

/-- What `receipt_sent` marks. -/
theorem sent_of_mark {x : ReceiptRow} (h : receiptSent x s = .ok ((), s'))
    (hx : s.tables.HasReceipt x.key) : s'.tables.Sent x.key := by
  obtain ⟨y, hy, hkey⟩ := hx
  have hreceipts : s'.tables.receipts = Table.modify ReceiptRow.key s.tables.receipts x.key
      fun r => { r with sent := true } :=
    congrArg (fun s : Session => s.tables.receipts) (writeTables_eq_ok.mp h).symm
  refine ⟨{ y with sent := true }, ?_, hkey, rfl⟩
  rw [hreceipts]
  exact List.mem_map.mpr ⟨y, hy, if_pos hkey⟩

/-- Whether an operation is pending. -/
def Tables.Pending (T : Tables) (op : Uuid) : Prop :=
  ∃ r, T.operation? op = some r ∧ r.submissionState = .pending

/-- **The first step of a pass** lists what is pending. -/
theorem Uplink.Step.begins (hU : U.tables.Untold) (h : Uplink.Step store answered shown U cs U')
    (hidle : U.position = .idle) (hactive' : U'.position ≠ .idle) :
    U'.Passed U.tables.Pending U.tables := by
  cases h with
  | dispatch _ hids =>
    simp only [ids, Tx.bind_eq_ok, readTables_eq_ok, Tx.pure_eq_ok] at hids
    obtain ⟨T, _, ⟨rfl, rfl⟩, hret⟩ := hids
    obtain ⟨rfl, -⟩ := Prod.mk.inj hret
    constructor
    · intro op hop
      obtain ⟨r, hr, -⟩ := hop
      exact ⟨r, hr⟩
    · intro op hop
      obtain ⟨r, hr, hpending⟩ := hop
      refine .inl (List.mem_map.mpr ⟨r, List.mem_filter.mpr ⟨Table.mem_of_lookup hr, ?_⟩,
        operationId_of_operation? hr⟩)
      exact decide_eq_true ⟨(hU op r hr hpending).2, fun _ => hpending⟩
    · exact False.elim
  | background | cancel | canceled | uncanceled | dropped => exact absurd hidle hactive'
  | leave | restart => exact absurd rfl hactive'
  | ask hposition | found hposition | post hposition | spent hposition | reject hposition
  | posted hposition | flush hposition | sendReceipt hposition | sent hposition =>
    cases hidle.symm.trans hposition

/-- **One step of a pass**, as long as it goes on. -/
theorem Uplink.Step.passed {pending : Uuid → Prop} {T₀ : Tables} (hU : U.tables.Untold)
    (hreceipts : ∀ x ∈ T₀.receipts, U.tables.HasReceipt x.key)
    (h : Uplink.Step store answered shown U cs U') (hactive : U.position ≠ .idle)
    (hactive' : U'.position ≠ .idle) (hpassed : U.Passed pending T₀) : U'.Passed pending T₀ := by
  have hsettled := fun op => @Uplink.Step.settled _ _ _ _ _ _ op h
  have hsent := fun x : ReceiptRow => (h.sent_iff x.key).1
  -- what a step has to show: what it takes from the lists is done
  have keep (hops : ∀ op ∈ U.position.todo, pending op →
        op ∈ U'.position.todo ∨ U'.tables.Settled op)
      (hflushes : U'.position.Flushes → ∀ x ∈ T₀.receipts,
        U'.tables.Sent x.key ∨ ∃ y ∈ U'.position.unsent, y.key = x.key) :
      U'.Passed pending T₀ := by
    refine ⟨fun op hop => ?_, fun op hop => ?_, hflushes⟩
    · obtain ⟨r, hr⟩ := hpassed.known op hop
      obtain ⟨r', hr', -⟩ := h.kept hr
      exact ⟨r', hr'⟩
    · rcases hpassed.operations op hop with hleft | hold
      · exact hops op hleft hop
      · exact .inr (hsettled op hold)
  -- a step that settles the next operation
  have next {op : Uuid} {todo : List Uuid} (htodo : U.position.todo = op :: todo)
      (hposition' : U'.position = .dispatching todo)
      (hdone : ∀ r, U.tables.operation? op = some r → U'.tables.Settled op) :
      U'.Passed pending T₀ := by
    refine keep (fun op' hleft hop' => ?_) (by rw [hposition']; exact False.elim)
    rw [htodo] at hleft
    rw [hposition']
    rcases List.mem_cons.mp hleft with rfl | hleft
    · obtain ⟨r, hr⟩ := hpassed.known op' hop'
      exact .inr (hdone r hr)
    · exact .inl hleft
  cases h with
  | background | cancel | canceled | uncanceled | dropped =>
    exact keep (fun op hleft _ => .inl hleft) fun hflushes x hx =>
      (hpassed.receipts hflushes x hx).imp (hsent x) id
  | dispatch hposition => exact absurd hposition hactive
  | leave | restart => exact absurd rfl hactive'
  | ask hposition | post hposition =>
    refine keep (fun op hleft _ => .inl ?_) False.elim
    rw [hposition] at hleft
    exact hleft
  | found hposition _ _ hingest =>
    exact next (by rw [hposition]; rfl) rfl fun r hr => ingest_settles hU hingest hr
  | posted hposition _ _ hingest =>
    exact next (by rw [hposition]; rfl) rfl fun r hr => ingest_settles hU hingest hr
  | @spent op todo p state clock uuids s₁ s₂ hposition _ hpayload hstate hmark =>
    refine next (by rw [hposition]; rfl) rfl fun r hr => ?_
    have hr' : s₁.tables.operation? op = some r := by
      rw [payload_tables hpayload]
      exact hr
    exact settled_of_mark (not_pending_of_spent hstate) hmark hr'
  | reject hposition _ _ hmark =>
    exact next (by rw [hposition]; rfl) rfl fun r hr =>
      settled_of_mark (fun h => by cases h) hmark hr
  | flush hposition =>
    refine keep (fun op hleft _ => ?_) fun _ x hx => sent_or_listed (hreceipts x hx)
    rw [hposition] at hleft
    exact absurd hleft List.not_mem_nil
  | sendReceipt hposition =>
    refine keep (fun op hleft _ => ?_) fun _ x hx => ?_
    · rw [hposition] at hleft
      exact absurd hleft List.not_mem_nil
    · have hleft := hpassed.receipts (by rw [hposition]; trivial) x hx
      rw [hposition] at hleft
      exact hleft
  | @sent y todo clock uuids s' hposition _ hmark =>
    refine keep (fun op hleft _ => ?_) fun _ x hx => ?_
    · rw [hposition] at hleft
      exact absurd hleft List.not_mem_nil
    · have hleft := hpassed.receipts (by rw [hposition]; trivial) x hx
      rw [hposition] at hleft
      obtain hold | ⟨z, hz, hkey⟩ := hleft
      · exact .inl (hsent x hold)
      · rcases List.mem_cons.mp hz with rfl | hz
        · exact .inl (hkey ▸ sent_of_mark hmark (hkey ▸ hreceipts x hx))
        · exact .inr ⟨z, hz, hkey⟩

end

end HermesGateway.Client
