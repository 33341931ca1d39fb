import HermesGateway.Broker.Transactions

/-!
# What most transactions leave alone

Two methods insert rows into the tables of operations and artifacts, `accept` and `put_artifact`,
and one marks operations as polled, `reconcilable`. All the others delete artifacts at most, such as
have expired, and change operations without touching their keys or when they were polled. A relation
between sessions that allows that much is kept by each of them, and this is proved once for all such
relations.

## Main definitions

* `Lapses` — nothing was deleted but what had expired at a reading of the clock
* `Frame` — the relations

## Main results

* `perform_keeps` — every transaction but three keeps a frame
-/

namespace HermesGateway.Broker

open BrokerStore

/-- The session read the clock and deleted artifacts: all of those that had expired at one of some
of its readings, and no other. -/
def Lapses (s s' : Session) : Prop :=
  (∃ n, s'.clock = fun i => s.clock (i + n)) ∧
    ∃ times : List Time, (∀ t ∈ times, ∃ i, s.clock i = t) ∧
      s'.ledger.artifacts = s.ledger.artifacts.filter fun a => ∀ t ∈ times, t < a.expiresAt

namespace Lapses

variable {s s' s'' : Session}

/-- Nothing was deleted. -/
theorem of_artifacts (hclock : ∃ n, s'.clock = fun i => s.clock (i + n))
    (h : s'.ledger.artifacts = s.ledger.artifacts) : Lapses s s' :=
  ⟨hclock, [], by simp, by simp [h]⟩

theorem refl (s : Session) : Lapses s s := of_artifacts ⟨0, rfl⟩ rfl

theorem trans (h : Lapses s s') (h' : Lapses s' s'') : Lapses s s'' := by
  obtain ⟨⟨n, hclock⟩, times, hread, hartifacts⟩ := h
  obtain ⟨⟨m, hclock'⟩, times', hread', hartifacts'⟩ := h'
  refine ⟨⟨m + n, ?_⟩, times' ++ times, fun t ht => ?_, ?_⟩
  · rw [hclock', hclock]
    funext i
    exact congrArg s.clock (Nat.add_assoc i m n)
  · rcases List.mem_append.mp ht with ht | ht
    · obtain ⟨i, hi⟩ := hread' t ht
      exact ⟨i + n, by rw [← hi, hclock]⟩
    · exact hread t ht
  · rw [hartifacts', hartifacts]
    simp [List.filter_filter, or_imp, forall_and]

theorem sublist (h : Lapses s s') : s'.ledger.artifacts.Sublist s.ledger.artifacts := by
  obtain ⟨-, times, -, hartifacts⟩ := h
  rw [hartifacts]
  exact List.filter_sublist

end Lapses

/-- A relation between sessions that does not see artifacts deleted because they had expired, nor
changes of operations that leave their keys alone and when they were polled. -/
class Frame (I : Session → Session → Prop) : Prop extends IsPreorder Session I where
  map : ∀ {s s' : Session} {f : OperationRow → OperationRow},
    (∀ r, (f r).key = r.key ∧ (f r).polledAt = r.polledAt) →
    s'.ledger.operations = s.ledger.operations.map f → Lapses s s' → I s s'

instance instFrameLapses : Frame Lapses where
  refl := Lapses.refl
  trans _ _ _ h h' := h.trans h'
  map _ _ h := h

namespace Frame

variable {I : Session → Session → Prop} [Frame I] {store : BrokerStore}

/-- A session with the same operations and no new artifact. -/
theorem same {s s' : Session} (hops : s'.ledger.operations = s.ledger.operations)
    (h : Lapses s s') : I s s' :=
  map (f := id) (fun _ => ⟨rfl, rfl⟩) (hops.trans (List.map_id _).symm) h

theorem of_advances {s s' : Session} (h : s.Advances s') : I s s' :=
  same (by rw [h.1]) (.of_artifacts h.2 (by rw [h.1]))

theorem utcnow_keeps : Tx.Keeps I utcnow :=
  Tx.Keeps.modifyGet fun _ => same rfl (.of_artifacts ⟨1, rfl⟩ rfl)

theorem uuid4_keeps : Tx.Keeps I uuid4 :=
  Tx.Keeps.modifyGet fun _ => same rfl (.of_artifacts ⟨0, rfl⟩ rfl)

theorem readLedger_keeps : Tx.Keeps I readLedger :=
  Tx.Keeps.modifyGet fun s => same rfl (Lapses.refl s)

theorem writeLedger_keeps {f : Ledger → Ledger} (hops : ∀ L, (f L).operations = L.operations)
    (harts : ∀ L, (f L).artifacts = L.artifacts) : Tx.Keeps I (writeLedger f) :=
  Tx.Keeps.modifyGet fun s => same (hops s.ledger) (.of_artifacts ⟨0, rfl⟩ (harts s.ledger))

/-- An update of one operation, with changes of other tables. -/
theorem writeLedger_modify {f : Ledger → Ledger} {k : Key} {g : OperationRow → OperationRow}
    (hg : ∀ r, (g r).key = r.key ∧ (g r).polledAt = r.polledAt)
    (hops : ∀ L, (f L).operations = Table.modify OperationRow.key L.operations k g)
    (harts : ∀ L, (f L).artifacts = L.artifacts) : Tx.Keeps I (writeLedger f) := by
  refine Tx.Keeps.modifyGet fun s =>
    map (fun r => ?_) (hops s.ledger) (.of_artifacts ⟨0, rfl⟩ (harts s.ledger))
  split_ifs
  · exact hg r
  · exact ⟨rfl, rfl⟩

theorem updateOperation_keeps {k : Key} {f : OperationRow → OperationRow}
    (hf : ∀ r, (f r).key = r.key ∧ (f r).polledAt = r.polledAt) :
    Tx.Keeps I (writeLedger fun L => L.updateOperation k f) :=
  writeLedger_modify hf (fun _ => rfl) fun _ => rfl

theorem row_keeps (k : Key) : Tx.Keeps I (row k) := by
  intro s r s' h
  obtain ⟨-, rfl⟩ := row_eq_ok.mp h
  exact same rfl (Lapses.refl s)

theorem snapshot_keeps (r : OperationRow) : Tx.Keeps I (snapshot r) := by
  intro s snap s' h
  obtain ⟨-, rfl⟩ := snapshot_eq_ok h
  exact same rfl (.of_artifacts ⟨2, rfl⟩ rfl)

theorem device_keeps (d : Device) : Tx.Keeps I (device d) := by
  refine writeLedger_keeps (fun L => ?_) fun L => ?_
  · cases L.device? d <;> rfl
  · cases L.device? d <;> rfl

theorem event_keeps (k : Key) : Tx.Keeps I (store.event k) := by
  intro s snap s' h
  obtain ⟨r, dev, expires, -, -, -, rfl⟩ := event_eq_ok h
  exact same rfl (.of_artifacts ⟨3, rfl⟩ rfl)

theorem finishOperation_keeps (k : Key) (state : OpState) (result : Option ResultBody)
    (code : Option ErrorCode) (message : Option String) :
    Tx.Keeps I (store.finishOperation k state result code message) := by
  refine (row_keeps k).bind fun r => Tx.Keeps.ite (snapshot_keeps r) ?_
  refine utcnow_keeps.bind fun _ => uuid4_keeps.bind fun _ => utcnow_keeps.bind fun _ =>
    Tx.Keeps.bind ?_ fun _ => event_keeps k
  exact writeLedger_modify
    (g := fun r => finishedRow r state result code message (result.map fun _ => _) _ _)
    (fun _ => ⟨rfl, rfl⟩) (fun _ => rfl) fun _ => rfl

theorem purgeEvents_keeps (d : Device) : Tx.Keeps I (purgeEvents d) := by
  refine utcnow_keeps.bind fun now => writeLedger_keeps (fun L => ?_) fun L => ?_
  · split <;> rfl
  · split <;> rfl

theorem claim_keeps : Tx.Keeps I store.claim := by
  refine readLedger_keeps.bind fun L => ?_
  cases candidate L with
  | none => exact Tx.Keeps.pure none
  | some chosen =>
    refine (device_keeps _).bind fun _ => (row_keeps _).bind fun r =>
      Tx.Keeps.ite (Tx.Keeps.pure none) ?_
    refine utcnow_keeps.bind fun now => readLedger_keeps.bind fun L => ?_
    dsimp only
    cases (Table.lookup PayloadRow.key L.payloads chosen.key).filter
        fun p => now < p.expiresAt with
    | none => exact (finishOperation_keeps _ _ _ _ _).bind fun _ => Tx.Keeps.pure none
    | some payload =>
      refine Tx.Keeps.bind (fun s found s' h => of_advances (attachments_advances h))
        fun found => ?_
      cases found with
      | none => exact (finishOperation_keeps _ _ _ _ _).bind fun _ => Tx.Keeps.pure none
      | some found =>
        refine utcnow_keeps.bind fun claimedAt => utcnow_keeps.bind fun now => Tx.Keeps.bind ?_
          fun _ => (event_keeps _).bind fun _ => Tx.Keeps.pure _
        exact writeLedger_modify (g := fun r => claimedRow r now) (fun _ => ⟨rfl, rfl⟩)
          (fun _ => rfl) fun _ => rfl

theorem finish_keeps (k : Key) (state : OpState) (result : Option ResultBody)
    (code : Option ErrorCode) (message : Option String) :
    Tx.Keeps I (store.finish k state result code message) := by
  refine Tx.Keeps.refuse.bind fun _ => Tx.Keeps.refuse.bind fun _ =>
    (device_keeps _).bind fun _ => Tx.Keeps.ite ?_ ?_
  · exact finishOperation_keeps _ _ _ _ _
  · exact finishOperation_keeps _ _ _ _ _

theorem saveHandle_keeps (k : Key) (handle : String) :
    Tx.Keeps I (store.saveHandle k handle) := by
  refine Tx.Keeps.refuse.bind fun _ => (device_keeps _).bind fun _ => (row_keeps k).bind fun r =>
    Tx.Keeps.refuse.bind fun _ => Tx.Keeps.ite (Tx.Keeps.pure ()) ?_
  exact utcnow_keeps.bind fun now => Tx.Keeps.refuse.bind fun _ => Tx.Keeps.refuse.bind fun _ =>
    (updateOperation_keeps (f := fun r => handledRow r handle now)
      fun _ => ⟨rfl, rfl⟩).bind fun _ =>
      (event_keeps k).bind fun _ => Tx.Keeps.pure ()

theorem recover_keeps : Tx.Keeps I store.recover := by
  refine readLedger_keeps.bind fun L => Tx.Keeps.forM (fun k => ?_) _
  exact (device_keeps _).bind fun _ =>
    (finishOperation_keeps _ _ _ _ _).bind fun _ => Tx.Keeps.pure ()

theorem cancelIntent_keeps (k : Key) : Tx.Keeps I (store.cancelIntent k) := by
  refine (device_keeps _).bind fun _ => (row_keeps k).bind fun r =>
    Tx.Keeps.ite ?_ (Tx.Keeps.ite ?_ ?_)
  · exact (finishOperation_keeps _ _ _ _ _).bind fun _ => Tx.Keeps.pure _
  · exact (snapshot_keeps r).bind fun _ => Tx.Keeps.pure _
  · exact utcnow_keeps.bind fun now =>
      (updateOperation_keeps (f := fun r => cancelingRow r now) fun _ => ⟨rfl, rfl⟩).bind fun _ =>
        (event_keeps k).bind fun _ => Tx.Keeps.pure _

theorem claimCancel_keeps : Tx.Keeps I claimCancel := by
  refine readLedger_keeps.bind fun L => ?_
  dsimp only
  split
  · exact Tx.Keeps.pure none
  · refine (device_keeps _).bind fun _ => (row_keeps _).bind fun current =>
      Tx.Keeps.ite (Tx.Keeps.pure none) ?_
    cases current.remoteTaskId with
    | none => exact Tx.Keeps.pure none
    | some handle =>
      exact (updateOperation_keeps (f := cancelClaimedRow) fun _ => ⟨rfl, rfl⟩).bind fun _ =>
        Tx.Keeps.pure _

theorem events_keeps (d : Device) (after limit : ℕ) :
    Tx.Keeps I (BrokerStore.events d after limit) := by
  refine (device_keeps d).bind fun _ => (purgeEvents_keeps d).bind fun _ =>
    readLedger_keeps.bind fun L => ?_
  cases L.device? d with
  | none => exact Tx.Keeps.throw _
  | some row => exact Tx.Keeps.refuse.bind fun _ => Tx.Keeps.refuse.bind fun _ => Tx.Keeps.pure _

theorem receipt_keeps (k : Key) (resultId : Uuid) (status : ReceiptStatus) :
    Tx.Keeps I (BrokerStore.receipt k resultId status) := by
  refine (device_keeps _).bind fun _ => (row_keeps k).bind fun r => Tx.Keeps.refuse.bind fun _ =>
    utcnow_keeps.bind fun now => writeLedger_keeps (fun L => ?_) fun L => ?_
  · split_ifs <;> rfl
  · split_ifs <;> rfl

theorem purge_keeps : Tx.Keeps I purge := by
  refine readLedger_keeps.bind fun L => (Tx.Keeps.forM (fun d => ?_) _).bind fun _ => ?_
  · exact (device_keeps d).bind fun _ => purgeEvents_keeps d
  · -- what is deleted has expired at the reading
    intro s _ s' h
    obtain ⟨now, t, hnow, hwrite⟩ := Tx.bind_eq_ok.mp h
    obtain ⟨rfl, rfl⟩ := utcnow_eq_ok.mp hnow
    obtain rfl := writeLedger_eq_ok.mp hwrite
    refine map (f := purgedRow (s.clock 0)) (fun r => ⟨key_purgedRow _ r, ?_⟩) rfl
      ⟨⟨1, rfl⟩, [s.clock 0], by simp, by simp⟩
    obtain ⟨x, hx⟩ := purgedRow_eq (s.clock 0) r
    rw [hx]

/-- **Every transaction but three keeps a frame.** -/
theorem perform_keeps {x : Transaction} (haccept : ∀ d request, x ≠ .accept d request)
    (hput : ∀ d content digest contentType, x ≠ .putArtifact d content digest contentType)
    (hpoll : x ≠ .reconcilable) : Tx.Keeps I (store.perform x) := by
  cases x with
  | accept d request => exact absurd rfl (haccept d request)
  | putArtifact d content digest contentType => exact absurd rfl (hput d content digest contentType)
  | get k => exact ((row_keeps k).bind snapshot_keeps).bind fun _ => Tx.Keeps.pure ()
  | claim => exact claim_keeps.bind fun _ => Tx.Keeps.pure ()
  | finish => exact (finish_keeps _ _ _ _ _).bind fun _ => Tx.Keeps.pure ()
  | saveHandle k handle => exact saveHandle_keeps k handle
  | recover => exact recover_keeps
  | reconcilable => exact absurd rfl hpoll
  | cancelIntent k => exact (cancelIntent_keeps k).bind fun _ => Tx.Keeps.pure ()
  | claimCancel => exact claimCancel_keeps.bind fun _ => Tx.Keeps.pure ()
  | events => exact (events_keeps _ _ _).bind fun _ => Tx.Keeps.pure ()
  | receipt k resultId status => exact receipt_keeps k resultId status
  | artifact d a =>
    exact Tx.Keeps.bind (fun s r s' h => of_advances (artifact_advances h)) fun _ =>
      Tx.Keeps.pure ()
  | purge => exact purge_keeps

end Frame

end HermesGateway.Broker
