import HermesGateway.Broker.Lifecycle

/-!
# What was shown of an operation

A snapshot, once it has left the broker, may reach a client at any time: replies overtake each other
and events come again. This module says what a snapshot that was shown at some time still has in
common with the row it was taken of, however the row has gone on. Any two snapshots of an operation
can then be compared through its row.

With `late` the broker may save a first handle for an operation whose outcome is already unknown.
Only without it is the handle of an unknown outcome the one a definitive outcome is found under.

## Main definitions

* `Sound` — what holds of every row
* `Shown` — what still holds of a snapshot that was shown

## Main results

* `shown_render` — a snapshot is right about the row it is taken of
* `KeyStep.shown` — no step of the row makes it wrong
* `shown_of_published`, `shown_of_serve` — events and replies
-/

namespace HermesGateway.Broker

open BrokerStore

/-- What holds of every row. -/
structure Sound (r : OperationRow) : Prop where
  resolved : r.state.Terminal ↔ r.resultId ≠ none
  handle : r.remoteTaskId ≠ some ""
  unknown : r.state = .outcomeUnknown → r.result = none

/-- What still holds of a snapshot that was shown of an operation, `r` being its row now. -/
structure Shown (late : Prop) (r : OperationRow) (s : Snapshot) : Prop where
  operationId : s.operationId = r.operationId
  flowId : s.flowId = r.flowId
  resolved : s.state.Terminal ↔ s.resultId ≠ none
  resultId : s.resultId ≠ none → r.resultId = s.resultId
  settled : s.state.Final → r.state = s.state ∧ r.remoteTaskId = s.remoteTaskId
  handle : s.remoteTaskId ≠ none → r.remoteTaskId = s.remoteTaskId
  nonempty : s.remoteTaskId ≠ some ""
  unknown : s.state = .outcomeUnknown → s.result = none
  /-- An unknown outcome stays unknown or is resolved, and that under a handle. -/
  confirmed : s.state = .outcomeUnknown →
    r.state = .outcomeUnknown ∨ r.state.Final ∧ r.remoteTaskId ≠ none
  punctual : s.state = .outcomeUnknown → ¬ late → r.remoteTaskId = s.remoteTaskId

section

variable {R : Time → Time → Prop} {late : Prop} {k : Key} {r r' : OperationRow} {s : Snapshot}

theorem result_render_of_none {t₁ t₂ : Time} (h : r.result = none) :
    (render r t₁ t₂).result = none := by
  change (renderResult r t₁ t₂).1 = none
  unfold renderResult
  rw [h]
  cases r.resultExpiresAt with
  | none => rfl
  | some expires =>
    dsimp only
    split_ifs <;> rfl

/-- A snapshot is right about the row it is taken of. -/
theorem shown_render (h : Sound r) (t₁ t₂ : Time) : Shown late r (render r t₁ t₂) where
  operationId := rfl
  flowId := rfl
  resolved := h.resolved
  resultId _ := rfl
  settled _ := ⟨rfl, rfl⟩
  handle _ := rfl
  nonempty := h.handle
  unknown hstate := result_render_of_none (h.unknown hstate)
  confirmed hstate := .inl hstate
  punctual _ _ := rfl

/-- A change of columns a snapshot says nothing about. -/
theorem Shown.congr (h : Shown late r s) (hop : r'.operationId = r.operationId)
    (hflow : r'.flowId = r.flowId) (hstate : r'.state = r.state)
    (hresult : r'.resultId = r.resultId) (hhandle : r'.remoteTaskId = r.remoteTaskId) :
    Shown late r' s where
  operationId := h.operationId.trans hop.symm
  flowId := h.flowId.trans hflow.symm
  resolved := h.resolved
  resultId hne := hresult.trans (h.resultId hne)
  settled hfinal := ⟨hstate.trans (h.settled hfinal).1, hhandle.trans (h.settled hfinal).2⟩
  handle hne := hhandle.trans (h.handle hne)
  nonempty := h.nonempty
  unknown := h.unknown
  confirmed hunknown := by
    rw [hstate, hhandle]
    exact h.confirmed hunknown
  punctual hunknown hlate := hhandle.trans (h.punctual hunknown hlate)

theorem Sound.congr (h : Sound r) (hstate : r'.state = r.state) (hresult : r'.resultId = r.resultId)
    (hhandle : r'.remoteTaskId = r.remoteTaskId)
    (hbody : r.result = none → r'.result = none) : Sound r' where
  resolved := by
    rw [hstate, hresult]
    exact h.resolved
  handle := by
    rw [hhandle]
    exact h.handle
  unknown hunknown := hbody (h.unknown (hstate ▸ hunknown))

/-- Nothing definitive was shown of a row that can still be edited. -/
theorem Shown.live (h : Shown late r s) (hlive : ¬ r.state.Final) : ¬ s.state.Final := by
  intro hfinal
  rw [(h.settled hfinal).1] at hlive
  exact hlive hfinal

theorem Edit.sound {e : Edit} (hallowed : e.Allowed r) (hknown : KnownOf late r e) (h : Sound r) :
    Sound (e.row r) := by
  have hp := Edit.progress hallowed hknown h.resolved h.handle
  refine ⟨hp.resolved, hp.handle, ?_⟩
  cases e with
  | claim claimedAt now => exact fun hunknown => absurd hunknown (by simp [Edit.row, claimedRow])
  | finish state result code message expires fresh now =>
    obtain ⟨L, ⟨-, hresult, -⟩, -⟩ := hknown
    exact hresult
  | handle | cancel => exact h.unknown

/-- An edit makes nothing wrong that was shown. -/
theorem Edit.shown {e : Edit} (hallowed : e.Allowed r) (hknown : KnownOf late r e) (hr : Sound r)
    (h : Shown late r s) : Shown late (e.row r) s := by
  have hp := Edit.progress hallowed hknown hr.resolved hr.handle
  have hlive := h.live hp.live
  obtain ⟨L, hdisciplined, hlate⟩ := hknown
  exact
    { operationId := h.operationId.trans hp.constant.1.symm
      flowId := h.flowId.trans hp.constant.2.1.symm
      resolved := h.resolved
      resultId := fun hne => by
        have hsame := h.resultId hne
        exact (hp.resultId.resolve_left (hsame ▸ hne)).trans hsame
      settled := fun hfinal => absurd hfinal hlive
      handle := fun hne => by
        have hsame := h.handle hne
        exact (hp.remoteTaskId.resolve_left (hsame ▸ hne)).trans hsame
      nonempty := h.nonempty
      unknown := h.unknown
      confirmed := fun hunknown => by
        have hstate := (h.confirmed hunknown).resolve_right fun hfinal => hp.live hfinal.1
        cases e with
        | claim => exact absurd (hallowed.symm.trans hstate) (by decide)
        | finish state =>
          refine hallowed.2.1.symm.imp_right fun hfinal => ⟨hfinal, ?_⟩
          exact hdisciplined.2.2.1 hfinal (by rw [hstate]; decide)
        | handle | cancel => exact .inl hstate
      punctual := fun hunknown hpunctual => by
        have hstate := (h.confirmed hunknown).resolve_right fun hfinal => hp.live hfinal.1
        cases e with
        | handle handle now => exact absurd (hlate handle now rfl hstate) hpunctual
        | claim | finish | cancel => exact h.punctual hunknown hpunctual }

/-- **No step of a row** makes anything wrong that was shown. -/
theorem KeyStep.shown {ss : List Snapshot} {o' : Option OperationRow}
    (hstep : KeyStep R (KnownOf late) k (some r) ss o') (hr : Sound r) :
    ∃ r', o' = some r' ∧ Sound r' ∧ (∀ s ∈ ss, Shown late r' s) ∧
      ∀ s, Shown late r s → Shown late r' s := by
  cases hstep with
  | same => exact ⟨r, rfl, hr, by simp, fun _ h => h⟩
  | @edit _ e t₁ t₂ hkey hallowed hknown hread =>
    have hsound := Edit.sound hallowed hknown hr
    refine ⟨_, rfl, hsound, fun s hs => ?_, fun _ h => Edit.shown hallowed hknown hr h⟩
    rw [List.mem_singleton.mp hs]
    exact shown_render hsound t₁ t₂
  | poll => exact ⟨_, rfl, hr.congr rfl rfl rfl id, by simp, fun _ h => h.congr rfl rfl rfl rfl rfl⟩
  | cancelClaim =>
    exact ⟨_, rfl, hr.congr rfl rfl rfl id, by simp, fun _ h => h.congr rfl rfl rfl rfl rfl⟩
  | @purge _ now hread =>
    refine ⟨_, rfl, ?_, by simp, fun _ h => ?_⟩
    · refine hr.congr (state_purgedRow now r) ?_ (remoteTaskId_purgedRow now r) ?_
      · obtain ⟨x, hx⟩ := purgedRow_eq now r
        rw [hx]
      · intro hnone
        unfold purgedRow
        split
        · split_ifs
          · rfl
          · exact hnone
        · exact hnone
    · obtain ⟨x, hx⟩ := purgedRow_eq now r
      rw [hx]
      exact h.congr rfl rfl rfl rfl rfl

end

/-! ### Ledgers -/

/-- Every row is sound, and right is what was published. -/
def Ledger.Honest (late : Prop) (L : Ledger) : Prop :=
  ∀ k, match L.operation? k with
    | none => L.published k = []
    | some r => Sound r ∧ ∀ s ∈ L.published k, Shown late r s

/-- A snapshot that was shown to a device is still right. -/
def Ledger.Shown (late : Prop) (L : Ledger) (d : Device) (s : Snapshot) : Prop :=
  ∃ r, L.operation? (d, s.operationId) = some r ∧ Broker.Shown late r s

section

variable {late : Prop} {L L' : Ledger} {ks : List Key} {d : Device} {s : Snapshot}

theorem honest_empty : Ledger.Honest late Ledger.empty := fun _ => rfl

theorem Ledger.Honest.sound (h : L.Honest late) {k : Key} {r : OperationRow}
    (hr : L.operation? k = some r) : Sound r := by
  have := h k
  rw [hr] at this
  exact this.1

/-- The moves of the broker keep the ledger honest. -/
theorem Ledger.Honest.of_trace (h : L.Honest late) (hmoves : BrokerMoves late L ks L') :
    L'.Honest late := by
  refine hmoves.invariant (fun {L _ L'} hL hmove k => ?_) h
  obtain ⟨ss, hstep, hpub, -⟩ := hmove.keyStep (Q := KnownOf late) (fun L _ _ hk => ⟨L, hk⟩) k
  have hk := hL k
  rw [hpub]
  cases hr : L.operation? k with
  | none =>
    rw [hr] at hstep hk
    rw [show L.published k = [] from hk, List.nil_append]
    generalize L'.operation? k = o' at hstep
    cases hstep with
    | same => rfl
    | @insert request digest now t₁ t₂ hop hread =>
      have hsound : Sound (acceptedRow k.1 request digest now) :=
        ⟨by simp [acceptedRow]; decide, by simp [acceptedRow], fun _ => rfl⟩
      refine ⟨hsound, fun s hs => ?_⟩
      rw [List.mem_singleton.mp hs]
      exact shown_render hsound t₁ t₂
  | some r =>
    rw [hr] at hstep hk
    obtain ⟨r', hr', hsound, hnew, hold⟩ := hstep.shown hk.1
    rw [hr']
    refine ⟨hsound, fun s hs => ?_⟩
    rcases List.mem_append.mp hs with hs | hs
    · exact hold s (hk.2 s hs)
    · exact hnew s hs

/-- What was shown stays right. -/
theorem Ledger.Shown.of_trace (h : L.Shown late d s) (hhonest : L.Honest late)
    (hmoves : BrokerMoves late L ks L') : L'.Shown late d s := by
  refine (hmoves.invariant (I := fun L => L.Honest late ∧ L.Shown late d s) ?_ ⟨hhonest, h⟩).2
  rintro L ks L' ⟨hL, r, hr, hs⟩ hmove
  refine ⟨hL.of_trace (Trace.single hmove), ?_⟩
  obtain ⟨ss, hstep, -, -⟩ := hmove.keyStep (Q := KnownOf late) (fun L _ _ hk => ⟨L, hk⟩)
    (d, s.operationId)
  rw [hr] at hstep
  obtain ⟨r', hr', -, -, hold⟩ := hstep.shown (hL.sound hr)
  exact ⟨r', hr', hold s hs⟩

/-- What was published is right. -/
theorem shown_of_published {k : Key} (h : L.Honest late) (hs : s ∈ L.published k) :
    L.Shown late k.1 s := by
  have hk := h k
  cases hr : L.operation? k with
  | none =>
    rw [hr] at hk
    rw [show L.published k = [] from hk] at hs
    exact absurd hs List.not_mem_nil
  | some r =>
    rw [hr] at hk
    have hshown := hk.2 s hs
    refine ⟨r, ?_, hshown⟩
    have hkey := key_of_operation? hr
    rw [hshown.operationId, ← hr, ← hkey]
    rfl

end

/-! ### Replies -/

/-- The snapshot is one of the row as it is. -/
def Renders (L : Ledger) (k : Key) (snap : Snapshot) : Prop :=
  ∃ r t₁ t₂, L.operation? k = some r ∧ snap = render r t₁ t₂

section

variable {store : BrokerStore} {s s' : Session} {k : Key} {snap : Snapshot}

theorem snapshot_renders {r : OperationRow} (hr : s.ledger.operation? k = some r)
    (h : snapshot r s = .ok (snap, s')) : Renders s'.ledger k snap := by
  obtain ⟨rfl, rfl⟩ := snapshot_eq_ok h
  exact ⟨r, _, _, hr, rfl⟩

theorem event_renders (h : store.event k s = .ok (snap, s')) : Renders s'.ledger k snap := by
  obtain ⟨r, dev, expires, hr, -, rfl, rfl⟩ := event_eq_ok h
  exact ⟨r, _, _, hr, rfl⟩

theorem finishOperation_renders {state : OpState} {result : Option ResultBody}
    {code : Option ErrorCode} {message : Option String}
    (h : store.finishOperation k state result code message s = .ok (snap, s')) :
    Renders s'.ledger k snap := by
  simp only [finishOperation, Tx.bind_eq_ok, row_eq_ok] at h
  obtain ⟨r, _, ⟨hr, rfl⟩, h⟩ := h
  split_ifs at h
  · exact snapshot_renders hr h
  · simp only [Tx.bind_eq_ok] at h
    obtain ⟨_, _, -, _, _, -, _, _, -, _, _, -, hevent⟩ := h
    exact event_renders hevent

theorem get_renders (h : BrokerStore.get k s = .ok (snap, s')) : Renders s'.ledger k snap := by
  simp only [BrokerStore.get, Tx.bind_eq_ok, row_eq_ok] at h
  obtain ⟨r, _, ⟨hr, rfl⟩, h⟩ := h
  exact snapshot_renders hr h

theorem accept_renders {d : Device} {request : OperationRequest} {created : Bool}
    (h : store.accept d request s = .ok ((snap, created), s')) :
    Renders s'.ledger (d, request.operationId) snap := by
  simp only [accept, Tx.bind_eq_ok, readLedger_eq_ok] at h
  obtain ⟨_, t, -, _, _, ⟨rfl, rfl⟩, h⟩ := h
  cases hprev : t.ledger.operation? (d, request.operationId) with
  | some previous =>
    simp only [hprev, Tx.bind_eq_ok, Tx.refuse_eq_ok, Tx.pure_eq_ok] at h
    obtain ⟨_, _, ⟨-, heq⟩, snap', u, hsnap, hret⟩ := h
    obtain ⟨-, rfl⟩ := Prod.mk.inj heq
    obtain ⟨hpair, rfl⟩ := Prod.mk.inj hret
    obtain ⟨rfl, -⟩ := Prod.mk.inj hpair
    exact snapshot_renders hprev hsnap
  | none =>
    simp only [hprev, Tx.bind_eq_ok, Tx.pure_eq_ok] at h
    obtain ⟨_, _, -, _, _, -, _, _, -, _, _, -, _, _, -, _, _, -, _, _, -, snap', u, hevent,
      hret⟩ := h
    obtain ⟨hpair, rfl⟩ := Prod.mk.inj hret
    obtain ⟨rfl, -⟩ := Prod.mk.inj hpair
    exact event_renders hevent

theorem cancelIntent_renders {handle : Option String}
    (h : store.cancelIntent k s = .ok ((snap, handle), s')) : Renders s'.ledger k snap := by
  simp only [cancelIntent, Tx.bind_eq_ok, row_eq_ok] at h
  obtain ⟨_, t, -, r, _, ⟨hr, rfl⟩, h⟩ := h
  split_ifs at h
  · simp only [Tx.bind_eq_ok, Tx.pure_eq_ok] at h
    obtain ⟨snap', u, hfinish, hret⟩ := h
    obtain ⟨hpair, rfl⟩ := Prod.mk.inj hret
    obtain ⟨rfl, -⟩ := Prod.mk.inj hpair
    exact finishOperation_renders hfinish
  · simp only [Tx.bind_eq_ok, Tx.pure_eq_ok] at h
    obtain ⟨snap', u, hsnap, hret⟩ := h
    obtain ⟨hpair, rfl⟩ := Prod.mk.inj hret
    obtain ⟨rfl, -⟩ := Prod.mk.inj hpair
    exact snapshot_renders hr hsnap
  · simp only [Tx.bind_eq_ok, Tx.pure_eq_ok] at h
    obtain ⟨_, _, -, _, _, -, snap', u, hevent, hret⟩ := h
    obtain ⟨hpair, rfl⟩ := Prod.mk.inj hret
    obtain ⟨rfl, -⟩ := Prod.mk.inj hpair
    exact event_renders hevent

/-- The events of a reply were published. -/
theorem events_published {d : Device} {after limit : ℕ} {frames : List (ℕ × Snapshot)}
    (hlog : Log s'.ledger) (h : BrokerStore.events d after limit s = .ok (frames, s')) :
    ∀ frame ∈ frames, frame.2 ∈ s'.ledger.published (d, frame.2.operationId) := by
  simp only [BrokerStore.events, Tx.bind_eq_ok, readLedger_eq_ok] at h
  obtain ⟨_, t, -, _, u, -, _, _, ⟨rfl, rfl⟩, h⟩ := h
  cases hd : u.ledger.device? d with
  | none =>
    rw [hd] at h
    exact (Tx.throw_eq_ok.mp h).elim
  | some row =>
    simp only [hd, Tx.bind_eq_ok, Tx.refuse_eq_ok, Tx.pure_eq_ok] at h
    obtain ⟨_, _, ⟨-, heq⟩, _, _, ⟨-, heq'⟩, hret⟩ := h
    obtain ⟨-, rfl⟩ := Prod.mk.inj heq
    obtain ⟨-, rfl⟩ := Prod.mk.inj heq'
    obtain ⟨rfl, rfl⟩ := Prod.mk.inj hret
    intro frame hframe
    obtain ⟨e, he, rfl⟩ := List.mem_map.mp hframe
    have hsort := List.mem_of_mem_take he
    rw [List.mem_insertionSort] at hsort
    obtain ⟨hmem, hdevice⟩ := List.mem_filter.mp hsort
    obtain ⟨hdevice, -⟩ := of_decide_eq_true hdevice
    have hstored : e ∈ u.ledger.eventsOf d := List.mem_filter.mpr ⟨hmem, by simpa using hdevice⟩
    rw [hlog.retained] at hstored
    have hhistory := (List.mem_filter.mp (List.mem_of_mem_drop hstored)).1
    refine List.mem_map.mpr ⟨e, List.mem_filter.mpr ⟨hhistory, ?_⟩, rfl⟩
    simp [EventRow.key, hdevice]

/-- The snapshots in a reply. -/
def Reply.snapshots : Reply → List Snapshot
  | .snapshot snap => [snap]
  | .events frames => frames.map Prod.snd
  | .descriptor _ | .content _ _ | .ok => []

/-- What a reply shows is right. -/
theorem shown_of_serve {late : Prop} {d : Device} {request : Request} {reply : Reply}
    (hhonest : s'.ledger.Honest late) (hlog : Log s'.ledger)
    (h : store.serve d request s = .ok (reply, s')) :
    ∀ snap ∈ reply.snapshots, s'.ledger.Shown late d snap := by
  have hrenders : ∀ {op : Uuid} {snap : Snapshot}, Renders s'.ledger (d, op) snap →
      ∀ x ∈ (Reply.snapshot snap).snapshots, s'.ledger.Shown late d x := by
    rintro op snap ⟨r, t₁, t₂, hr, rfl⟩ x hx
    rw [List.mem_singleton.mp hx]
    have hkey := congrArg Prod.snd (key_of_operation? hr)
    exact ⟨r, by rw [← hr]; exact congrArg _ (congrArg _ hkey), shown_render (hhonest.sound hr) _ _⟩
  cases request with
  | accept request =>
    simp only [serve, Tx.bind_eq_ok, Tx.pure_eq_ok] at h
    obtain ⟨x, t, h, hret⟩ := h
    obtain ⟨rfl, rfl⟩ := Prod.mk.inj hret
    exact hrenders (accept_renders h)
  | get operation =>
    simp only [serve, Tx.bind_eq_ok, Tx.pure_eq_ok] at h
    obtain ⟨_, t, h, hret⟩ := h
    obtain ⟨rfl, rfl⟩ := Prod.mk.inj hret
    exact hrenders (get_renders h)
  | cancel operation =>
    simp only [serve, Tx.bind_eq_ok, Tx.pure_eq_ok] at h
    obtain ⟨x, t, h, hret⟩ := h
    obtain ⟨rfl, rfl⟩ := Prod.mk.inj hret
    exact hrenders (cancelIntent_renders h)
  | events after =>
    simp only [serve, Tx.bind_eq_ok, Tx.pure_eq_ok] at h
    obtain ⟨frames, t, h, hret⟩ := h
    obtain ⟨rfl, rfl⟩ := Prod.mk.inj hret
    intro snap hsnap
    obtain ⟨frame, hframe, rfl⟩ := List.mem_map.mp hsnap
    exact shown_of_published hhonest (events_published hlog h frame hframe)
  | receipt | upload | download =>
    simp only [serve, Tx.bind_eq_ok, Tx.pure_eq_ok] at h
    obtain ⟨_, t, h, hret⟩ := h
    obtain ⟨rfl, -⟩ := Prod.mk.inj hret
    exact fun snap hsnap => absurd hsnap List.not_mem_nil

end

end HermesGateway.Broker
