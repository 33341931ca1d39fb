import HermesGateway.Broker.Moves

/-!
# Transactions as moves

One theorem for each method of the store: a successful call is a sequence of moves, with the keys
it may publish. The proofs take the method apart statement by statement; nothing after this module
unfolds one again.

## Main definitions

* `Publishes` — a session is left by moves that append at most one event for each listed key

## Main results

* `BrokerStore.accept_publishes`, `claim_publishes`, `finish_publishes` and so on, one for each
  transaction
* `BrokerStore.perform_publishes` — all of them, when nothing is asked of the edits
-/

namespace HermesGateway.Broker

open BrokerStore

/-! ### Sessions that only make moves -/

/-- Two clock readings, the first taken no later than the second, are related by `R`. -/
def Session.Reads (R : Time → Time → Prop) (s : Session) : Prop :=
  ∀ i j, i ≤ j → R (s.clock i) (s.clock j)

/-- The session after one clock reading. -/
def Session.tick (s : Session) : Session := { s with clock := fun n => s.clock (n + 1) }

/-- The session after one `uuid4()`. -/
def Session.draw (s : Session) : Session := { s with uuids := fun n => s.uuids (n + 1) }

@[simp] theorem Session.ledger_tick (s : Session) : s.tick.ledger = s.ledger := rfl

@[simp] theorem Session.ledger_draw (s : Session) : s.draw.ledger = s.ledger := rfl

theorem Session.Reads.tick {R : Time → Time → Prop} {s : Session} (h : s.Reads R) :
    s.tick.Reads R :=
  fun i j hij => h (i + 1) (j + 1) (Nat.succ_le_succ hij)

/-- The session went from `s` to `s'` by moves that append at most one event for each key of
`ks`, and read the clock from where it was. -/
def Publishes (R : Time → Time → Prop) (P : Ledger → OperationRow → Edit → Prop) (ks : List Key)
    (s s' : Session) : Prop :=
  s.Reads R → s'.Reads R ∧ ∃ ks', ks'.Sublist ks ∧ Trace (Move R P) s.ledger ks' s'.ledger

/-- Any sequence of moves, with nothing asked of it. -/
abbrev Moves (L : Ledger) (ks : List Key) (L' : Ledger) : Prop :=
  Trace (Move (fun _ _ => True) fun _ _ _ => True) L ks L'

namespace Publishes

variable {R : Time → Time → Prop} {P : Ledger → OperationRow → Edit → Prop} {s t u : Session}
  {ks ks' : List Key}

theorem refl (ks : List Key) (s : Session) : Publishes R P ks s s := fun h =>
  ⟨h, [], List.nil_sublist ks, Trace.nil⟩

theorem trans (h : Publishes R P ks s t) (h' : Publishes R P ks' t u) :
    Publishes R P (ks ++ ks') s u := by
  intro hs
  obtain ⟨ht, as, has, htrace⟩ := h hs
  obtain ⟨hu, bs, hbs, htrace'⟩ := h' ht
  exact ⟨hu, as ++ bs, has.append hbs, htrace.trans htrace'⟩

/-- A session that published nothing so far. -/
theorem quiet_trans (h : Publishes R P [] s t) (h' : Publishes R P ks t u) : Publishes R P ks s u :=
  h.trans h'

/-- Reading the clock publishes nothing. -/
theorem tick (s : Session) : Publishes R P [] s s.tick := fun h =>
  ⟨h.tick, [], List.Sublist.refl [], Trace.nil⟩

/-- Drawing a UUID publishes nothing. -/
theorem draw (s : Session) : Publishes R P [] s s.draw := fun h =>
  ⟨h, [], List.Sublist.refl [], Trace.nil⟩

/-- One move, when the rest of the session is left as it is. -/
theorem move {L : Ledger} (h : s.Reads R → Move R P s.ledger ks L) :
    Publishes R P ks s { s with ledger := L } := fun hs =>
  ⟨hs, ks, List.Sublist.refl ks, Trace.single (h hs)⟩

theorem mono (h : Publishes R P ks s t) (hsub : ks.Sublist ks') : Publishes R P ks' s t := by
  intro hs
  obtain ⟨ht, as, has, htrace⟩ := h hs
  exact ⟨ht, as, has.trans hsub, htrace⟩

end Publishes

/-- The session read the clock or drew UUIDs, and wrote nothing. -/
def Session.Advances (s s' : Session) : Prop :=
  s'.ledger = s.ledger ∧ ∃ n, s'.clock = fun i => s.clock (i + n)

namespace Session.Advances

variable {s t u : Session}

theorem refl (s : Session) : s.Advances s := ⟨rfl, 0, rfl⟩

theorem tick (s : Session) : s.Advances s.tick := ⟨rfl, 1, rfl⟩

theorem trans (h : s.Advances t) (h' : t.Advances u) : s.Advances u := by
  obtain ⟨hl, n, hn⟩ := h
  obtain ⟨hl', m, hm⟩ := h'
  refine ⟨hl'.trans hl, m + n, ?_⟩
  funext i
  simp only [hm, hn, Nat.add_assoc]

theorem publishes {R : Time → Time → Prop} {P : Ledger → OperationRow → Edit → Prop}
    (h : s.Advances t) :
    Publishes R P [] s t := by
  obtain ⟨hl, n, hn⟩ := h
  intro hs
  refine ⟨?_, [], List.Sublist.refl [], hl ▸ Trace.nil⟩
  intro i j hij
  rw [hn]
  exact hs (i + n) (j + n) (Nat.add_le_add_right hij n)

end Session.Advances

/-! ### Statements -/

theorem utcnow_eq_ok {s s' : Session} {t : Time} :
    utcnow s = .ok (t, s') ↔ s.clock 0 = t ∧ s.tick = s' := by
  rw [utcnow, Tx.modifyGet_eq_ok, Prod.mk.injEq]
  rfl

theorem uuid4_eq_ok {s s' : Session} {u : Uuid} :
    uuid4 s = .ok (u, s') ↔ s.uuids 0 = u ∧ s.draw = s' := by
  rw [uuid4, Tx.modifyGet_eq_ok, Prod.mk.injEq]
  rfl

theorem readLedger_eq_ok {s s' : Session} {L : Ledger} :
    readLedger s = .ok (L, s') ↔ s.ledger = L ∧ s = s' := by
  rw [readLedger, Tx.modifyGet_eq_ok, Prod.mk.injEq]

theorem writeLedger_eq_ok {s : Session} {f : Ledger → Ledger} {r : Unit × Session} :
    writeLedger f s = .ok r ↔ { s with ledger := f s.ledger } = r.2 := by
  rw [writeLedger, Tx.modify_eq_ok, Prod.ext_iff]
  simp

theorem row_eq_ok {k : Key} {s s' : Session} {r : OperationRow} :
    row k s = .ok (r, s') ↔ s.ledger.operation? k = some r ∧ s = s' := by
  simp only [row, Tx.bind_eq_ok, readLedger_eq_ok]
  constructor
  · rintro ⟨L, t, ⟨rfl, rfl⟩, h⟩
    cases hr : s.ledger.operation? k with
    | none => simp [hr, Tx.throw_eq_ok] at h
    | some r' => simpa [hr, Tx.pure_eq_ok] using h
  · rintro ⟨hr, rfl⟩
    exact ⟨_, _, ⟨rfl, rfl⟩, by simp [hr, Tx.pure_eq_ok]⟩

theorem snapshot_eq_ok {r : OperationRow} {s s' : Session} {snap : Snapshot}
    (h : snapshot r s = .ok (snap, s')) :
    snap = render r (s.clock 0) (s.clock 1) ∧ s' = s.tick.tick := by
  simp only [snapshot, Tx.bind_eq_ok, Tx.refuse_eq_ok, utcnow_eq_ok, Tx.pure_eq_ok] at h
  obtain ⟨_, _, ⟨-, heq⟩, _, _, ⟨rfl, rfl⟩, _, _, ⟨rfl, rfl⟩, hret⟩ := h
  obtain ⟨-, rfl⟩ := Prod.mk.inj heq
  obtain ⟨rfl, rfl⟩ := Prod.mk.inj hret
  exact ⟨rfl, rfl⟩

/-- The ledger once `_device` has seen to the row of the device. -/
def Ledger.withDevice (L : Ledger) (d : Device) : Ledger :=
  match L.device? d with
  | some _ => L
  | none => { L with devices := L.devices ++ [⟨d, 0, 0⟩] }

theorem Ledger.withDevice_of_some {L : Ledger} {d : Device} {dev : DeviceRow}
    (h : L.device? d = some dev) : L.withDevice d = L := by
  rw [Ledger.withDevice, h]

/-- Only the devices change. -/
theorem Ledger.withDevice_eq (L : Ledger) (d : Device) :
    ∃ devices, L.withDevice d = { L with devices := devices } := by
  cases h : L.device? d with
  | some dev => exact ⟨L.devices, Ledger.withDevice_of_some h⟩
  | none => exact ⟨L.devices ++ [⟨d, 0, 0⟩], by rw [Ledger.withDevice, h]⟩

@[simp] theorem Ledger.operation?_withDevice (L : Ledger) (d : Device) (k : Key) :
    (L.withDevice d).operation? k = L.operation? k := by
  obtain ⟨devices, h⟩ := L.withDevice_eq d
  rw [h]
  rfl

theorem device_ok (d : Device) (s : Session) :
    device d s = .ok ((), { s with ledger := s.ledger.withDevice d }) := rfl

section Statements

variable {R : Time → Time → Prop} {P : Ledger → OperationRow → Edit → Prop} {s s' : Session}

theorem snapshot_publishes {r : OperationRow} {snap : Snapshot}
    (h : snapshot r s = .ok (snap, s')) : Publishes R P [] s s' := by
  obtain ⟨-, rfl⟩ := snapshot_eq_ok h
  exact (Publishes.tick s).trans (Publishes.tick s.tick)

namespace BrokerStore

/-- After `_device` the row of the device is there, and the operations are as they were. -/
theorem device_eq_ok {d : Device} (h : device d s = .ok ((), s')) :
    (∃ dev, s'.ledger.device? d = some dev) ∧ s'.ledger.operations = s.ledger.operations ∧
      s'.clock = s.clock ∧ Publishes R P [] s s' := by
  rw [device, writeLedger_eq_ok] at h
  subst h
  cases hd : s.ledger.device? d with
  | some dev => exact ⟨⟨dev, hd⟩, rfl, rfl, Publishes.refl [] s⟩
  | none =>
    refine ⟨⟨⟨d, 0, 0⟩, ?_⟩, rfl, rfl, Publishes.move fun _ => Move.device hd⟩
    exact Table.lookup_insert_self hd

variable {store : BrokerStore}

/-- What `_event` does: the snapshot of the row at two readings is numbered and appended. -/
theorem event_eq_ok {k : Key} {snap : Snapshot} (h : store.event k s = .ok (snap, s')) :
    ∃ r dev expires, s.ledger.operation? k = some r ∧ s.ledger.device? k.1 = some dev ∧
      snap = render r (s.clock 0) (s.clock 1) ∧
      s' = { s.tick.tick.tick with
        ledger := s.ledger.appendEvent k.1 (dev.sequence + 1) snap expires } := by
  simp only [event, Tx.bind_eq_ok, row_eq_ok, readLedger_eq_ok] at h
  obtain ⟨r, _, ⟨hr, rfl⟩, snap', t, hsnap, _, _, ⟨rfl, rfl⟩, h⟩ := h
  obtain ⟨rfl, rfl⟩ := snapshot_eq_ok hsnap
  cases hd : s.ledger.device? k.1 with
  | none => simp [hd, Tx.throw_eq_ok] at h
  | some dev =>
    simp only [Session.ledger_tick, hd, Tx.bind_eq_ok, Tx.refuse_eq_ok, utcnow_eq_ok,
      writeLedger_eq_ok, Tx.pure_eq_ok] at h
    obtain ⟨_, _, ⟨-, heq⟩, now, _, ⟨-, rfl⟩, _, _, rfl, hret⟩ := h
    obtain ⟨-, rfl⟩ := Prod.mk.inj heq
    obtain ⟨rfl, rfl⟩ := Prod.mk.inj hret
    exact ⟨r, dev, _, hr, rfl, rfl, rfl⟩

/-- An edit of the ledger followed by `_event` is one move. -/
theorem event_publishes {k : Key} {snap : Snapshot} {e : Edit} {r : OperationRow}
    (hrow : s.ledger.operation? k = some r) (hallowed : e.Allowed r) (hknown : P s.ledger r e)
    (h : store.event k { s with ledger := e.ledger k s.ledger } = .ok (snap, s')) :
    Publishes R P [k] s s' := by
  obtain ⟨r', dev, expires, hr', hdev, rfl, rfl⟩ := event_eq_ok h
  have hr : r' = e.row r := by
    rw [Edit.operation?_ledger, if_pos rfl, hrow] at hr'
    exact (Option.some.inj hr').symm
  subst hr
  intro hs
  refine ⟨hs.tick.tick.tick, [k], List.Sublist.refl _, Trace.single ?_⟩
  exact Move.edit hrow (by rw [← hdev]; simp [Ledger.device?]) hallowed hknown
    (hs 0 1 (by decide))

/-- `_finish` leaves a definitive row alone and edits every other one. -/
theorem finishOperation_publishes {k : Key} {state : OpState} {result : Option ResultBody}
    {code : Option ErrorCode} {message : Option String} {snap : Snapshot}
    (hstate : state.Terminal)
    (hknown : ∀ r expires fresh now, s.ledger.operation? k = some r → ¬ r.state.Final →
      P s.ledger r (.finish state result code message expires fresh now))
    (h : store.finishOperation k state result code message s = .ok (snap, s')) :
    Publishes R P [k] s s' := by
  simp only [finishOperation, Tx.bind_eq_ok, row_eq_ok] at h
  obtain ⟨r, _, ⟨hr, rfl⟩, h⟩ := h
  split_ifs at h with hfinal
  · exact (snapshot_publishes h).mono (List.nil_sublist _)
  · simp only [Tx.bind_eq_ok, utcnow_eq_ok, uuid4_eq_ok, writeLedger_eq_ok] at h
    obtain ⟨stored, _, ⟨-, rfl⟩, fresh, _, ⟨-, rfl⟩, now, _, ⟨-, rfl⟩, _, _, rfl, h⟩ := h
    have hticks : Publishes R P [] s s.tick.draw.tick :=
      ((Publishes.tick s).trans (Publishes.draw s.tick)).trans (Publishes.tick _)
    refine hticks.trans (event_publishes (e := .finish state result code message
      (result.map fun _ => stored + seconds store.settings.resultTtlSeconds) fresh now)
      hr ⟨hfinal, hstate, by simp⟩ (hknown r _ fresh now hr hfinal) h)

/-- `finish` edits the row with what it was given, or records that the result is too large. -/
theorem finish_publishes {k : Key} {state : OpState} {result : Option ResultBody}
    {code : Option ErrorCode} {message : Option String} {snap : Snapshot}
    (hknown : ∀ L r expires fresh now, L.operations = s.ledger.operations →
      L.operation? k = some r → ¬ r.state.Final → state.Terminal →
      P L r (.finish state result code message expires fresh now) ∧
      (result ≠ none → P L r (.finish .failed none (some .resultTooLarge)
        (some "peer result exceeds configured limit") expires fresh now)))
    (h : store.finish k state result code message s = .ok (snap, s')) :
    Publishes R P [k] s s' := by
  simp only [finish, Tx.bind_eq_ok, Tx.refuse_eq_ok] at h
  obtain ⟨_, _, ⟨hstate, heq⟩, _, _, ⟨-, heq'⟩, _, t, hdev, h⟩ := h
  obtain ⟨-, rfl⟩ := Prod.mk.inj heq
  obtain ⟨-, rfl⟩ := Prod.mk.inj heq'
  rw [not_not] at hstate
  obtain ⟨-, hops, -, hpub⟩ := device_eq_ok (R := R) (P := P) hdev
  refine hpub.quiet_trans ?_
  split_ifs at h with hlarge
  · obtain ⟨body, hbody, -⟩ := hlarge
    refine finishOperation_publishes (by decide) ?_ h
    intro r expires fresh now hr hfinal
    exact (hknown _ r expires fresh now hops hr hfinal hstate).2 (by simp [hbody])
  · refine finishOperation_publishes hstate ?_ h
    intro r expires fresh now hr hfinal
    exact (hknown _ r expires fresh now hops hr hfinal hstate).1

/-- `save_handle` gives a row that has none its handle, and otherwise changes nothing. -/
theorem saveHandle_publishes {k : Key} {handle : String}
    (hknown : ∀ L r now, L.operations = s.ledger.operations → L.operation? k = some r →
      (Edit.handle handle now).Allowed r → P L r (.handle handle now))
    (h : store.saveHandle k handle s = .ok ((), s')) : Publishes R P [k] s s' := by
  simp only [saveHandle, Tx.bind_eq_ok, Tx.refuse_eq_ok, row_eq_ok] at h
  obtain ⟨_, _, ⟨hvalid, heq⟩, _, t, hdev, r, _, ⟨hr, rfl⟩, _, _, ⟨hsame, heq'⟩, h⟩ := h
  obtain ⟨-, rfl⟩ := Prod.mk.inj heq
  obtain ⟨-, rfl⟩ := Prod.mk.inj heq'
  obtain ⟨-, hops, -, hpub⟩ := device_eq_ok (R := R) (P := P) hdev
  refine hpub.quiet_trans ?_
  split_ifs at h with hdone
  · obtain ⟨-, rfl⟩ := Prod.mk.inj (Tx.pure_eq_ok.mp h)
    exact Publishes.refl [k] _
  · simp only [Tx.bind_eq_ok, Tx.refuse_eq_ok, utcnow_eq_ok, writeLedger_eq_ok, Tx.pure_eq_ok] at h
    obtain ⟨now, _, ⟨-, rfl⟩, _, _, ⟨-, heq⟩, _, _, ⟨-, heq'⟩, _, _, rfl, snap, u, hevent, hret⟩ :=
      h
    obtain ⟨-, rfl⟩ := Prod.mk.inj heq
    obtain ⟨-, rfl⟩ := Prod.mk.inj heq'
    obtain ⟨-, rfl⟩ := Prod.mk.inj hret
    rw [not_or] at hdone hvalid
    have hnone : r.remoteTaskId = none ∨ r.remoteTaskId = some "" := by
      by_contra hcon
      rw [not_or] at hcon
      exact hsame ⟨hcon.1, hcon.2, hdone.1⟩
    have hallowed : (Edit.handle handle now).Allowed r := ⟨hdone.2, hnone, hvalid.1⟩
    exact (Publishes.tick t).trans (event_publishes (e := .handle handle now) hr hallowed
      (hknown _ r now hops hr hallowed) hevent)

/-! ### Reading artifacts -/

theorem artifact_advances {d : Device} {a : Uuid} {r : Descriptor × ByteArray}
    (h : store.artifact d a s = .ok (r, s')) : s.Advances s' := by
  simp only [artifact, Tx.bind_eq_ok, utcnow_eq_ok, readLedger_eq_ok] at h
  obtain ⟨now, _, ⟨-, rfl⟩, _, _, ⟨rfl, rfl⟩, h⟩ := h
  cases hfind : s.ledger.artifacts.find? fun r => r.key = (d, a) ∧ now < r.expiresAt with
  | none => simp only [Session.ledger_tick, hfind, Tx.throw_eq_ok] at h
  | some row =>
    simp only [Session.ledger_tick, hfind, Tx.bind_eq_ok, Tx.refuse_eq_ok, Tx.pure_eq_ok] at h
    obtain ⟨_, _, ⟨-, heq⟩, hret⟩ := h
    obtain ⟨-, rfl⟩ := Prod.mk.inj heq
    obtain ⟨-, rfl⟩ := Prod.mk.inj hret
    exact Session.Advances.tick s

theorem inputBytes_advances {d : Device} {ids : List Uuid} {n : ℕ} :
    ∀ {s : Session}, store.inputBytes d ids s = .ok (n, s') → s.Advances s' := by
  induction ids generalizing n with
  | nil =>
    intro s h
    obtain ⟨-, rfl⟩ := Prod.mk.inj (Tx.pure_eq_ok.mp h)
    exact Session.Advances.refl s
  | cons a ids ih =>
    intro s h
    simp only [inputBytes, Tx.bind_eq_ok, Tx.refuse_eq_ok, Tx.pure_eq_ok] at h
    obtain ⟨p, t, hart, _, _, ⟨-, heq⟩, _, _, ⟨-, heq'⟩, m, u, hrest, hret⟩ := h
    obtain ⟨-, rfl⟩ := Prod.mk.inj heq
    obtain ⟨-, rfl⟩ := Prod.mk.inj heq'
    obtain ⟨-, rfl⟩ := Prod.mk.inj hret
    exact (artifact_advances hart).trans (ih hrest)

theorem attachment_advances {d : Device} {a : Uuid} {found : Option (Descriptor × ByteArray)}
    (h : store.attachment d a s = .ok (found, s')) : s.Advances s' := by
  rw [attachment] at h
  cases hart : store.artifact d a s with
  | ok p =>
    rw [hart] at h
    obtain ⟨-, rfl⟩ := Prod.mk.inj (Except.ok.inj h)
    exact artifact_advances hart
  | error e =>
    rw [hart] at h
    cases e with
    | broker e =>
      obtain ⟨-, rfl⟩ := Prod.mk.inj (Except.ok.inj h)
      exact Session.Advances.tick s
    | database | other => cases h

theorem attachments_advances {d : Device} {ids : List Uuid}
    {found : Option (List (Descriptor × ByteArray))} :
    ∀ {s : Session}, store.attachments d ids s = .ok (found, s') → s.Advances s' := by
  induction ids generalizing found with
  | nil =>
    intro s h
    obtain ⟨-, rfl⟩ := Prod.mk.inj (Tx.pure_eq_ok.mp h)
    exact Session.Advances.refl s
  | cons a ids ih =>
    intro s h
    simp only [attachments, Tx.bind_eq_ok] at h
    obtain ⟨x, t, hart, h⟩ := h
    cases x with
    | none =>
      obtain ⟨-, rfl⟩ := Prod.mk.inj (Tx.pure_eq_ok.mp h)
      exact attachment_advances hart
    | some x =>
      obtain ⟨rest, hrest, -⟩ := Tx.map_eq_ok.mp h
      exact (attachment_advances hart).trans (ih hrest)

/-! ### Acceptance, dispatch, cancellation -/

theorem accept_publishes {d : Device} {request : OperationRequest} {r : Snapshot × Bool}
    (h : store.accept d request s = .ok (r, s')) :
    Publishes R P [(d, request.operationId)] s s' := by
  simp only [accept, Tx.bind_eq_ok, readLedger_eq_ok] at h
  obtain ⟨_, t, hdev, _, _, ⟨rfl, rfl⟩, h⟩ := h
  obtain ⟨-, -, -, hpub⟩ := device_eq_ok (R := R) (P := P) hdev
  refine hpub.quiet_trans ?_
  cases hprev : t.ledger.operation? (d, request.operationId) with
  | some previous =>
    simp only [hprev, Tx.bind_eq_ok, Tx.refuse_eq_ok, Tx.pure_eq_ok] at h
    obtain ⟨_, _, ⟨-, heq⟩, snap, u, hsnap, hret⟩ := h
    obtain ⟨-, rfl⟩ := Prod.mk.inj heq
    obtain ⟨-, rfl⟩ := Prod.mk.inj hret
    exact (snapshot_publishes hsnap).mono (List.nil_sublist _)
  | none =>
    simp only [hprev, Tx.bind_eq_ok, Tx.refuse_eq_ok, readLedger_eq_ok, utcnow_eq_ok,
      writeLedger_eq_ok, Tx.pure_eq_ok] at h
    obtain ⟨_, _, ⟨rfl, rfl⟩, _, _, ⟨-, heq⟩, _, _, ⟨-, heq'⟩, bytes, u, hbytes, _, _, ⟨-, heq''⟩,
      now, _, ⟨-, rfl⟩, _, _, rfl, snap, v, hevent, hret⟩ := h
    obtain ⟨-, rfl⟩ := Prod.mk.inj heq
    obtain ⟨-, rfl⟩ := Prod.mk.inj heq'
    obtain ⟨-, rfl⟩ := Prod.mk.inj heq''
    obtain ⟨-, rfl⟩ := Prod.mk.inj hret
    have hadv : t.Advances u := inputBytes_advances hbytes
    refine hadv.publishes.quiet_trans ?_
    obtain ⟨r', dev, expires, hr', hdev', rfl, rfl⟩ := event_eq_ok hevent
    have hnew : u.ledger.operation? (d, request.operationId) = none := by
      rw [hadv.1, hprev]
    have hrow : r' = acceptedRow d request (store.sha256 (canonicalBytes request.toJson)) now := by
      have hins := Table.lookup_insert_self (c := OperationRow.key)
        (r := acceptedRow d request (store.sha256 (canonicalBytes request.toJson)) now) hnew
      exact Option.some.inj (hr'.symm.trans hins)
    subst hrow
    intro hs
    refine ⟨hs.tick.tick.tick.tick, [(d, request.operationId)], List.Sublist.refl _,
      Trace.single ?_⟩
    exact Move.insert hnew hdev' (hs 1 2 (by decide))

/-- What `accept` does. An operation that is there is shown, if the request is the same; a new one
is inserted in all three tables and published, if the device may have another. -/
theorem accept_eq_ok {d : Device} {request : OperationRequest} {r : Snapshot × Bool}
    (h : store.accept d request s = .ok (r, s')) :
    (∃ previous, s.ledger.operation? (d, request.operationId) = some previous ∧
      previous.digest = store.sha256 (canonicalBytes request.toJson) ∧
      r = (render previous (s.clock 0) (s.clock 1), false) ∧
      s'.ledger = s.ledger.withDevice d) ∨
    (s.ledger.operation? (d, request.operationId) = none ∧
      pending s.ledger d < store.settings.maxPendingPerDevice ∧ request.artifactIds.Nodup ∧
      ∃ now dev t₁ t₂ expires, (s.ledger.withDevice d).device? d = some dev ∧
        r = (render (acceptedRow d request (store.sha256 (canonicalBytes request.toJson)) now)
          t₁ t₂, true) ∧
        s'.ledger = (insertOperation (s.ledger.withDevice d)
          (acceptedRow d request (store.sha256 (canonicalBytes request.toJson)) now) request
          (now + seconds store.settings.payloadTtlSeconds)).appendEvent d (dev.sequence + 1) r.1
          expires) := by
  obtain ⟨devices, hdevices⟩ := s.ledger.withDevice_eq d
  simp only [accept, Tx.bind_eq_ok, readLedger_eq_ok, device_ok] at h
  obtain ⟨_, t, hdev, _, _, ⟨rfl, rfl⟩, h⟩ := h
  obtain ⟨-, rfl⟩ := Prod.mk.inj (Except.ok.inj hdev)
  dsimp only at h
  cases hprev : (s.ledger.withDevice d).operation? (d, request.operationId) with
  | some previous =>
    simp only [hprev, Tx.bind_eq_ok, Tx.refuse_eq_ok, Tx.pure_eq_ok] at h
    obtain ⟨_, _, ⟨hdigest, heq⟩, snap, u, hsnap, hret⟩ := h
    obtain ⟨-, rfl⟩ := Prod.mk.inj heq
    obtain ⟨rfl, rfl⟩ := Prod.mk.inj hret
    obtain ⟨rfl, rfl⟩ := snapshot_eq_ok hsnap
    rw [Ledger.operation?_withDevice] at hprev
    exact .inl ⟨previous, hprev, not_not.mp hdigest, rfl, rfl⟩
  | none =>
    simp only [hprev, Tx.bind_eq_ok, Tx.refuse_eq_ok, readLedger_eq_ok, utcnow_eq_ok,
      writeLedger_eq_ok, Tx.pure_eq_ok] at h
    obtain ⟨_, _, ⟨rfl, rfl⟩, _, _, ⟨hfull, heq⟩, _, _, ⟨hnodup, heq'⟩, bytes, u, hbytes, _, _,
      ⟨-, heq''⟩, now, _, ⟨-, rfl⟩, _, _, rfl, snap, v, hevent, hret⟩ := h
    obtain ⟨-, rfl⟩ := Prod.mk.inj heq
    obtain ⟨-, rfl⟩ := Prod.mk.inj heq'
    obtain ⟨-, rfl⟩ := Prod.mk.inj heq''
    obtain ⟨rfl, rfl⟩ := Prod.mk.inj hret
    have hledger : u.ledger = s.ledger.withDevice d := (inputBytes_advances hbytes).1
    obtain ⟨r', dev, expires, hr', hdev', rfl, rfl⟩ := event_eq_ok hevent
    have hrow : r' = acceptedRow d request (store.sha256 (canonicalBytes request.toJson)) now := by
      have hins := Table.lookup_insert_self (c := OperationRow.key)
        (r := acceptedRow d request (store.sha256 (canonicalBytes request.toJson)) now)
        (hledger.symm ▸ hprev)
      exact Option.some.inj (hr'.symm.trans hins)
    subst hrow
    rw [Ledger.operation?_withDevice] at hprev
    have hpending : pending (s.ledger.withDevice d) d = pending s.ledger d := by
      rw [hdevices]
      rfl
    refine .inr ⟨hprev, by simpa [hpending] using hfull, not_not.mp hnodup, now, dev, _, _, expires,
      hledger ▸ hdev', rfl, ?_⟩
    change Ledger.appendEvent _ _ _ _ _ = _
    rw [Session.ledger_tick, hledger]

theorem get_publishes {k : Key} {snap : Snapshot} (h : BrokerStore.get k s = .ok (snap, s')) :
    Publishes R P [] s s' := by
  simp only [BrokerStore.get, Tx.bind_eq_ok, row_eq_ok] at h
  obtain ⟨r, _, ⟨-, rfl⟩, h⟩ := h
  exact snapshot_publishes h

theorem candidate_mem {L : Ledger} {o : OperationRow} (h : candidate L = some o) :
    o ∈ candidates L :=
  List.argmin_mem h

/-- `claim` publishes the candidate and nothing else. -/
theorem claim_publishes {c : Option Claim}
    (hknown : ∀ L chosen r, candidate s.ledger = some chosen →
      L.operations = s.ledger.operations → L.operation? chosen.key = some r →
      r.state = .accepted → ∀ t t' expires fresh,
        P L r (.claim t t') ∧
        P L r (.finish .failed none (some .payloadExpired) (some "dispatch payload expired")
          expires fresh t) ∧
        P L r (.finish .failed none (some .artifactExpired) (some "input artifact unavailable")
          expires fresh t))
    (h : store.claim s = .ok (c, s')) :
    Publishes R P ((candidate s.ledger).map OperationRow.key).toList s s' := by
  simp only [claim, Tx.bind_eq_ok, readLedger_eq_ok] at h
  obtain ⟨_, _, ⟨rfl, rfl⟩, h⟩ := h
  cases hcand : candidate s.ledger with
  | none =>
    simp only [hcand, Tx.pure_eq_ok] at h
    obtain ⟨-, rfl⟩ := Prod.mk.inj h
    exact Publishes.refl [] _
  | some chosen =>
    simp only [hcand, Tx.bind_eq_ok, row_eq_ok] at h
    obtain ⟨_, t, hdev, r, _, ⟨hr, rfl⟩, h⟩ := h
    obtain ⟨-, hops, -, hpub⟩ := device_eq_ok (R := R) (P := P) hdev
    refine hpub.quiet_trans ?_
    split_ifs at h with hstate
    · obtain ⟨-, rfl⟩ := Prod.mk.inj (Tx.pure_eq_ok.mp h)
      exact Publishes.refl _ _
    · rw [not_not] at hstate
      simp only [Tx.bind_eq_ok, utcnow_eq_ok, readLedger_eq_ok] at h
      obtain ⟨now, _, ⟨-, rfl⟩, _, _, ⟨rfl, rfl⟩, h⟩ := h
      refine (Publishes.tick t).quiet_trans ?_
      have hrow : ∀ u : Session, t.tick.Advances u →
        ∀ r', u.ledger.operation? chosen.key = some r' →
          r' = r ∧ u.ledger.operations = s.ledger.operations := by
        intro u hu r' hr'
        rw [hu.1, Session.ledger_tick, hr] at hr'
        exact ⟨(Option.some.inj hr').symm, by rw [hu.1, Session.ledger_tick, hops]⟩
      cases hpay : (Table.lookup PayloadRow.key t.tick.ledger.payloads chosen.key).filter
          fun p => now < p.expiresAt with
      | none =>
        simp only [hpay, Tx.bind_eq_ok, Tx.pure_eq_ok] at h
        obtain ⟨snap, u, hfin, hret⟩ := h
        obtain ⟨-, rfl⟩ := Prod.mk.inj hret
        refine finishOperation_publishes (by decide) ?_ hfin
        intro r' expires fresh now hr' _
        obtain ⟨rfl, hops'⟩ := hrow _ (Session.Advances.refl _) r' hr'
        exact (hknown _ _ _ hcand hops' hr' hstate now now expires fresh).2.1
      | some payload =>
        simp only [hpay, Tx.bind_eq_ok] at h
        obtain ⟨found, u, hatt, h⟩ := h
        have hadv : t.tick.Advances u := attachments_advances hatt
        refine hadv.publishes.quiet_trans ?_
        cases found with
        | none =>
          simp only [Tx.bind_eq_ok, Tx.pure_eq_ok] at h
          obtain ⟨snap, v, hfin, hret⟩ := h
          obtain ⟨-, rfl⟩ := Prod.mk.inj hret
          refine finishOperation_publishes (by decide) ?_ hfin
          intro r' expires fresh now hr' _
          obtain ⟨rfl, hops'⟩ := hrow _ hadv r' hr'
          exact (hknown _ _ _ hcand hops' hr' hstate now now expires fresh).2.2
        | some found =>
          simp only [Tx.bind_eq_ok, utcnow_eq_ok, writeLedger_eq_ok, Tx.pure_eq_ok] at h
          obtain ⟨claimedAt, _, ⟨-, rfl⟩, now, _, ⟨-, rfl⟩, _, _, rfl, snap, v, hevent, hret⟩ := h
          obtain ⟨-, rfl⟩ := Prod.mk.inj hret
          have hr' : u.ledger.operation? chosen.key = some r := by
            rw [hadv.1, Session.ledger_tick, hr]
          refine ((Publishes.tick u).trans (Publishes.tick _)).trans (event_publishes
            (e := .claim claimedAt now) hr' hstate ?_ hevent)
          exact (hknown _ _ _ hcand (hrow _ hadv r hr').2 hr' hstate claimedAt now none 0).1

/-- The row `_finish` leaves when it does not find the operation settled. -/
theorem finishOperation_eq_ok {k : Key} {state : OpState} {result : Option ResultBody}
    {code : Option ErrorCode} {message : Option String} {snap : Snapshot} {r : OperationRow}
    (hr : s.ledger.operation? k = some r) (hfinal : ¬ r.state.Final)
    (h : store.finishOperation k state result code message s = .ok (snap, s')) :
    ∃ expires fresh now, s'.ledger.operation? k =
      some (finishedRow r state result code message expires fresh now) := by
  simp only [finishOperation, Tx.bind_eq_ok, row_eq_ok] at h
  obtain ⟨r', _, ⟨hr', rfl⟩, h⟩ := h
  obtain rfl := Option.some.inj (hr.symm.trans hr')
  simp only [if_neg hfinal, Tx.bind_eq_ok, utcnow_eq_ok, uuid4_eq_ok, writeLedger_eq_ok] at h
  obtain ⟨stored, _, ⟨-, rfl⟩, fresh, _, ⟨-, rfl⟩, now, _, ⟨-, rfl⟩, _, _, rfl, h⟩ := h
  obtain ⟨r', dev, expires, hr', -, -, rfl⟩ := event_eq_ok h
  have hedit := Edit.operation?_ledger (.finish state result code message
    (result.map fun _ => stored + seconds store.settings.resultTtlSeconds) fresh now) k k s.ledger
  rw [if_pos rfl, hr] at hedit
  exact ⟨_, fresh, now, by rw [operation?_appendEvent]; exact hedit⟩

/-- The row `finish` leaves: a settled one as it was, and any other with what was given, or failed
because that was too large. -/
theorem finish_eq_ok {k : Key} {state : OpState} {result : Option ResultBody}
    {code : Option ErrorCode} {message : Option String} {snap : Snapshot} {r : OperationRow}
    (hr : s.ledger.operation? k = some r)
    (h : store.finish k state result code message s = .ok (snap, s')) :
    (r.state.Final → s'.ledger.operation? k = some r) ∧
    (¬ r.state.Final → ∃ expires fresh now,
      s'.ledger.operation? k =
        some (finishedRow r state result code message expires fresh now) ∧
        (∀ body ∈ result, utf8Length body.toJson.canonical ≤ store.settings.maxResultBytes) ∨
      s'.ledger.operation? k = some (finishedRow r .failed none (some .resultTooLarge)
        (some "peer result exceeds configured limit") expires fresh now) ∧
        ∃ body ∈ result, store.settings.maxResultBytes < utf8Length body.toJson.canonical) := by
  simp only [finish, Tx.bind_eq_ok, Tx.refuse_eq_ok, device_ok] at h
  obtain ⟨_, _, ⟨-, heq⟩, _, _, ⟨-, heq'⟩, _, t, hdev, h⟩ := h
  obtain ⟨-, rfl⟩ := Prod.mk.inj heq
  obtain ⟨-, rfl⟩ := Prod.mk.inj heq'
  obtain ⟨-, rfl⟩ := Prod.mk.inj (Except.ok.inj hdev)
  have hr' : (s.ledger.withDevice k.1).operation? k = some r := by
    rw [Ledger.operation?_withDevice]
    exact hr
  have settled : ∀ {state result code message},
      store.finishOperation k state result code message
        { s with ledger := s.ledger.withDevice k.1 } = .ok (snap, s') →
      r.state.Final → s'.ledger.operation? k = some r := by
    intro state result code message h hfinal
    simp only [finishOperation, Tx.bind_eq_ok, row_eq_ok] at h
    obtain ⟨r', _, ⟨hr'', rfl⟩, h⟩ := h
    obtain rfl := Option.some.inj (hr'.symm.trans hr'')
    rw [if_pos hfinal] at h
    obtain ⟨-, rfl⟩ := snapshot_eq_ok h
    exact hr'
  split_ifs at h with hlarge
  · refine ⟨settled h, fun hfinal => ?_⟩
    obtain ⟨expires, fresh, now, hrow⟩ := finishOperation_eq_ok hr' hfinal h
    exact ⟨expires, fresh, now, .inr ⟨hrow, hlarge⟩⟩
  · refine ⟨settled h, fun hfinal => ?_⟩
    obtain ⟨expires, fresh, now, hrow⟩ := finishOperation_eq_ok hr' hfinal h
    refine ⟨expires, fresh, now, .inl ⟨hrow, fun body hbody => ?_⟩⟩
    exact not_lt.mp fun hlt => hlarge ⟨body, hbody, hlt⟩

/-- What `claim` returns: nothing, and nothing is written, when there is no candidate; otherwise
the request in the payload of the candidate, which is running now, or nothing, and the candidate has
failed for want of its payload or of an artifact. -/
theorem claim_eq_ok {c : Option Claim}
    (hkeyed : Table.Keyed OperationRow.key s.ledger.operations)
    (hpayloads : ∀ p ∈ s.ledger.payloads, p.request.operationId = p.operationId)
    (h : store.claim s = .ok (c, s')) :
    (candidate s.ledger = none ∧ c = none ∧ s' = s) ∨
    ∃ chosen r', candidate s.ledger = some chosen ∧
      s'.ledger.operation? chosen.key = some r' ∧
      ((∃ x now, c = some x ∧ (x.key = chosen.key ∧
          ∃ p ∈ s.ledger.payloads, p.key = chosen.key ∧ p.request = x.request) ∧
          r' = claimedRow chosen now) ∨
        c = none ∧ r'.state = .failed ∧
          (r'.errorCode = some .payloadExpired ∨ r'.errorCode = some .artifactExpired)) := by
  simp only [claim, Tx.bind_eq_ok, readLedger_eq_ok] at h
  obtain ⟨_, _, ⟨rfl, rfl⟩, h⟩ := h
  cases hcand : candidate s.ledger with
  | none =>
    simp only [hcand, Tx.pure_eq_ok] at h
    obtain ⟨rfl, rfl⟩ := Prod.mk.inj h
    exact .inl ⟨rfl, rfl, rfl⟩
  | some chosen =>
    right
    obtain ⟨hmem, hfree⟩ := List.mem_filter.mp (candidate_mem hcand)
    have haccepted : chosen.state = .accepted := (of_decide_eq_true hfree).1
    have hlive : ¬ chosen.state.Final := by rw [haccepted]; decide
    have hlook : s.ledger.operation? chosen.key = some chosen := hkeyed.mem_iff_lookup.mp hmem
    simp only [hcand, Tx.bind_eq_ok, row_eq_ok] at h
    obtain ⟨_, t, hdev, r, _, ⟨hr, rfl⟩, h⟩ := h
    have hpays : t.ledger.payloads = s.ledger.payloads := by
      rw [device, writeLedger_eq_ok] at hdev
      subst hdev
      dsimp only
      split <;> rfl
    obtain ⟨-, hops, -, -⟩ := device_eq_ok (R := fun _ _ => True) (P := fun _ _ _ => True) hdev
    obtain rfl : chosen = r := by
      rw [Ledger.operation?, hops] at hr
      exact Option.some.inj (hlook.symm.trans hr)
    simp only [haccepted, ne_eq, not_true_eq_false, if_false, Tx.bind_eq_ok, utcnow_eq_ok,
      readLedger_eq_ok] at h
    obtain ⟨now, _, ⟨-, rfl⟩, _, _, ⟨rfl, rfl⟩, h⟩ := h
    cases hpay : (Table.lookup PayloadRow.key t.tick.ledger.payloads chosen.key).filter
        fun p => now < p.expiresAt with
    | none =>
      simp only [hpay, Tx.bind_eq_ok, Tx.pure_eq_ok] at h
      obtain ⟨snap, u, hfin, hret⟩ := h
      obtain ⟨rfl, rfl⟩ := Prod.mk.inj hret
      obtain ⟨expires, fresh, now', hrow⟩ := finishOperation_eq_ok (s := t.tick) hr hlive hfin
      exact ⟨chosen, _, rfl, hrow, .inr ⟨rfl, rfl, .inl rfl⟩⟩
    | some payload =>
      simp only [hpay, Tx.bind_eq_ok] at h
      obtain ⟨found, u, hatt, h⟩ := h
      have hadv : t.tick.Advances u := attachments_advances hatt
      have hr' : u.ledger.operation? chosen.key = some chosen := by rw [hadv.1]; exact hr
      cases found with
      | none =>
        simp only [Tx.bind_eq_ok, Tx.pure_eq_ok] at h
        obtain ⟨snap, v, hfin, hret⟩ := h
        obtain ⟨rfl, rfl⟩ := Prod.mk.inj hret
        obtain ⟨expires, fresh, now', hrow⟩ := finishOperation_eq_ok hr' hlive hfin
        exact ⟨chosen, _, rfl, hrow, .inr ⟨rfl, rfl, .inr rfl⟩⟩
      | some found =>
        simp only [Tx.bind_eq_ok, utcnow_eq_ok, writeLedger_eq_ok, Tx.pure_eq_ok] at h
        obtain ⟨claimedAt, _, ⟨-, rfl⟩, now', _, ⟨-, rfl⟩, _, _, rfl, snap, v, hevent, hret⟩ := h
        obtain ⟨rfl, rfl⟩ := Prod.mk.inj hret
        obtain ⟨r', dev, expires, hr'', -, -, rfl⟩ := event_eq_ok hevent
        have hedit := Edit.operation?_ledger (.claim claimedAt now') chosen.key chosen.key u.ledger
        rw [if_pos rfl, hr'] at hedit
        obtain ⟨hfound, -⟩ := Option.filter_eq_some_iff.mp hpay
        have hpayload : payload ∈ s.ledger.payloads := by
          rw [← hpays]
          exact Table.mem_of_lookup hfound
        have hid := hpayloads payload hpayload
        have hkey := Table.key_of_lookup hfound
        refine ⟨chosen, claimedRow chosen now', rfl, hedit,
          .inl ⟨_, now', rfl, ⟨?_, payload, hpayload, hkey, rfl⟩, rfl⟩⟩
        change (chosen.key.1, payload.request.operationId) = chosen.key
        rw [hid, ← hkey]
        rfl

theorem cancelIntent_publishes {k : Key} {r : Snapshot × Option String}
    (hknown : ∀ L r now expires fresh, L.operations = s.ledger.operations →
      L.operation? k = some r →
      (r.state = .accepted → P L r (.finish .canceled none none none expires fresh now)) ∧
      (r.Active → P L r (.cancel now)))
    (h : store.cancelIntent k s = .ok (r, s')) : Publishes R P [k] s s' := by
  simp only [cancelIntent, Tx.bind_eq_ok, row_eq_ok] at h
  obtain ⟨_, t, hdev, r', _, ⟨hr, rfl⟩, h⟩ := h
  obtain ⟨-, hops, -, hpub⟩ := device_eq_ok (R := R) (P := P) hdev
  refine hpub.quiet_trans ?_
  split_ifs at h with hacc hdone
  · simp only [Tx.bind_eq_ok, Tx.pure_eq_ok] at h
    obtain ⟨snap, u, hfin, hret⟩ := h
    obtain ⟨-, rfl⟩ := Prod.mk.inj hret
    refine finishOperation_publishes (by decide) ?_ hfin
    intro r'' expires fresh now hr'' _
    obtain rfl := Option.some.inj (hr.symm.trans hr'')
    exact (hknown _ _ now expires fresh hops hr).1 hacc
  · simp only [Tx.bind_eq_ok, Tx.pure_eq_ok] at h
    obtain ⟨snap, u, hsnap, hret⟩ := h
    obtain ⟨-, rfl⟩ := Prod.mk.inj hret
    exact (snapshot_publishes hsnap).mono (List.nil_sublist _)
  · simp only [Tx.bind_eq_ok, utcnow_eq_ok, writeLedger_eq_ok, Tx.pure_eq_ok] at h
    obtain ⟨now, _, ⟨-, rfl⟩, _, _, rfl, snap, u, hevent, hret⟩ := h
    obtain ⟨-, rfl⟩ := Prod.mk.inj hret
    rw [not_or, Bool.not_eq_true] at hdone
    have hactive : r'.Active := by
      have hcases : ∀ st : OpState, st ≠ .accepted → ¬ st.Final →
          st = .running ∨ st = .outcomeUnknown := by
        intro st h₁ h₂
        cases st <;> simp_all [OpState.Final]
      exact hcases _ hacc hdone.1
    exact (Publishes.tick t).trans (event_publishes (e := .cancel now) hr ⟨hactive, hdone.2⟩
      ((hknown _ _ now none 0 hops hr).2 hactive) hevent)

/-! ### Loops -/

/-- A session that publishes makes moves, whatever the clock does. -/
theorem moves_of_publishes {ks : List Key}
    (h : Publishes (fun _ _ => True) (fun _ _ _ => True) ks s s') :
    ∃ ks', Moves s.ledger ks' s'.ledger := by
  obtain ⟨-, ks', -, htrace⟩ := h fun _ _ _ => trivial
  exact ⟨ks', htrace⟩

/-- `recover` publishes operations that were running. -/
theorem recover_publishes
    (hknown : ∀ k ∈ (s.ledger.operations.filter fun r => r.state = .running).map OperationRow.key,
      ∀ ks L r, Moves s.ledger ks L → L.operation? k = some r → ¬ r.state.Final →
        ∀ expires fresh now,
        P L r (.finish .outcomeUnknown none (some .restartUnknown)
          (some "dispatcher restarted after dispatch was claimed; no resend") expires fresh now))
    (h : store.recover s = .ok ((), s')) :
    Publishes R P ((s.ledger.operations.filter fun r => r.state = .running).map OperationRow.key)
      s s' := by
  simp only [recover, Tx.bind_eq_ok, readLedger_eq_ok] at h
  obtain ⟨_, _, ⟨rfl, rfl⟩, h⟩ := h
  generalize (s.ledger.operations.filter fun r => r.state = .running).map OperationRow.key = keys
    at h hknown
  -- The rows still to be finished are known at every ledger the loop has moved to.
  have hloop := Tx.forM_rec
    (I := fun keys t => (∃ ks, Moves s.ledger ks t.ledger) →
      (∀ k ∈ keys, ∀ ks L r, Moves s.ledger ks L → L.operation? k = some r →
        ¬ r.state.Final →
        ∀ expires fresh now, P L r (.finish .outcomeUnknown none (some .restartUnknown)
          (some "dispatcher restarted after dispatch was claimed; no resend") expires fresh
          now)) → Publishes R P keys t s')
    (fun _ _ => Publishes.refl [] s') ?_ keys s h
  · exact hloop ⟨[], Trace.nil⟩ hknown
  · intro k keys t v hpass ih hmoves hknown
    simp only [Tx.bind_eq_ok, Tx.pure_eq_ok] at hpass
    obtain ⟨_, u, hdev, snap, w, hfin, hret⟩ := hpass
    obtain ⟨-, rfl⟩ := Prod.mk.inj hret
    obtain ⟨-, -, -, hpub⟩ := device_eq_ok (R := R) (P := P) hdev
    obtain ⟨ks, hks⟩ := hmoves
    obtain ⟨-, -, -, hany⟩ := device_eq_ok (R := fun _ _ => True) (P := fun _ _ _ => True) hdev
    obtain ⟨ks', hks'⟩ := moves_of_publishes hany
    obtain ⟨ks'', hks''⟩ := moves_of_publishes (finishOperation_publishes (by decide)
      (fun _ _ _ _ _ _ => trivial) hfin)
    have hu := hks.trans hks'
    refine hpub.trans ((finishOperation_publishes (by decide) ?_ hfin).trans
      (ih ⟨_, hu.trans hks''⟩ fun k hk => hknown k (List.mem_cons_of_mem _ hk)))
    intro r expires fresh now hr hfinal
    exact hknown k List.mem_cons_self _ _ r hu hr hfinal expires fresh now

/-- `reconcilable` returns the rows it selected and marks them as polled. -/
theorem reconcilable_publishes {rows : List OperationRow}
    (h : reconcilable s = .ok (rows, s')) :
    rows = unresolved s.ledger ∧ Publishes R P [] s s' := by
  simp only [reconcilable, Tx.bind_eq_ok, readLedger_eq_ok, Tx.pure_eq_ok] at h
  obtain ⟨_, _, ⟨rfl, rfl⟩, _, t, h, hret⟩ := h
  obtain ⟨rfl, rfl⟩ := Prod.mk.inj hret
  refine ⟨rfl, ?_⟩
  refine Tx.forM_rec (I := fun _ u => Publishes R P [] u t) (Publishes.refl [] t) ?_ _ s h
  intro k keys u v hpass ih
  simp only [Tx.bind_eq_ok, utcnow_eq_ok, writeLedger_eq_ok] at hpass
  obtain ⟨now, _, ⟨-, rfl⟩, rfl⟩ := hpass
  exact (Publishes.tick u).trans ((Publishes.move fun _ => Move.poll).trans ih)

/-- `claim_cancel` hands out a cancellation that was requested and not handed out before, and
marks it. What is selected is what is read back, since the operation identifiers are a primary
key. -/
theorem claimCancel_publishes {c : Option (Key × String)}
    (hkeyed : Table.Keyed OperationRow.key s.ledger.operations)
    (h : claimCancel s = .ok (c, s')) : Publishes R P [] s s' ∧ ∀ x, c = some x →
      ∃ r, s.ledger.operation? x.1 = some r ∧ (r.cancelRequested = true ∧
        r.cancelClaimed = false ∧ r.remoteTaskId ≠ none ∧ r.Active) ∧
        r.remoteTaskId = some x.2 ∧ s'.ledger.operation? x.1 = some (cancelClaimedRow r) := by
  simp only [claimCancel, Tx.bind_eq_ok, readLedger_eq_ok] at h
  obtain ⟨_, _, ⟨rfl, rfl⟩, h⟩ := h
  cases hmin : (s.ledger.operations.filter fun r => r.cancelRequested = true ∧
      r.cancelClaimed = false ∧ r.remoteTaskId ≠ none ∧ r.Active).argmin
      OperationRow.updatedAt with
  | none =>
    simp only [hmin, Tx.pure_eq_ok] at h
    obtain ⟨rfl, rfl⟩ := Prod.mk.inj h
    exact ⟨Publishes.refl [] _, fun _ hnone => by cases hnone⟩
  | some chosen =>
    simp only [hmin, Tx.bind_eq_ok, row_eq_ok] at h
    obtain ⟨_, t, hdev, current, _, ⟨hcur, rfl⟩, h⟩ := h
    obtain ⟨-, hops, -, hpub⟩ := device_eq_ok (R := R) (P := P) hdev
    split_ifs at h with hfinal
    · obtain ⟨rfl, rfl⟩ := Prod.mk.inj (Tx.pure_eq_ok.mp h)
      exact ⟨hpub, fun _ hnone => by cases hnone⟩
    · obtain ⟨hmem, hwanted⟩ := List.mem_filter.mp (List.argmin_mem hmin)
      have hlook := (hkeyed.mem_iff_lookup (r := chosen)).mp hmem
      have hchosen : current = chosen := by
        rw [Ledger.operation?, hops, hlook] at hcur
        exact (Option.some.inj hcur).symm
      subst hchosen
      cases hhandle : current.remoteTaskId with
      | none =>
        simp only [hhandle, Tx.pure_eq_ok] at h
        obtain ⟨rfl, rfl⟩ := Prod.mk.inj h
        exact ⟨hpub, fun _ hnone => by cases hnone⟩
      | some handle =>
        simp only [hhandle, Tx.bind_eq_ok, writeLedger_eq_ok, Tx.pure_eq_ok] at h
        obtain ⟨_, _, rfl, hret⟩ := h
        obtain ⟨rfl, rfl⟩ := Prod.mk.inj hret
        refine ⟨hpub.quiet_trans (Publishes.move fun _ =>
          Move.cancelClaim hcur (of_decide_eq_true hwanted)), fun x hx => ?_⟩
        obtain rfl := Option.some.inj hx
        refine ⟨current, hlook, of_decide_eq_true hwanted, hhandle, ?_⟩
        rw [operation?_updateOperation key_cancelClaimedRow, if_pos rfl, hcur]
        rfl

/-! ### Events, receipts, artifacts, retention -/

/-- `_purge_events` drops a prefix of the device's events, or nothing. -/
theorem purgeEvents_eq_ok {d : Device} (h : purgeEvents d s = .ok ((), s')) :
    (s'.ledger = s.ledger ∨ ∃ n, (∃ e ∈ s.ledger.events, e.deviceId = d ∧ e.sequence = n) ∧
      s'.ledger = s.ledger.dropEvents d n) ∧ Publishes R P [] s s' := by
  simp only [purgeEvents, Tx.bind_eq_ok, utcnow_eq_ok, writeLedger_eq_ok] at h
  obtain ⟨now, _, ⟨-, rfl⟩, rfl⟩ := h
  cases hmax : ((s.ledger.events.filter fun e => e.deviceId = d ∧ e.expiresAt ≤ now).map
      EventRow.sequence).max? with
  | none =>
    simp only [Session.ledger_tick, hmax]
    exact ⟨.inl trivial, Publishes.tick s⟩
  | some n =>
    simp only [Session.ledger_tick, hmax]
    have hlast : ∃ e ∈ s.ledger.events, e.deviceId = d ∧ e.sequence = n := by
      obtain ⟨e, he, hseq⟩ := List.mem_map.mp (List.max?_mem hmax)
      obtain ⟨hmem, hcond⟩ := List.mem_filter.mp he
      exact ⟨e, hmem, (of_decide_eq_true hcond).1, hseq⟩
    exact ⟨.inr ⟨n, hlast, rfl⟩,
      (Publishes.tick s).trans (Publishes.move fun _ => Move.purgeEvents hlast)⟩

theorem events_publishes {d : Device} {after limit : ℕ} {r : List (ℕ × Snapshot)}
    (h : BrokerStore.events d after limit s = .ok (r, s')) : Publishes R P [] s s' := by
  simp only [BrokerStore.events, Tx.bind_eq_ok, readLedger_eq_ok] at h
  obtain ⟨_, t, hdev, _, u, hpurge, _, _, ⟨rfl, rfl⟩, h⟩ := h
  obtain ⟨-, -, -, hpub⟩ := device_eq_ok (R := R) (P := P) hdev
  refine hpub.trans ((purgeEvents_eq_ok hpurge).2.quiet_trans ?_)
  cases hrow : u.ledger.device? d with
  | none => simp only [hrow, Tx.throw_eq_ok] at h
  | some row =>
    simp only [hrow, Tx.bind_eq_ok, Tx.refuse_eq_ok, Tx.pure_eq_ok] at h
    obtain ⟨_, _, ⟨-, heq⟩, _, _, ⟨-, heq'⟩, hret⟩ := h
    obtain ⟨-, rfl⟩ := Prod.mk.inj heq
    obtain ⟨-, rfl⟩ := Prod.mk.inj heq'
    obtain ⟨-, rfl⟩ := Prod.mk.inj hret
    exact Publishes.refl [] _

theorem receipt_publishes {k : Key} {resultId : Uuid} {status : ReceiptStatus}
    (h : BrokerStore.receipt k resultId status s = .ok ((), s')) : Publishes R P [] s s' := by
  simp only [BrokerStore.receipt, Tx.bind_eq_ok, row_eq_ok, Tx.refuse_eq_ok, utcnow_eq_ok,
    writeLedger_eq_ok] at h
  obtain ⟨_, t, hdev, r, _, ⟨hr, rfl⟩, _, _, ⟨hresult, heq⟩, now, _, ⟨-, rfl⟩, rfl⟩ := h
  obtain ⟨-, rfl⟩ := Prod.mk.inj heq
  obtain ⟨-, -, -, hpub⟩ := device_eq_ok (R := R) (P := P) hdev
  refine hpub.trans ((Publishes.tick t).quiet_trans ?_)
  by_cases hold : ∃ x ∈ t.ledger.receipts, x.key = (k, resultId, status)
  · rw [Session.ledger_tick, if_pos hold]
    exact Publishes.refl [] t.tick
  · rw [Session.ledger_tick, if_neg hold]
    refine Publishes.move fun _ => Move.receipt hr (not_not.mp hresult) ?_
    exact fun x hx hkey => hold ⟨x, hx, hkey⟩

theorem putArtifact_publishes {d : Device} {content : ByteArray} {digest contentType : String}
    {r : Descriptor} (h : store.putArtifact d content digest contentType s = .ok (r, s')) :
    Publishes R P [] s s' := by
  rw [putArtifact] at h
  split_ifs at h with hsize
  · simp only [Tx.bind_eq_ok, Tx.refuse_eq_ok, utcnow_eq_ok, writeLedger_eq_ok, readLedger_eq_ok,
      uuid4_eq_ok, Tx.pure_eq_ok] at h
    obtain ⟨_, _, ⟨-, heq⟩, _, _, ⟨-, heq'⟩, _, t, hdev, now, _, ⟨-, rfl⟩, _, _, rfl, _, _,
      ⟨rfl, rfl⟩, _, _, ⟨-, heq''⟩, id, _, ⟨-, rfl⟩, stored, _, ⟨-, rfl⟩, _, _, ⟨rfl, rfl⟩, _, _,
      ⟨-, hfresh⟩, _, _, rfl, hret⟩ := h
    obtain ⟨-, rfl⟩ := Prod.mk.inj heq
    obtain ⟨-, rfl⟩ := Prod.mk.inj heq'
    obtain ⟨-, rfl⟩ := Prod.mk.inj heq''
    obtain ⟨-, rfl⟩ := Prod.mk.inj hfresh
    obtain ⟨-, rfl⟩ := Prod.mk.inj hret
    obtain ⟨-, -, -, hpub⟩ := device_eq_ok (R := R) (P := P) hdev
    have hdrop : Publishes R P [] t.tick
        { t.tick with
          ledger :=
            { t.ledger with
              artifacts := t.ledger.artifacts.filter fun a =>
                ¬ (a.deviceId = d ∧ a.expiresAt ≤ now) } } :=
      Publishes.move fun _ => Move.dropArtifacts
    refine hpub.trans ((Publishes.tick t).trans (hdrop.quiet_trans ?_))
    exact (Publishes.draw _).trans ((Publishes.tick _).trans
      (Publishes.move fun _ => Move.putArtifact rfl))
  · exact absurd h (by simp only [Tx.throw_eq_ok, not_false_eq_true])

/-- What `put_artifact` does: it deletes the expired artifacts of the device and inserts one more
under a new key, if it fits. -/
theorem putArtifact_eq_ok {d : Device} {content : ByteArray} {digest contentType : String}
    {r : Descriptor} (h : store.putArtifact d content digest contentType s = .ok (r, s')) :
    content.size ≤ store.settings.maxArtifactBytes ∧ store.sha256 content = digest ∧
      ∃ row : ArtifactRow, ∃ now, (∃ i, s.clock i = now) ∧ row.deviceId = d ∧
        row.content = content ∧ row.size.val = content.size ∧ row.sha256 = digest ∧
        row.contentType = contentType ∧ r = row.descriptor ∧
        storedBytes { s.ledger with
          artifacts := s.ledger.artifacts.filter fun a =>
            ¬ (a.deviceId = d ∧ a.expiresAt ≤ now) } d + content.size ≤
          store.settings.deviceQuotaBytes ∧
        (∀ a ∈ s.ledger.artifacts.filter fun a => ¬ (a.deviceId = d ∧ a.expiresAt ≤ now),
          a.key ≠ row.key) ∧
        s'.ledger = { s.ledger.withDevice d with
          artifacts := (s.ledger.artifacts.filter fun a =>
            ¬ (a.deviceId = d ∧ a.expiresAt ≤ now)) ++ [row] } := by
  obtain ⟨devices, hdevices⟩ := s.ledger.withDevice_eq d
  rw [putArtifact] at h
  split_ifs at h with hsize
  · simp only [Tx.bind_eq_ok, Tx.refuse_eq_ok, utcnow_eq_ok, writeLedger_eq_ok, readLedger_eq_ok,
      uuid4_eq_ok, Tx.pure_eq_ok, device_ok] at h
    obtain ⟨_, _, ⟨hdigest, heq⟩, _, _, ⟨-, heq'⟩, _, t, hdev, now, _, ⟨hnow, rfl⟩, _, _, rfl, _, _,
      ⟨rfl, rfl⟩, _, _, ⟨hquota, heq''⟩, id, _, ⟨-, rfl⟩, stored, _, ⟨-, rfl⟩, _, _, ⟨rfl, rfl⟩,
      _, _, ⟨hfree, hfresh⟩, _, _, rfl, hret⟩ := h
    obtain ⟨-, rfl⟩ := Prod.mk.inj heq
    obtain ⟨-, rfl⟩ := Prod.mk.inj heq'
    obtain ⟨-, rfl⟩ := Prod.mk.inj (Except.ok.inj hdev)
    obtain ⟨-, rfl⟩ := Prod.mk.inj heq''
    obtain ⟨-, rfl⟩ := Prod.mk.inj hfresh
    obtain ⟨rfl, rfl⟩ := Prod.mk.inj hret
    refine ⟨hsize, not_not.mp hdigest, _, now, ⟨_, hnow⟩, rfl, rfl, rfl, rfl, rfl, rfl, ?_, ?_, ?_⟩
    · rw [not_lt] at hquota
      simpa [storedBytes, hdevices] using hquota
    · intro a ha hkey
      exact hfree ⟨a, by simpa [hdevices] using ha, hkey⟩
    · simp [hdevices]
  · exact absurd h (by simp only [Tx.throw_eq_ok, not_false_eq_true])

/-- `purge` drops prefixes of the events, then expired payloads, artifacts and results. -/
theorem purge_publishes (h : purge s = .ok ((), s')) : Publishes R P [] s s' := by
  simp only [purge, Tx.bind_eq_ok, readLedger_eq_ok, utcnow_eq_ok, writeLedger_eq_ok] at h
  obtain ⟨_, _, ⟨rfl, rfl⟩, _, t, h, now, _, ⟨hnow, rfl⟩, rfl⟩ := h
  have hloop := Tx.forM_rec (I := fun _ u => Publishes R P [] u t) (Publishes.refl [] t) ?_ _ s h
  · refine hloop.trans ?_
    intro ht
    refine ⟨ht.tick, [], List.Sublist.refl [], Trace.single (Move.purge ?_)⟩
    exact hnow ▸ ht 0 0 le_rfl
  · intro d ds u v hpass ih
    simp only [Tx.bind_eq_ok] at hpass
    obtain ⟨_, w, hdev, hpurge⟩ := hpass
    obtain ⟨-, -, -, hpub⟩ := device_eq_ok (R := R) (P := P) hdev
    exact hpub.trans ((purgeEvents_eq_ok hpurge).2.trans ih)

/-! ### Any transaction -/

/-- The keys a transaction may publish. -/
def published (L : Ledger) : Transaction → List Key
  | .accept d request => [(d, request.operationId)]
  | .claim => ((candidate L).map OperationRow.key).toList
  | .finish k _ _ _ _ | .saveHandle k _ | .cancelIntent k => [k]
  | .recover => (L.operations.filter fun r => r.state = .running).map OperationRow.key
  | .get _ | .reconcilable | .claimCancel | .events _ _ _ | .receipt _ _ _ | .putArtifact _ _ _ _
  | .artifact _ _ | .purge => []

/-- **Every transaction is a sequence of moves**, with at most one event for each key it may
publish, when nothing is asked of the edits. -/
theorem perform_publishes {x : Transaction}
    (hkeyed : Table.Keyed OperationRow.key s.ledger.operations)
    (h : store.perform x s = .ok ((), s')) :
    Publishes R (fun _ _ _ => True) (published s.ledger x) s s' := by
  have drop : ∀ {α : Type} {m : StoreTx α}, (do let _ ← m : StoreTx Unit) s = .ok ((), s') →
      ∃ a, m s = .ok (a, s') := by
    intro α m hm
    simp only [Tx.bind_eq_ok, Tx.pure_eq_ok] at hm
    obtain ⟨a, t, hm, hret⟩ := hm
    obtain ⟨-, rfl⟩ := Prod.mk.inj hret
    exact ⟨a, hm⟩
  cases x with
  | accept d request =>
    obtain ⟨a, ha⟩ := drop h
    exact accept_publishes ha
  | get k =>
    obtain ⟨a, ha⟩ := drop h
    exact get_publishes ha
  | claim =>
    obtain ⟨a, ha⟩ := drop h
    exact claim_publishes (fun _ _ _ _ _ _ _ _ _ _ _ => ⟨trivial, trivial, trivial⟩) ha
  | finish k state result code message =>
    obtain ⟨a, ha⟩ := drop h
    exact finish_publishes (fun _ _ _ _ _ _ _ _ _ => ⟨trivial, fun _ => trivial⟩) ha
  | saveHandle k handle => exact saveHandle_publishes (fun _ _ _ _ _ _ => trivial) h
  | recover => exact recover_publishes (fun _ _ _ _ _ _ _ _ _ _ _ => trivial) h
  | reconcilable =>
    obtain ⟨a, ha⟩ := drop h
    exact (reconcilable_publishes ha).2
  | cancelIntent k =>
    obtain ⟨a, ha⟩ := drop h
    exact cancelIntent_publishes (fun _ _ _ _ _ _ _ => ⟨fun _ => trivial, fun _ => trivial⟩) ha
  | claimCancel =>
    obtain ⟨a, ha⟩ := drop h
    exact (claimCancel_publishes hkeyed ha).1
  | events d after limit =>
    obtain ⟨a, ha⟩ := drop h
    exact events_publishes ha
  | receipt k resultId status => exact receipt_publishes h
  | putArtifact d content digest contentType =>
    obtain ⟨a, ha⟩ := drop h
    exact putArtifact_publishes ha
  | artifact d a =>
    obtain ⟨a, ha⟩ := drop h
    exact (artifact_advances ha).publishes
  | purge => exact purge_publishes h

end BrokerStore

end Statements

end HermesGateway.Broker
