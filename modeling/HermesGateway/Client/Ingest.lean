import HermesGateway.Client.Calls

/-!
# What escapes from ingestion

The loops that call `ingest` catch `ValueError` and the errors of the transport. A snapshot that is
refused is refused with `ValueError`, with three exceptions. A state that is a list or an object
cannot be hashed, and looking it up in `STATES` raises `TypeError`. A snapshot that is nested too
deeply cannot be written by `canonical`, nor one read back from the table, and `RecursionError` is
raised. And a sequence number of more than 64 bits cannot be bound to a parameter of SQLite, which
raises `OverflowError` at the last statement of the transaction.

`ClientStore.ingest` has cursors of any size and snapshots of any depth. Here the method is written
with all that it raises, and where it returns it does what `ClientStore.ingest` does. The values
that are compared are less deep than what was read, and comparing them raises nothing.

## Main definitions

* `ClientService.ingest` — the method
* `Orderly` — how it may end
* `Escapes` — when another exception leaves it

## Main results

* `ClientService.ingest_eq_ok` — where it returns, it is `ClientStore.ingest`
* `ingest_orderly_iff` — it ends orderly exactly when nothing escapes
-/

namespace HermesGateway.Client

open ClientStore

/-- The integers SQLite stores are below. -/
def sqliteLimit : ℤ := 2 ^ 63

/-- A Python integer is bound to a parameter. -/
def bindInteger (n : ℤ) : ClientTx Unit := Tx.refuse (n < -sqliteLimit ∨ sqliteLimit ≤ n) .overflow

/-- The sequence number is bound in the statement that moves the cursor. -/
def bindCursor : Option ℤ → ClientTx Unit
  | none => pure ()
  | some n => bindInteger n

/-- What writing, binding and reading the text of a snapshot raises. -/
structure SnapshotText where
  /-- whether `canonical(value)` returns, and does not raise `RecursionError` -/
  dumps : Json → Bool
  /-- whether `json.loads` returns, of the text that is stored -/
  loads : Json → Bool
  /-- the message of the `UnicodeEncodeError` if the text has a lone surrogate and is bound; it is a
  `ValueError` -/
  surrogate : Json → Option String

/-- Whether `accept_snapshot` stores the snapshot. -/
def Stores (previous : Option Json) (v : Json) : Prop :=
  ¬ Conflicts previous v ∧ Replaces previous v

instance (previous : Option Json) (v : Json) : Decidable (Stores previous v) :=
  inferInstanceAs (Decidable (_ ∧ _))

/-- The snapshot that is stored cannot be read, or the one that comes has to be written and cannot
be. -/
def SnapshotText.Deep (text : SnapshotText) (previous : Option Json) (v : Json) : Prop :=
  previous.any (fun p => !text.loads p) = true ∨ Stores previous v ∧ text.dumps v = false

instance (text : SnapshotText) (previous : Option Json) (v : Json) :
    Decidable (text.Deep previous v) :=
  inferInstanceAs (Decidable (_ ∨ _))

/-- The text is bound in the statement that stores the snapshot. -/
def SnapshotText.bind (text : SnapshotText) (previous : Option Json) (v : Json) : ClientTx Unit :=
  match text.surrogate v with
  | none => pure ()
  | some message => Tx.refuse (Stores previous v) (.value message)

/-- A snapshot is merged into a row that is known and unexpired. -/
def ClientService.applySnapshot (store : ClientStore) (text : SnapshotText) (flow : Uuid)
    (v : Json) : Option ClientRow → ClientTx Unit
  | none => pure ()
  | some r =>
    if r.expired = true then pure ()
    else do
      Tx.refuse (flow ≠ r.flowId) (.value "broker flow identity disagrees")
      Tx.refuse (text.Deep r.snapshot v) .recursion
      text.bind r.snapshot v
      store.mergeSnapshot r v

/-- `accept_snapshot`. The statement that moves the cursor is the last of the transaction. -/
def ClientService.acceptSnapshot (store : ClientStore) (text : SnapshotText) (v : Json)
    (seq : Option ℤ) : ClientTx Unit := do
  let (op, flow) ← checkSnapshot v seq
  let T ← readTables
  ClientService.applySnapshot store text flow v (T.operation? op)
  bindCursor seq
  moveCursor seq

/-- `ingest`. -/
def ClientService.ingest (store : ClientStore) (text : SnapshotText) (v : Json) (seq : Option ℤ)
    (expected : Option Uuid) : ClientTx Unit := do
  Tx.refuse (v.isObj = false ∨ expected.any fun op => member "operation_id" v ≠ .str op.text)
    (.value "broker returned a different operation identity")
  ClientService.acceptSnapshot store text v seq

/-- It commits the merge with its receipt and the cursor, or raises `ValueError` and commits
nothing. -/
def Orderly (store : ClientStore) (v : Json) (seq : Option ℤ) (T : Tables) :
    Except Failure (Unit × Session) → Prop
  | .ok (_, s') => ∃ op flow T', Passes v seq (op, flow) ∧ Merges store v op flow T T' ∧
      s'.tables = T'.reach seq
  | .error e => ∃ message, e = .value message

/-- The identities a snapshot names are valid, and the operation is the expected one. -/
structure Identified (v : Json) (expected : Option Uuid) : Prop where
  isObj : v.isObj = true
  expected : ∀ op, expected = some op → member "operation_id" v = .str op.text
  operationId : ∃ op, operationOf v = some op
  flowId : ∃ flow, flowIdOf v = some flow

/-- A list or a `dict`. -/
def Unhashable (v : Json) : Prop := (∃ xs, v = .arr xs) ∨ ∃ kvs, v = .obj kvs

/-- The row a snapshot is merged into. -/
def Tables.Live (T : Tables) (op : Uuid) (r : ClientRow) : Prop :=
  T.operation? op = some r ∧ r.expired = false

/-- An exception that is no `ValueError` leaves `ingest`. -/
def Escapes (text : SnapshotText) (T : Tables) (v : Json) (seq : Option ℤ)
    (expected : Option Uuid) : Prop :=
  Identified v expected ∧ (Unhashable (member "state" v) ∨
    ∃ op flow, Passes v seq (op, flow) ∧ T.Agrees op flow ∧
      ((∃ r, T.Live op r ∧ text.Deep r.snapshot v) ∨
        (∃ n, seq = some n ∧ sqliteLimit ≤ n) ∧
          ∀ r, T.Live op r → Stores r.snapshot v → text.surrogate v = none))

section

variable {store : ClientStore} {text : SnapshotText} {s s' : Session} {v : Json} {seq : Option ℤ}
  {expected : Option Uuid} {e : Failure} {op flow : Uuid}

/-- A `ValueError`. -/
def IsValue (e : Failure) : Prop := ∃ message, e = .value message

theorem native_eq_error {name : String} (h : native v name s = .error e) : IsValue e := by
  unfold native at h
  cases hstr : v.str? with
  | none =>
    rw [hstr] at h
    exact ⟨_, (Tx.throw_eq_error.mp h).symm⟩
  | some text =>
    simp only [hstr] at h
    cases hu : nativeUuid text with
    | none =>
      rw [hu] at h
      exact ⟨_, (Tx.throw_eq_error.mp h).symm⟩
    | some u =>
      rw [hu] at h
      exact (Tx.pure_eq_error.mp h).elim

theorem refuse_eq_value {c : Prop} [Decidable c] {message : String}
    (h : (Tx.refuse c (.value message) : ClientTx Unit) s = .error e) : IsValue e :=
  ⟨message, (Tx.refuse_eq_error.mp h).2.symm⟩

theorem checkResultId_eq_error (h : checkResultId v s = .error e) : IsValue e := by
  unfold checkResultId at h
  split_ifs at h
  · exact (Tx.pure_eq_error.mp h).elim
  · rcases Tx.bind_eq_error.mp h with h | ⟨_, _, -, h⟩
    · exact native_eq_error h
    · exact (Tx.pure_eq_error.mp h).elim

/-- The checks raise `ValueError`, or the state cannot be hashed. -/
theorem checkSnapshot_eq_error (h : checkSnapshot v seq s = .error e) :
    IsValue e ∨ (∃ op, operationOf v = some op) ∧ (∃ flow, flowIdOf v = some flow) ∧
      Unhashable (member "state" v) := by
  rcases Tx.bind_eq_error.mp h with h | ⟨op, _, hop, h⟩
  · exact .inl (native_eq_error h)
  rcases Tx.bind_eq_error.mp h with h | ⟨flow, _, hflow, h⟩
  · exact .inl (native_eq_error h)
  cases hstate : stateOf v with
  | none =>
    simp only [hstate] at h
    cases hmem : member "state" v with
    | arr xs =>
      exact .inr ⟨⟨op, (native_eq_ok.mp hop).1⟩, ⟨flow, (native_eq_ok.mp hflow).1⟩, .inl ⟨xs, rfl⟩⟩
    | obj kvs =>
      exact .inr ⟨⟨op, (native_eq_ok.mp hop).1⟩, ⟨flow, (native_eq_ok.mp hflow).1⟩, .inr ⟨kvs, rfl⟩⟩
    | null | bool | int | float | str =>
      simp only [hmem] at h
      exact .inl ⟨_, (Tx.throw_eq_error.mp h).symm⟩
  | some state =>
    simp only [hstate] at h
    refine .inl ?_
    rcases Tx.bind_eq_error.mp h with h | ⟨_, _, -, h⟩
    · exact refuse_eq_value h
    rcases Tx.bind_eq_error.mp h with h | ⟨_, _, -, h⟩
    · exact checkResultId_eq_error h
    rcases Tx.bind_eq_error.mp h with h | ⟨_, _, -, h⟩
    · exact refuse_eq_value h
    rcases Tx.bind_eq_error.mp h with h | ⟨_, _, -, h⟩
    · exact refuse_eq_value h
    · exact (Tx.pure_eq_error.mp h).elim

theorem storeSnapshot_ne_error {r : ClientRow} : store.storeSnapshot r v s ≠ .error e := by
  intro h
  obtain ⟨_, _, -, h⟩ := Tx.error_of_bind (fun _ h => Tx.modifyGet_eq_error.mp h) h
  obtain ⟨_, _, -, h⟩ := Tx.error_of_bind (fun _ h => Tx.modifyGet_eq_error.mp h) h
  obtain ⟨_, _, -, h⟩ := Tx.error_of_bind (fun _ h => Tx.modifyGet_eq_error.mp h) h
  exact Tx.modifyGet_eq_error.mp h

theorem mergeSnapshot_ne_error {r : ClientRow} : store.mergeSnapshot r v s ≠ .error e := by
  unfold mergeSnapshot
  split_ifs
  · exact fun h => Tx.modifyGet_eq_error.mp h
  · exact storeSnapshot_ne_error
  · exact fun h => Tx.pure_eq_error.mp h

theorem SnapshotText.bind_eq_error {previous : Option Json}
    (h : text.bind previous v s = .error e) : IsValue e := by
  unfold SnapshotText.bind at h
  cases hmessage : text.surrogate v with
  | none =>
    rw [hmessage] at h
    exact (Tx.pure_eq_error.mp h).elim
  | some message =>
    rw [hmessage] at h
    exact refuse_eq_value h

theorem SnapshotText.bind_eq_ok {previous : Option Json} {x : Unit × Session} :
    text.bind previous v s = .ok x ↔
      (Stores previous v → text.surrogate v = none) ∧ ((), s) = x := by
  unfold SnapshotText.bind
  cases text.surrogate v with
  | none => simp [Tx.pure_eq_ok]
  | some message => simp [Tx.refuse_eq_ok]

/-- Merging raises `ValueError`, or the snapshot that is stored or the one that comes is too
deep. -/
theorem ClientService.applySnapshot_eq_error
    (h : ClientService.applySnapshot store text flow v (s.tables.operation? op) s = .error e) :
    IsValue e ∨ s.tables.Agrees op flow ∧ ∃ r, s.tables.Live op r ∧ text.Deep r.snapshot v := by
  cases hr : s.tables.operation? op with
  | none =>
    rw [hr] at h
    exact (Tx.pure_eq_error.mp h).elim
  | some r =>
    simp only [hr, ClientService.applySnapshot] at h
    split_ifs at h with hexpired
    · exact (Tx.pure_eq_error.mp h).elim
    rcases Tx.bind_eq_error.mp h with h | ⟨_, _, hpass, h⟩
    · exact .inl (refuse_eq_value h)
    obtain ⟨hflow, heq⟩ := Tx.refuse_eq_ok.mp hpass
    obtain ⟨-, rfl⟩ := Prod.mk.inj heq
    rcases Tx.bind_eq_error.mp h with h | ⟨_, _, -, h⟩
    · refine .inr ⟨fun r' hr' _ => ?_, r, ⟨hr, by simpa using hexpired⟩,
        (Tx.refuse_eq_error.mp h).1⟩
      rw [← Option.some.inj (hr.symm.trans hr')]
      exact not_not.mp hflow
    rcases Tx.bind_eq_error.mp h with h | ⟨_, _, -, h⟩
    · exact .inl (SnapshotText.bind_eq_error h)
    · exact absurd h mergeSnapshot_ne_error

/-- A merge that returns is the store's, and neither snapshot is too deep. -/
theorem ClientService.applySnapshot_eq_ok {x : Unit × Session}
    (h : ClientService.applySnapshot store text flow v (s.tables.operation? op) s = .ok x) :
    store.applySnapshot flow v (s.tables.operation? op) s = .ok x ∧
      ∀ r, s.tables.Live op r →
        ¬ text.Deep r.snapshot v ∧ (Stores r.snapshot v → text.surrogate v = none) := by
  cases hr : s.tables.operation? op with
  | none =>
    rw [hr] at h
    refine ⟨h, fun r ⟨hr', _⟩ => ?_⟩
    cases hr.symm.trans hr'
  | some r =>
    simp only [hr, ClientService.applySnapshot, ClientStore.applySnapshot] at h ⊢
    split_ifs at h ⊢ with hexpired
    · refine ⟨h, fun r' ⟨hr', hlive⟩ => ?_⟩
      rw [← Option.some.inj (hr.symm.trans hr'), hexpired] at hlive
      cases hlive
    · simp only [Tx.bind_eq_ok, Tx.refuse_eq_ok, SnapshotText.bind_eq_ok] at h
      obtain ⟨_, _, ⟨hflow, heq⟩, _, _, ⟨hdeep, heq'⟩, _, _, ⟨hbound, heq''⟩, h⟩ := h
      obtain ⟨-, rfl⟩ := Prod.mk.inj heq
      obtain ⟨-, rfl⟩ := Prod.mk.inj heq'
      obtain ⟨-, rfl⟩ := Prod.mk.inj heq''
      refine ⟨(Tx.bind_of_ok (Tx.refuse_of_not hflow)).trans h, fun r' ⟨hr', _⟩ => ?_⟩
      rw [← Option.some.inj (hr.symm.trans hr')]
      exact ⟨hdeep, hbound⟩

/-- A merge that nothing hinders returns. -/
theorem ClientService.applySnapshot_of_agrees (hagrees : s.tables.Agrees op flow)
    (hfine : ∀ r, s.tables.Live op r →
      ¬ text.Deep r.snapshot v ∧ (Stores r.snapshot v → text.surrogate v = none)) :
    ∃ s', ClientService.applySnapshot store text flow v (s.tables.operation? op) s =
      .ok ((), s') := by
  suffices h : ∀ e, ClientService.applySnapshot store text flow v (s.tables.operation? op) s ≠
      .error e by
    obtain ⟨⟨⟩, s', h⟩ := Tx.exists_ok h
    exact ⟨s', h⟩
  intro e h
  cases hr : s.tables.operation? op with
  | none =>
    rw [hr] at h
    exact Tx.pure_eq_error.mp h
  | some r =>
    simp only [hr, ClientService.applySnapshot] at h
    split_ifs at h with hexpired
    · exact Tx.pure_eq_error.mp h
    have hlive : r.expired = false := by simpa using hexpired
    obtain ⟨hdeep, hbound⟩ := hfine r ⟨hr, hlive⟩
    rw [Tx.bind_of_ok (Tx.refuse_of_not (not_not.mpr (hagrees r hr hlive))),
      Tx.bind_of_ok (Tx.refuse_of_not hdeep),
      Tx.bind_of_ok (SnapshotText.bind_eq_ok.mpr ⟨hbound, rfl⟩)] at h
    exact mergeSnapshot_ne_error h

/-- The cursor's number does not fit. -/
theorem bindCursor_eq_error (hpos : ∀ n, seq = some n → 0 ≤ n) :
    bindCursor seq s = .error e ↔ (∃ n, seq = some n ∧ sqliteLimit ≤ n) ∧ e = .overflow := by
  cases seq with
  | none => simp [bindCursor, Tx.pure_eq_error]
  | some n =>
    have hn := hpos n rfl
    have hlimit : (0 : ℤ) < sqliteLimit := by decide
    have hrange : (n < -sqliteLimit ∨ sqliteLimit ≤ n) ↔ sqliteLimit ≤ n := by omega
    rw [bindCursor, bindInteger, Tx.refuse_eq_error, hrange]
    simp [eq_comm]

theorem bindCursor_eq_ok {x : Unit × Session} (h : bindCursor seq s = .ok x) : ((), s) = x := by
  cases seq with
  | none => exact Tx.pure_eq_ok.mp h
  | some n => exact (Tx.refuse_eq_ok.mp h).2

theorem moveCursor_ne_error : moveCursor seq s ≠ .error e := by
  cases seq with
  | none => exact fun h => Tx.pure_eq_error.mp h
  | some n => exact fun h => Tx.modifyGet_eq_error.mp h

/-- `accept_snapshot` raises `ValueError`, or it is one of the three. -/
theorem ClientService.acceptSnapshot_eq_error
    (h : ClientService.acceptSnapshot store text v seq s = .error e) :
    IsValue e ∨ (∃ op, operationOf v = some op) ∧ (∃ flow, flowIdOf v = some flow) ∧
      (Unhashable (member "state" v) ∨
        ∃ op flow, Passes v seq (op, flow) ∧ s.tables.Agrees op flow ∧
          ((∃ r, s.tables.Live op r ∧ text.Deep r.snapshot v) ∨
            (∃ n, seq = some n ∧ sqliteLimit ≤ n) ∧
              ∀ r, s.tables.Live op r → Stores r.snapshot v → text.surrogate v = none)) := by
  rcases Tx.bind_eq_error.mp h with h | ⟨⟨op, flow⟩, s₁, hcheck, hrest⟩
  · exact (checkSnapshot_eq_error h).imp_right fun ⟨hop, hflow, hstate⟩ =>
      ⟨hop, hflow, .inl hstate⟩
  obtain ⟨hpasses, rfl⟩ := checkSnapshot_eq_ok.mp hcheck
  obtain ⟨T, s₂, hread, hrest⟩ := Tx.error_of_bind (fun _ h => Tx.modifyGet_eq_error.mp h) hrest
  obtain ⟨rfl, rfl⟩ := readTables_eq_ok.mp hread
  rcases Tx.bind_eq_error.mp hrest with h | ⟨_, _, happly, h⟩
  · refine (ClientService.applySnapshot_eq_error h).imp_right fun ⟨hagrees, hdeep⟩ =>
      ⟨⟨op, hpasses.operationId⟩, ⟨flow, hpasses.flowId⟩, .inr ⟨op, flow, hpasses, hagrees, ?_⟩⟩
    exact .inl hdeep
  obtain ⟨hstore, hfine⟩ := ClientService.applySnapshot_eq_ok happly
  rcases Tx.bind_eq_error.mp h with h | ⟨_, _, -, h⟩
  · refine .inr ⟨⟨op, hpasses.operationId⟩, ⟨flow, hpasses.flowId⟩,
      .inr ⟨op, flow, hpasses, (merges_of_applySnapshot hstore).agrees, .inr ⟨?_, ?_⟩⟩⟩
    · exact ((bindCursor_eq_error hpasses.cursor).mp h).1
    · exact fun r hr => (hfine r hr).2
  · exact absurd h moveCursor_ne_error

/-- Where `accept_snapshot` returns, it has done what the store does. -/
theorem ClientService.acceptSnapshot_eq_ok {x : Unit × Session}
    (h : ClientService.acceptSnapshot store text v seq s = .ok x) :
    store.acceptSnapshot v seq s = .ok x := by
  simp only [ClientService.acceptSnapshot, Tx.bind_eq_ok, readTables_eq_ok] at h
  obtain ⟨⟨op, flow⟩, _, hcheck, T, _, ⟨rfl, rfl⟩, _, t, happly, _, _, hbind, hmove⟩ := h
  obtain ⟨-, rfl⟩ := Prod.mk.inj (bindCursor_eq_ok hbind)
  obtain ⟨-, rfl⟩ := checkSnapshot_eq_ok.mp hcheck
  rw [ClientStore.acceptSnapshot, Tx.bind_of_ok hcheck]
  dsimp only
  rw [Tx.bind_of_ok (readTables_eq_ok.mpr ⟨rfl, rfl⟩),
    Tx.bind_of_ok (ClientService.applySnapshot_eq_ok happly).1]
  exact hmove

/-- **Where `ingest` returns**, it has done what the store does. -/
theorem ClientService.ingest_eq_ok {x : Unit × Session}
    (h : ClientService.ingest store text v seq expected s = .ok x) :
    store.ingest v seq expected s = .ok x := by
  simp only [ClientService.ingest, Tx.bind_eq_ok] at h
  obtain ⟨_, _, hpass, h⟩ := h
  obtain ⟨-, heq⟩ := Tx.refuse_eq_ok.mp hpass
  obtain ⟨-, rfl⟩ := Prod.mk.inj heq
  exact (Tx.bind_of_ok hpass).trans (ClientService.acceptSnapshot_eq_ok h)

/-- A state that cannot be hashed raises `TypeError`. -/
theorem ClientService.acceptSnapshot_of_unhashable (hop : operationOf v = some op)
    (hflow : flowIdOf v = some flow) (h : Unhashable (member "state" v)) :
    ClientService.acceptSnapshot store text v seq s = .error .type := by
  have hcheck : checkSnapshot v seq s = .error .type := by
    rw [checkSnapshot, Tx.bind_of_ok (native_eq_ok.mpr ⟨hop, rfl⟩),
      Tx.bind_of_ok (native_eq_ok.mpr ⟨hflow, rfl⟩)]
    obtain ⟨xs, hmem⟩ | ⟨kvs, hmem⟩ := h
    all_goals
      have hstate : stateOf v = none := by
        rw [stateOf, hmem]
        rfl
      simp only [hstate, hmem]
      rfl
  exact Tx.bind_eq_error.mpr (.inl hcheck)

/-- A snapshot that is too deep raises `RecursionError`. -/
theorem ClientService.acceptSnapshot_of_deep {r : ClientRow} (hpasses : Passes v seq (op, flow))
    (hagrees : s.tables.Agrees op flow) (hr : s.tables.Live op r) (hdeep : text.Deep r.snapshot v) :
    ClientService.acceptSnapshot store text v seq s = .error .recursion := by
  obtain ⟨hrow, hlive⟩ := hr
  have happly : ClientService.applySnapshot store text flow v (some r) s = .error .recursion := by
    rw [ClientService.applySnapshot, if_neg (by simp [hlive]),
      Tx.bind_of_ok (Tx.refuse_of_not (not_not.mpr (hagrees r hrow hlive)))]
    exact Tx.bind_eq_error.mpr (.inl (Tx.refuse_eq_error.mpr ⟨hdeep, rfl⟩))
  rw [ClientService.acceptSnapshot, Tx.bind_of_ok (checkSnapshot_eq_ok.mpr ⟨hpasses, rfl⟩)]
  dsimp only
  rw [Tx.bind_of_ok (readTables_eq_ok.mpr ⟨rfl, rfl⟩), hrow]
  exact Tx.bind_eq_error.mpr (.inl happly)

/-- A sequence number that does not fit raises an exception, `OverflowError` if the statement is
reached. -/
theorem ClientService.acceptSnapshot_of_overflow (hpasses : Passes v seq (op, flow))
    (hagrees : s.tables.Agrees op flow) (hseq : ∃ n, seq = some n ∧ sqliteLimit ≤ n)
    (hfine : ∀ r, s.tables.Live op r →
      ¬ text.Deep r.snapshot v ∧ (Stores r.snapshot v → text.surrogate v = none)) :
    ClientService.acceptSnapshot store text v seq s = .error .overflow := by
  obtain ⟨t, happly⟩ := @ClientService.applySnapshot_of_agrees store text s v op flow hagrees hfine
  rw [ClientService.acceptSnapshot, Tx.bind_of_ok (checkSnapshot_eq_ok.mpr ⟨hpasses, rfl⟩)]
  dsimp only
  rw [Tx.bind_of_ok (readTables_eq_ok.mpr ⟨rfl, rfl⟩), Tx.bind_of_ok happly]
  exact Tx.bind_eq_error.mpr (.inl ((bindCursor_eq_error hpasses.cursor).mpr ⟨hseq, rfl⟩))

/-- What escapes is no `ValueError`. -/
theorem ClientService.acceptSnapshot_of_escapes (h : Escapes text s.tables v seq expected) :
    ∃ e, ClientService.acceptSnapshot store text v seq s = .error e ∧ ¬ IsValue e := by
  obtain ⟨hid, hstate | ⟨op, flow, hpasses, hagrees, hcause⟩⟩ := h
  · obtain ⟨op, hop⟩ := hid.operationId
    obtain ⟨flow, hflow⟩ := hid.flowId
    exact ⟨_, ClientService.acceptSnapshot_of_unhashable hop hflow hstate, by rintro ⟨_, ⟨⟩⟩⟩
  by_cases hdeep : ∃ r, s.tables.Live op r ∧ text.Deep r.snapshot v
  · obtain ⟨r, hr, hdeep⟩ := hdeep
    exact ⟨_, ClientService.acceptSnapshot_of_deep hpasses hagrees hr hdeep, by rintro ⟨_, ⟨⟩⟩⟩
  · obtain ⟨hseq, hbound⟩ := hcause.resolve_left hdeep
    have hfine := fun r hr => And.intro (fun h => hdeep ⟨r, hr, h⟩) (hbound r hr)
    exact ⟨_, ClientService.acceptSnapshot_of_overflow hpasses hagrees hseq hfine,
      by rintro ⟨_, ⟨⟩⟩⟩

/-- What is no object, or of another operation, is refused. -/
theorem identity_refuse (hobj : v.isObj = true)
    (hexpected : ∀ op, expected = some op → member "operation_id" v = .str op.text) :
    ¬ (v.isObj = false ∨
      expected.any (fun op => member "operation_id" v ≠ .str op.text) = true) := by
  rintro (hnot | hother)
  · rw [hobj] at hnot
    cases hnot
  · obtain ⟨op, hop, hne⟩ := (Option.any_eq_true _ _).mp hother
    exact of_decide_eq_true hne (hexpected op hop)

/-- **What escapes from `ingest`**: an exception that is no `ValueError` leaves it exactly if the
condition holds. -/
theorem ClientService.ingest_escapes_iff :
    (∃ e, ClientService.ingest store text v seq expected s = .error e ∧ ¬ IsValue e) ↔
      Escapes text s.tables v seq expected := by
  constructor
  · rintro ⟨e, h, hnot⟩
    rcases Tx.bind_eq_error.mp h with h | ⟨_, _, hpass, h⟩
    · exact absurd (refuse_eq_value h) hnot
    obtain ⟨hfine, heq⟩ := Tx.refuse_eq_ok.mp hpass
    obtain ⟨-, rfl⟩ := Prod.mk.inj heq
    obtain ⟨hobj, hother⟩ := not_or.mp hfine
    obtain ⟨hop, hflow, hcause⟩ := (ClientService.acceptSnapshot_eq_error h).resolve_left hnot
    refine ⟨⟨by simpa using hobj, fun op hexpected => ?_, hop, hflow⟩, hcause⟩
    by_contra hne
    exact hother (by simpa [hexpected] using hne)
  · intro h
    obtain ⟨e, herror, hnot⟩ :=
      @ClientService.acceptSnapshot_of_escapes store text s v seq expected h
    refine ⟨e, ?_, hnot⟩
    exact (Tx.bind_of_ok (Tx.refuse_of_not (identity_refuse h.1.isObj h.1.expected))).trans herror

/-- **When ingestion ends orderly**: exactly when nothing escapes. That is, when the identities are
refused; or the state can be hashed, and what is read and written of a snapshot that would be taken
is not too deep, and its sequence number fits. -/
theorem ingest_orderly_iff :
    Orderly store v seq s.tables (ClientService.ingest store text v seq expected s) ↔
      ¬ Escapes text s.tables v seq expected := by
  rw [← @ClientService.ingest_escapes_iff store]
  cases h : ClientService.ingest store text v seq expected s with
  | error e =>
    constructor
    · rintro hvalue ⟨e', heq, hnot⟩
      exact hnot (Except.error.inj heq ▸ hvalue)
    · intro hnone
      by_contra hnot
      exact hnone ⟨e, rfl, hnot⟩
  | ok x =>
    obtain ⟨⟨⟩, s'⟩ := x
    have hmerges := acceptSnapshot_merges (ingest_eq_ok (ClientService.ingest_eq_ok h)).2
    constructor
    · rintro - ⟨e, heq, -⟩
      cases heq
    · intro _
      obtain ⟨op, flow, hpasses, T, hmerges, htables⟩ := hmerges
      exact ⟨op, flow, T, hpasses, hmerges, htables⟩

end

/-- A snapshot whose state is a list. -/
def listStateSnapshot (op flow : Uuid) : Json :=
  .obj [("operation_id", .str op.text), ("flow_id", .str flow.text), ("state", .arr [])]

/-- `TypeError` leaves `ingest`. -/
theorem list_state_escapes :
    ¬ ∀ store text v seq expected s,
      Orderly store v seq s.tables (ClientService.ingest store text v seq expected s) := by
  intro h
  let store : ClientStore := ⟨ClientSettings.default, fun _ => ""⟩
  let text : SnapshotText := ⟨fun _ => true, fun _ => true, fun _ => none⟩
  let s : Session := ⟨Tables.empty, fun _ => 0, fun _ => 0⟩
  have hop : operationOf (listStateSnapshot 1 2) = some 1 := by decide +kernel
  have hflow : flowIdOf (listStateSnapshot 1 2) = some 2 := by decide +kernel
  have herror : ClientService.ingest store text (listStateSnapshot 1 2) none none s =
      .error .type :=
    (Tx.bind_of_ok (Tx.refuse_of_not (identity_refuse rfl (by rintro _ ⟨⟩)))).trans
      (ClientService.acceptSnapshot_of_unhashable hop hflow (.inl ⟨[], rfl⟩))
  have horderly := h store text (listStateSnapshot 1 2) none none s
  rw [herror] at horderly
  obtain ⟨message, hvalue⟩ := horderly
  cases hvalue

end HermesGateway.Client
