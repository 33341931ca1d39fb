import HermesGateway.Broker.Transactions
import HermesGateway.Library.Numbered
import Mathlib.Data.List.Infix

/-!
# The replay log

The events of a device are numbered one by one as they are appended, and what retention deletes
is always a prefix of them. So the numbers still stored are those above the floor, up to the last
one given out, whatever the clock did and however the transactions of different devices were
interleaved; and a reader that polls with the last number it has seen is handed the next events
or told that there is a gap.

## Main definitions

* `StoreStep`, `Reachable` — runs of the store: any transactions, at any clock readings
* `Log` — the invariant: a device's events are its numbered history without a prefix
* `Sse` — the stream of one reader: repeated polls, with anything committed in between

## Main results

* `Log.of_trace` — the invariant holds in every reachable ledger
* `events_eq_ok`, `events_gap`, `events_ahead` — what `events` answers
* `replay_log_gap_free` — the log has no gaps, and neither does what a reader is sent
-/

namespace HermesGateway.Broker

open BrokerStore

/-! ### Runs of the store -/

/-- One committed transaction, whatever the clock and `uuid4` return. -/
def StoreStep (store : BrokerStore) (L L' : Ledger) : Prop :=
  ∃ x clock uuids s', store.perform x ⟨L, clock, uuids⟩ = .ok ((), s') ∧ s'.ledger = L'

/-- Any number of committed transactions. -/
abbrev StoreRun (store : BrokerStore) : Ledger → Ledger → Prop :=
  Relation.ReflTransGen (StoreStep store)

/-- A ledger the store can reach from empty tables. -/
abbrev Reachable (store : BrokerStore) (L : Ledger) : Prop := StoreRun store Ledger.empty L

/-- Transactions one after the other are a run. -/
theorem storeRun_of_forM {store : BrokerStore} {xs : List Transaction} {s s' : Session}
    (h : xs.forM store.perform s = .ok ((), s')) : StoreRun store s.ledger s'.ledger := by
  refine Tx.forM_rec (I := fun _ t => StoreRun store t.ledger s'.ledger)
    Relation.ReflTransGen.refl ?_ xs s h
  intro x xs t u hx hrest
  exact Relation.ReflTransGen.head ⟨x, t.clock, t.uuids, u, hx, rfl⟩ hrest

/-- What a call leaves the ledger as: a failed transaction is rolled back. -/
def ledgerAfter {α : Type} (L : Ledger) : Except Failure (α × Session) → Ledger
  | .ok (_, s) => s.ledger
  | .error _ => L

section

variable {R : Time → Time → Prop} {P : Ledger → OperationRow → Edit → Prop} {L L' : Ledger}
  {ks : List Key}

/-- The operation identifiers stay a primary key. -/
theorem Move.keyed (h : Move R P L ks L') (hkeyed : Table.Keyed OperationRow.key L.operations) :
    Table.Keyed OperationRow.key L'.operations := by
  cases h with
  | device | purgeEvents | receipt | dropArtifacts | putArtifact => exact hkeyed
  | insert hnew => exact Table.keyed_insert hkeyed hnew
  | @edit k e =>
    change Table.Keyed OperationRow.key (e.ledger k L).operations
    rw [Edit.operations_ledger]
    exact Table.keyed_modify (fun r => e.key_row r) hkeyed
  | poll => exact Table.keyed_modify (key_polledRow _) hkeyed
  | cancelClaim => exact Table.keyed_modify key_cancelClaimedRow hkeyed
  | purge => exact Table.keyed_map (key_purgedRow _) hkeyed

theorem keyed_of_trace (h : Trace (Move R P) L ks L')
    (hkeyed : Table.Keyed OperationRow.key L.operations) :
    Table.Keyed OperationRow.key L'.operations :=
  h.invariant (I := fun L => Table.Keyed OperationRow.key L.operations)
    (fun hI hmove => hmove.keyed hI) hkeyed

theorem keyed_empty : Table.Keyed OperationRow.key Ledger.empty.operations := List.nodup_nil

/-- What dispatch finds: a payload is that of its operation, and an accepted operation has no
result and is pending in the outbox. -/
structure Queued (L : Ledger) : Prop where
  payload : ∀ p ∈ L.payloads, p.request.operationId = p.operationId
  pending : ∀ r ∈ L.operations, r.state = .accepted →
    r.result = none ∧ ∃ b ∈ L.outbox, b.key = r.key ∧ b.state = .pending

theorem queued_empty : Queued Ledger.empty :=
  ⟨fun _ h => absurd h (List.not_mem_nil), fun _ h => absurd h (List.not_mem_nil)⟩

/-- An update of one operation that leaves no row of it accepted. -/
theorem Queued.settle {k : Key} {f : OperationRow → OperationRow} {g : OutboxRow → OutboxRow}
    (h : Queued L) (hf : ∀ r, (f r).state ≠ .accepted) (r : OperationRow)
    (hr : r ∈ Table.modify OperationRow.key L.operations k f) (haccepted : r.state = .accepted) :
    r.result = none ∧
      ∃ b ∈ Table.modify OutboxRow.key L.outbox k g, b.key = r.key ∧ b.state = .pending := by
  rcases Table.mem_modify.mp hr with ⟨r', -, -, rfl⟩ | ⟨hmem, hkey⟩
  · exact absurd haccepted (hf r')
  · obtain ⟨hblank, b, hb, hbkey, hbstate⟩ := h.pending r hmem haccepted
    exact ⟨hblank, b, Table.mem_modify.mpr (.inr ⟨hb, hbkey ▸ hkey⟩), hbkey, hbstate⟩

/-- An update of operations that keeps their states and sets no result. -/
theorem Queued.map {f : OperationRow → OperationRow} (h : Queued L) (hkey : ∀ r, (f r).key = r.key)
    (hstate : ∀ r, (f r).state = r.state) (hblank : ∀ r, r.result = none → (f r).result = none)
    (r : OperationRow) (hr : r ∈ L.operations.map f) (haccepted : r.state = .accepted) :
    r.result = none ∧ ∃ b ∈ L.outbox, b.key = r.key ∧ b.state = .pending := by
  obtain ⟨r', hr', rfl⟩ := List.mem_map.mp hr
  rw [hkey]
  obtain ⟨hnone, hpending⟩ := h.pending r' hr' (by rw [← hstate]; exact haccepted)
  exact ⟨hblank r' hnone, hpending⟩

theorem Queued.modify {k : Key} {f : OperationRow → OperationRow} (h : Queued L)
    (hkey : ∀ r, (f r).key = r.key) (hstate : ∀ r, (f r).state = r.state)
    (hblank : ∀ r, (f r).result = r.result) : Queued (L.updateOperation k f) := by
  refine ⟨h.payload, h.map (fun r => ?_) (fun r => ?_) fun r hnone => ?_⟩ <;> split_ifs
  · exact hkey r
  · rfl
  · exact hstate r
  · rfl
  · rw [hblank, hnone]
  · exact hnone

/-- One move keeps the tables in agreement. -/
theorem Move.queued (hmove : Move R P L ks L') (h : Queued L) : Queued L' := by
  cases hmove with
  | device | purgeEvents | receipt | dropArtifacts | putArtifact => exact ⟨h.payload, h.pending⟩
  | @insert d request digest now =>
    refine ⟨?_, ?_⟩
    · intro p hp
      rcases List.mem_append.mp hp with hp | hp
      · exact h.payload p hp
      · rw [List.mem_singleton.mp hp]
        rfl
    · intro r hr haccepted
      rcases List.mem_append.mp hr with hr | hr
      · obtain ⟨hblank, b, hb, hkey, hstate⟩ := h.pending r hr haccepted
        exact ⟨hblank, b, List.mem_append_left _ hb, hkey, hstate⟩
      · rw [List.mem_singleton.mp hr]
        exact ⟨rfl, _, List.mem_append_right _ (List.mem_singleton_self _), rfl, rfl⟩
  | @edit k e r dev expires t₁ t₂ hrow hdev hallowed =>
    cases e with
    | claim => exact ⟨h.payload, h.settle fun _ => by simp [claimedRow]⟩
    | finish state =>
      have hterminal : state ≠ .accepted := by
        rintro rfl
        exact absurd hallowed.2.1 (by decide)
      exact ⟨fun p hp => h.payload p (List.mem_of_mem_filter hp), h.settle fun _ => hterminal⟩
    | handle handle now =>
      have hkept := h.modify (k := k) (f := fun r => handledRow r handle now) (fun _ => rfl)
        (fun _ => rfl) fun _ => rfl
      exact ⟨hkept.payload, hkept.pending⟩
    | cancel now =>
      have hkept := h.modify (k := k) (f := fun r => cancelingRow r now) (fun _ => rfl)
        (fun _ => rfl) fun _ => rfl
      exact ⟨hkept.payload, hkept.pending⟩
  | poll => exact h.modify (key_polledRow _) (fun _ => rfl) fun _ => rfl
  | cancelClaim => exact h.modify key_cancelClaimedRow (fun _ => rfl) fun _ => rfl
  | purge =>
    refine ⟨fun p hp => h.payload p (List.mem_of_mem_filter hp),
      h.map (key_purgedRow _) (state_purgedRow _) fun r hnone => ?_⟩
    unfold purgedRow
    split
    · split_ifs
      · rfl
      · exact hnone
    · exact hnone

theorem queued_of_trace (hmoves : Trace (Move R P) L ks L') (h : Queued L) : Queued L' :=
  hmoves.invariant (fun hI hmove => hmove.queued hI) h

/-- A run of the store makes moves. -/
theorem moves_of_run {store : BrokerStore} (h : StoreRun store L L')
    (hkeyed : Table.Keyed OperationRow.key L.operations) : ∃ ks, Moves L ks L' := by
  induction h with
  | refl => exact ⟨[], Trace.nil⟩
  | tail _ hstep ih =>
    obtain ⟨ks, hmoves⟩ := ih
    obtain ⟨x, clock, uuids, s', hx, rfl⟩ := hstep
    obtain ⟨ks', hmoves'⟩ :=
      moves_of_publishes (perform_publishes (keyed_of_trace hmoves hkeyed) hx)
    exact ⟨ks ++ ks', hmoves.trans hmoves'⟩

end

/-! ### The invariant -/

/-- The last number given out to a device. -/
def Ledger.sequence (L : Ledger) (d : Device) : ℕ := ((L.device? d).map DeviceRow.sequence).getD 0

/-- The number up to which the events of a device are gone. -/
def Ledger.floor (L : Ledger) (d : Device) : ℕ := ((L.device? d).map DeviceRow.floor).getD 0

/-- The events ever appended for a device. -/
def Ledger.historyOf (L : Ledger) (d : Device) : List EventRow :=
  L.history.filter fun e => e.deviceId = d

/-- The stored events of a device. -/
def Ledger.eventsOf (L : Ledger) (d : Device) : List EventRow :=
  L.events.filter fun e => e.deviceId = d

/-- The replay log: the history of a device is numbered from one to its sequence, and what is
stored is that history without the first `floor` events. -/
structure Log (L : Ledger) : Prop where
  numbered : ∀ d, Numbered EventRow.sequence 1 (L.historyOf d)
  length : ∀ d, (L.historyOf d).length = L.sequence d
  retained : ∀ d, L.eventsOf d = (L.historyOf d).drop (L.floor d)
  floor_le : ∀ d, L.floor d ≤ L.sequence d

theorem Log.empty : Log Ledger.empty where
  numbered _ := Numbered.nil
  length _ := rfl
  retained _ := rfl
  floor_le _ := le_rfl

section

variable {L L' : Ledger} {d : Device} {dev : DeviceRow}

/-- The log depends on the devices, the events and the history alone. -/
theorem Log.congr (h : Log L) (hdev : L'.devices = L.devices) (hev : L'.events = L.events)
    (hhist : L'.history = L.history) : Log L' := by
  obtain ⟨numbered, length, retained, floor_le⟩ := h
  constructor <;> intro d' <;>
    simp only [Ledger.historyOf, Ledger.eventsOf, Ledger.sequence, Ledger.floor, Ledger.device?,
      hdev, hev, hhist]
  · exact numbered d'
  · exact length d'
  · exact retained d'
  · exact floor_le d'

theorem sequence_of_device? (h : L.device? d = some dev) : L.sequence d = dev.sequence := by
  simp [Ledger.sequence, h]

theorem floor_of_device? (h : L.device? d = some dev) : L.floor d = dev.floor := by
  simp [Ledger.floor, h]

/-- A device row with zeros changes no number. -/
theorem Log.device (hnew : L.device? d = none) (h : Log L) :
    Log { L with devices := L.devices ++ [⟨d, 0, 0⟩] } := by
  have hrows : ∀ d', ({ L with devices := L.devices ++ [⟨d, 0, 0⟩] } : Ledger).sequence d' =
      L.sequence d' ∧ ({ L with devices := L.devices ++ [⟨d, 0, 0⟩] } : Ledger).floor d' =
      L.floor d' := by
    intro d'
    simp only [Ledger.sequence, Ledger.floor, Ledger.device?]
    by_cases hd : d = d'
    · subst hd
      rw [Table.lookup_insert_self (c := DeviceRow.deviceId) (r := ⟨d, 0, 0⟩) hnew]
      rw [Ledger.device?] at hnew
      simp [hnew]
    · rw [Table.lookup_insert_of_ne (c := DeviceRow.deviceId) (r := ⟨d, 0, 0⟩) hd]
      exact ⟨rfl, rfl⟩
  constructor <;> intro d'
  · exact h.numbered d'
  · rw [(hrows d').1]
    exact h.length d'
  · rw [(hrows d').2]
    exact h.retained d'
  · rw [(hrows d').1, (hrows d').2]
    exact h.floor_le d'

/-- Appending an event with the next number. -/
theorem Log.appendEvent (h : Log L) (hdev : L.device? d = some dev) (snap : Snapshot)
    (expires : Time) : Log (L.appendEvent d (dev.sequence + 1) snap expires) := by
  have hseq := sequence_of_device? hdev
  have hrow : ∀ d', (L.appendEvent d (dev.sequence + 1) snap expires).device? d' =
      if d' = d then (L.device? d').map fun r => { r with sequence := dev.sequence + 1 }
      else L.device? d' := by
    intro d'
    exact Table.lookup_modify (c := DeviceRow.deviceId)
      (f := fun r => { r with sequence := dev.sequence + 1 }) (fun _ => rfl) L.devices d d'
  have hfloor : ∀ d', (L.appendEvent d (dev.sequence + 1) snap expires).floor d' = L.floor d' := by
    intro d'
    rw [Ledger.floor, hrow, Ledger.floor]
    split_ifs
    · cases L.device? d' <;> rfl
    · rfl
  have hsequence : ∀ d', (L.appendEvent d (dev.sequence + 1) snap expires).sequence d' =
      if d' = d then L.sequence d' + 1 else L.sequence d' := by
    intro d'
    rw [Ledger.sequence, hrow]
    split_ifs with hd
    · subst hd
      rw [hseq, hdev]
      rfl
    · rfl
  have hhist : ∀ d', (L.appendEvent d (dev.sequence + 1) snap expires).historyOf d' =
      L.historyOf d' ++ if d' = d then [⟨d, dev.sequence + 1, snap, expires⟩] else [] := by
    intro d'
    simp only [Ledger.historyOf, Ledger.appendEvent, List.filter_append]
    by_cases hd : d' = d <;> simp [hd, eq_comm]
  have hev : ∀ d', (L.appendEvent d (dev.sequence + 1) snap expires).eventsOf d' =
      L.eventsOf d' ++ if d' = d then [⟨d, dev.sequence + 1, snap, expires⟩] else [] := by
    intro d'
    simp only [Ledger.eventsOf, Ledger.appendEvent, List.filter_append]
    by_cases hd : d' = d <;> simp [hd, eq_comm]
  constructor <;> intro d'
  · rw [hhist]
    refine (h.numbered d').append ?_
    split_ifs with hd
    · subst hd
      rw [h.length, hseq]
      exact Numbered.cons_iff.mpr ⟨Nat.add_comm _ _, Numbered.nil⟩
    · exact Numbered.nil
  · rw [hhist, hsequence, List.length_append, h.length]
    split_ifs <;> simp
  · rw [hev, hhist, hfloor, List.drop_append_of_le_length
      (by rw [h.length]; exact h.floor_le d'), h.retained]
  · rw [hfloor, hsequence]
    have := h.floor_le d'
    split_ifs <;> omega

/-- Dropping the events up to a stored one raises the floor to its number. -/
theorem Log.dropEvents {n : ℕ} (hlast : ∃ e ∈ L.events, e.deviceId = d ∧ e.sequence = n)
    (h : Log L) : Log (L.dropEvents d n) ∧ L.floor d < n ∧ n ≤ L.sequence d := by
  have hbounds : L.floor d < n ∧ n ≤ L.sequence d := by
    obtain ⟨e, he, hed, hen⟩ := hlast
    have hmem : e ∈ L.eventsOf d := List.mem_filter.mpr ⟨he, by simpa using hed⟩
    rw [h.retained] at hmem
    have hnum := (h.numbered d).drop (L.floor d)
    have hrange := (hnum.mem_iff (n := n)).mp ⟨e, hmem, hen⟩
    rw [List.length_drop, h.length] at hrange
    have := h.floor_le d
    omega
  refine ⟨?_, hbounds⟩
  have hrow : ∀ d', (L.dropEvents d n).device? d' =
      if d' = d then (L.device? d').map fun r => { r with floor := max r.floor n }
      else L.device? d' := by
    intro d'
    exact Table.lookup_modify (c := DeviceRow.deviceId)
      (f := fun r => { r with floor := max r.floor n }) (fun _ => rfl) L.devices d d'
  have hsequence : ∀ d', (L.dropEvents d n).sequence d' = L.sequence d' := by
    intro d'
    rw [Ledger.sequence, hrow, Ledger.sequence]
    split_ifs
    · cases L.device? d' <;> rfl
    · rfl
  have hfloor : ∀ d', (L.dropEvents d n).floor d' = if d' = d then n else L.floor d' := by
    intro d'
    rw [Ledger.floor, hrow]
    split_ifs with hd
    · subst hd
      cases hdev : L.device? d' with
      | none =>
        rw [Ledger.sequence, hdev] at hbounds
        exact absurd hbounds (by simp; omega)
      | some dev =>
        rw [floor_of_device? hdev] at hbounds
        simpa using hbounds.1.le
    · rfl
  constructor <;> intro d'
  · exact h.numbered d'
  · rw [hsequence]
    exact h.length d'
  · rw [hfloor]
    by_cases hd : d' = d
    · subst hd
      have hfilter : (L.dropEvents d' n).eventsOf d' =
          (L.eventsOf d').filter fun e => 1 + n ≤ e.sequence := by
        simp only [Ledger.eventsOf, Ledger.dropEvents, List.filter_filter]
        refine List.filter_congr ?_
        intro e _
        by_cases he : e.deviceId = d'
        · simp [he, Nat.one_add_le_iff]
        · simp [he]
      rw [hfilter, h.retained, if_pos rfl, (h.numbered d').filter_drop hbounds.1.le]
      rfl
    · have hfilter : (L.dropEvents d n).eventsOf d' = L.eventsOf d' := by
        simp only [Ledger.eventsOf, Ledger.dropEvents, List.filter_filter]
        refine List.filter_congr ?_
        intro e _
        by_cases he : e.deviceId = d'
        · simp [he, hd]
        · simp [he]
      rw [hfilter, if_neg hd]
      exact h.retained d'
  · rw [hsequence, hfloor]
    split_ifs with hd
    · subst hd
      exact hbounds.2
    · exact h.floor_le d'

/-- One move keeps the log. -/
theorem Move.log {R : Time → Time → Prop} {P : Ledger → OperationRow → Edit → Prop} {ks : List Key}
    (hmove : Move R P L ks L') (h : Log L) : Log L' := by
  cases hmove with
  | device hnew => exact h.device hnew
  | @insert d request digest now payloadExpires expires t₁ t₂ dev hnew hdev =>
    have hlog : Log (insertOperation L (acceptedRow d request digest now) request payloadExpires) :=
      h.congr rfl rfl rfl
    exact hlog.appendEvent hdev _ _
  | @edit k e r dev expires t₁ t₂ hrow hdev =>
    have hlog := h.congr (e.devices_ledger k L) (e.events_ledger k L) (e.history_ledger k L)
    exact hlog.appendEvent (by rw [← hdev]; simp [Ledger.device?]) _ _
  | purgeEvents hlast => exact (h.dropEvents hlast).1
  | poll | cancelClaim | receipt | dropArtifacts | putArtifact | purge => exact h.congr rfl rfl rfl

/-- The log of every ledger that moves lead to. -/
theorem Log.of_trace {R : Time → Time → Prop} {P : Ledger → OperationRow → Edit → Prop}
    {ks : List Key}
    (hmoves : Trace (Move R P) L ks L') (h : Log L) : Log L' :=
  hmoves.invariant (fun hlog hmove => hmove.log hlog) h

theorem Log.of_reachable {store : BrokerStore} (h : Reachable store L) : Log L := by
  obtain ⟨ks, hmoves⟩ := moves_of_run h keyed_empty
  exact Log.of_trace hmoves Log.empty

end

/-! ### What `events` answers -/

/-- The part of `events` before it looks at the cursor. -/
def lockAndPurge (d : Device) : StoreTx Unit := do
  device d
  purgeEvents d

/-- The number and the snapshot of an event. -/
def EventRow.frame (e : EventRow) : ℕ × Snapshot := (e.sequence, e.snapshot)

section

variable {s : Session} {d : Device} {L L' : Ledger}

theorem Log.map_sequence (h : Log L) (d : Device) :
    (L.eventsOf d).map EventRow.sequence =
      List.range' (L.floor d + 1) (L.sequence d - L.floor d) := by
  have hnum := (h.numbered d).drop (L.floor d)
  rw [Numbered, List.length_drop, h.length, Nat.add_comm 1] at hnum
  rw [h.retained, hnum]

theorem Log.mem_events (h : Log L) {e : EventRow} (he : e ∈ (L.historyOf d).drop (L.floor d)) :
    e ∈ L.events ∧ e.deviceId = d := by
  rw [← h.retained] at he
  obtain ⟨hmem, hd⟩ := List.mem_filter.mp he
  exact ⟨hmem, of_decide_eq_true hd⟩

/-- Locking and purging succeeds, and leaves a log with the same history. -/
theorem exists_lockAndPurge (hlog : Log s.ledger) (d : Device) :
    ∃ s₁, lockAndPurge d s = .ok ((), s₁) ∧ Log s₁.ledger ∧
      s₁.ledger.historyOf d = s.ledger.historyOf d ∧ ∃ dev, s₁.ledger.device? d = some dev := by
  obtain ⟨t, ht⟩ : ∃ t, device d s = .ok ((), t) := ⟨_, rfl⟩
  obtain ⟨u, hu⟩ : ∃ u, purgeEvents d t = .ok ((), u) := ⟨_, rfl⟩
  obtain ⟨⟨dev, hdev⟩, -, -, hpub⟩ := device_eq_ok (R := fun _ _ => True)
    (P := fun _ _ _ => True) ht
  obtain ⟨ks, hmoves⟩ := moves_of_publishes hpub
  have hlog' : Log t.ledger := Log.of_trace hmoves hlog
  have hhist : t.ledger.history = s.ledger.history := by
    rw [device, writeLedger_eq_ok] at ht
    subst ht
    dsimp only
    cases s.ledger.device? d <;> rfl
  refine ⟨u, ?_, ?_⟩
  · rw [lockAndPurge, Tx.bind_of_ok ht, hu]
  · obtain ⟨hcases, -⟩ := purgeEvents_eq_ok (R := fun _ _ => True) (P := fun _ _ _ => True) hu
    rcases hcases with heq | ⟨n, hlast, heq⟩
    · rw [heq]
      exact ⟨hlog', by rw [Ledger.historyOf, hhist, Ledger.historyOf], dev, hdev⟩
    · rw [heq]
      refine ⟨(hlog'.dropEvents hlast).1, ?_, { dev with floor := max dev.floor n }, ?_⟩
      · simp only [Ledger.historyOf, Ledger.dropEvents, hhist]
      · have hlook := Table.lookup_modify_self (c := DeviceRow.deviceId)
          (f := fun r => { r with floor := max r.floor n }) (fun _ => rfl) t.ledger.devices d
        rw [Ledger.device?] at hdev
        rw [hdev] at hlook
        exact hlook

/-- The refusal of a cursor below the floor. -/
def retentionGap (sequence : ℕ) : Failure :=
  .broker ⟨.retentionGap, "event cursor expired; recover known operations with GET", 410,
    some sequence⟩

/-- The refusal of a cursor above the sequence. -/
def invalidCursor : Failure :=
  brokerError .invalidCursor "event cursor is ahead of this device" 409

/-- What `events` answers, in terms of the ledger its own purge leaves. -/
theorem events_eq {s₁ : Session} (after limit : ℕ) (hpurge : lockAndPurge d s = .ok ((), s₁))
    (hlog : Log s₁.ledger) (hdev : ∃ dev, s₁.ledger.device? d = some dev) :
    BrokerStore.events d after limit s =
      if after < s₁.ledger.floor d then .error (retentionGap (s₁.ledger.sequence d))
      else if s₁.ledger.sequence d < after then .error invalidCursor
      else .ok ((((s₁.ledger.historyOf d).drop after).take limit).map EventRow.frame, s₁) := by
  obtain ⟨dev, hdev⟩ := hdev
  rw [lockAndPurge] at hpurge
  obtain ⟨_, t, ht, hu⟩ := Tx.bind_eq_ok.mp hpurge
  rw [BrokerStore.events, Tx.bind_of_ok ht, Tx.bind_of_ok hu,
    Tx.bind_of_ok (readLedger_eq_ok.mpr ⟨rfl, rfl⟩)]
  simp only [hdev]
  rw [sequence_of_device? hdev, floor_of_device? hdev]
  have hrefuse :
    ∀ (c : Prop) [Decidable c] (e : Failure) (f : Unit → StoreTx (List (ℕ × Snapshot))),
      (Tx.refuse c e >>= f) s₁ = if c then .error e else f () s₁ := by
    intro c _ e f
    unfold Tx.refuse
    split_ifs <;> rfl
  rw [hrefuse, hrefuse]
  have hrows : ¬ after < dev.floor →
      ((s₁.ledger.events.filter fun e => e.deviceId = d ∧ after < e.sequence).insertionSort
        fun a b => a.sequence ≤ b.sequence) = (s₁.ledger.historyOf d).drop after := by
    intro hfloor
    rw [← floor_of_device? hdev] at hfloor
    have hfilter : (s₁.ledger.events.filter fun e => e.deviceId = d ∧ after < e.sequence) =
        (s₁.ledger.eventsOf d).filter fun e => 1 + after ≤ e.sequence := by
      rw [Ledger.eventsOf, List.filter_filter]
      refine List.filter_congr ?_
      intro e _
      simp [Bool.and_comm, Nat.one_add_le_iff]
    rw [hfilter, hlog.retained, (hlog.numbered d).filter_drop (Nat.le_of_not_lt hfloor),
      ((hlog.numbered d).drop after).insertionSort]
  by_cases hfloor : after < dev.floor
  · rw [if_pos hfloor, if_pos hfloor]
    rfl
  · rw [if_neg hfloor, if_neg hfloor, hrows hfloor]
    split_ifs
    · rfl
    · rfl

/-- A history only grows. -/
theorem Move.history_extends {R : Time → Time → Prop} {P : Ledger → OperationRow → Edit → Prop}
    {ks : List Key} (h : Move R P L ks L') : L.history <+: L'.history := by
  cases h with
  | insert => exact List.prefix_append _ _
  | edit =>
    simp only [Ledger.appendEvent, Edit.history_ledger]
    exact List.prefix_append _ _
  | device | poll | cancelClaim | purgeEvents | receipt | dropArtifacts | putArtifact | purge =>
    exact List.prefix_refl _

theorem history_extends_of_trace {R : Time → Time → Prop} {P : Ledger → OperationRow → Edit → Prop}
    {ks : List Key} (h : Trace (Move R P) L ks L') : L.history <+: L'.history :=
  h.invariant (I := fun M => L.history <+: M.history)
    (fun hI hmove => hI.trans hmove.history_extends) (List.prefix_refl _)

end

/-! ### A polling reader -/

/-- The stream of one reader that connected with cursor `after`: what it has yielded, the rest of
the batch it is yielding, its cursor and the ledger. Any transaction may commit between two
yields; the next poll is made when the batch is used up. A refusal ends the stream, so no state
follows it. -/
inductive Sse (store : BrokerStore) (d : Device) (after : ℕ) (L₀ : Ledger) :
    List (ℕ × Snapshot) → List (ℕ × Snapshot) → ℕ → Ledger → Prop
  | connect {clock : ℕ → Time} {uuids : ℕ → Uuid} {batch : List (ℕ × Snapshot)} {s : Session}
      (h : BrokerStore.events d after 100 ⟨L₀, clock, uuids⟩ = .ok (batch, s)) :
      Sse store d after L₀ [] batch after s.ledger
  | between {emitted batch : List (ℕ × Snapshot)} {cursor : ℕ} {L L' : Ledger}
      (h : Sse store d after L₀ emitted batch cursor L) (hstep : StoreStep store L L') :
      Sse store d after L₀ emitted batch cursor L'
  | yield {emitted batch : List (ℕ × Snapshot)} {frame : ℕ × Snapshot} {cursor : ℕ} {L : Ledger}
      (h : Sse store d after L₀ emitted (frame :: batch) cursor L) :
      Sse store d after L₀ (emitted ++ [frame]) batch frame.1 L
  | poll {emitted batch : List (ℕ × Snapshot)} {cursor : ℕ} {L : Ledger} {clock : ℕ → Time}
      {uuids : ℕ → Uuid} {s : Session} (h : Sse store d after L₀ emitted [] cursor L)
      (hpoll : BrokerStore.events d cursor 100 ⟨L, clock, uuids⟩ = .ok (batch, s)) :
      Sse store d after L₀ emitted batch cursor s.ledger

section

variable {store : BrokerStore} {d : Device} {after cursor : ℕ} {L₀ L L' : Ledger}
  {emitted batch : List (ℕ × Snapshot)}

/-- The frames of a device's history after a cursor. -/
def Ledger.framesAfter (L : Ledger) (d : Device) (after : ℕ) : List (ℕ × Snapshot) :=
  ((L.historyOf d).drop after).map EventRow.frame

/-- A batch that `events` returns is the next frames of the history. -/
theorem batch_of_events {s : Session} {clock : ℕ → Time} {uuids : ℕ → Uuid} {limit : ℕ}
    (hlog : Log L) (h : BrokerStore.events d after limit ⟨L, clock, uuids⟩ = .ok (batch, s)) :
    Log s.ledger ∧ batch = (s.ledger.framesAfter d after).take limit ∧
      s.ledger.historyOf d = L.historyOf d := by
  obtain ⟨s₁, hpurge, hlog₁, hhist, hdev⟩ :=
    exists_lockAndPurge (s := ⟨L, clock, uuids⟩) hlog d
  rw [events_eq after limit hpurge hlog₁ hdev] at h
  split_ifs at h
  obtain ⟨rfl, rfl⟩ := Prod.mk.inj (Except.ok.inj h)
  exact ⟨hlog₁, by rw [Ledger.framesAfter, List.map_take], hhist⟩

theorem framesAfter_extends (h : L.history <+: L'.history) (d : Device) (after : ℕ) :
    L.framesAfter d after <+: L'.framesAfter d after := by
  have hdevice : L.historyOf d <+: L'.historyOf d := h.filter _
  have hdrop : (L.historyOf d).drop after <+: (L'.historyOf d).drop after := hdevice.drop after
  exact hdrop.map _

theorem Log.numbered_framesAfter (h : Log L) (d : Device) (after : ℕ) :
    Numbered Prod.fst (after + 1) (L.framesAfter d after) := by
  have hnum := (h.numbered d).drop after
  rw [Numbered, Nat.add_comm 1] at hnum
  rw [Numbered, Ledger.framesAfter, List.map_map, List.length_map]
  exact hnum

theorem StoreStep.moves (hstep : StoreStep store L L')
    (hkeyed : Table.Keyed OperationRow.key L.operations) : ∃ ks, Moves L ks L' :=
  moves_of_run (Relation.ReflTransGen.single hstep) hkeyed

/-- What holds of a stream at every point: the ledger has a log, what has been yielded and what is
about to be are the first frames after the cursor it connected with, and its cursor is the number
of the last frame it yielded. -/
theorem Sse.invariant (hlog : Log L₀) (hkeyed : Table.Keyed OperationRow.key L₀.operations)
    (h : Sse store d after L₀ emitted batch cursor L) :
    Log L ∧ Table.Keyed OperationRow.key L.operations ∧
      emitted ++ batch <+: L.framesAfter d after ∧ cursor = after + emitted.length := by
  induction h with
  | @connect clock uuids batch s h =>
    obtain ⟨hlog', hbatch, -⟩ := batch_of_events hlog h
    refine ⟨hlog', ?_, ?_, rfl⟩
    · obtain ⟨ks, hmoves⟩ := moves_of_publishes (events_publishes h)
      exact keyed_of_trace hmoves hkeyed
    · rw [hbatch]
      exact List.take_prefix _ _
  | between _ hstep ih =>
    obtain ⟨hlog', hkeyed', hframes, hcursor⟩ := ih
    obtain ⟨ks, hmoves⟩ := hstep.moves hkeyed'
    exact ⟨Log.of_trace hmoves hlog', keyed_of_trace hmoves hkeyed',
      hframes.trans (framesAfter_extends (history_extends_of_trace hmoves) d after), hcursor⟩
  | @yield emitted batch frame cursor L _ ih =>
    obtain ⟨hlog', hkeyed', hframes, hcursor⟩ := ih
    refine ⟨hlog', hkeyed', by simpa using hframes, ?_⟩
    have hpos : (L.framesAfter d after)[emitted.length]? = some frame := by
      obtain ⟨rest, hrest⟩ := hframes
      rw [← hrest]
      simp
    rw [(hlog'.numbered_framesAfter d after).eq_of_getElem? hpos, List.length_append,
      List.length_singleton]
    omega
  | @poll emitted batch cursor L clock uuids s _ hpoll ih =>
    obtain ⟨hlog', hkeyed', hframes, hcursor⟩ := ih
    obtain ⟨hlog'', hbatch, hhist⟩ := batch_of_events hlog' hpoll
    obtain ⟨ks, hmoves⟩ := moves_of_publishes (events_publishes hpoll)
    refine ⟨hlog'', keyed_of_trace hmoves hkeyed', ?_, hcursor⟩
    rw [List.append_nil] at hframes
    obtain ⟨rest, hrest⟩ : emitted <+: s.ledger.framesAfter d after :=
      hframes.trans (framesAfter_extends (history_extends_of_trace hmoves) d after)
    have hnext : s.ledger.framesAfter d cursor = rest := by
      rw [Ledger.framesAfter, hcursor, ← List.drop_drop, List.map_drop, ← Ledger.framesAfter,
        ← hrest, List.drop_left]
    rw [hbatch, hnext, ← hrest]
    exact (List.prefix_append_right_inj emitted).mpr (List.take_prefix 100 rest)

end

/-- **The replay log has no gaps.** In every reachable ledger the stored events of a device are
numbered by exactly the integers above its floor, up to its sequence, each once and in order.
With the floor taken after the call's own purge, `events` returns the first `limit` events after
a cursor between floor and sequence, refuses a cursor below the floor with the sequence to resume
after, and one above the sequence as invalid; a refused call leaves the ledger as it was. And a
reader that polls with the last number it yielded yields a contiguous run of the device's
history, whatever is committed between its polls. -/
theorem replay_log_gap_free (store : BrokerStore) {L : Ledger} (hreach : Reachable store L)
    (d : Device) :
    ((L.eventsOf d).map EventRow.sequence =
        List.range' (L.floor d + 1) (L.sequence d - L.floor d) ∧
      ∀ n, (∃ e ∈ L.events, e.deviceId = d ∧ e.sequence = n) ↔
        L.floor d < n ∧ n ≤ L.sequence d) ∧
    (∀ after limit clock uuids, ∃ s, lockAndPurge d ⟨L, clock, uuids⟩ = .ok ((), s) ∧
      (s.ledger.floor d ≤ after → after ≤ s.ledger.sequence d → ∃ batch,
        BrokerStore.events d after limit ⟨L, clock, uuids⟩ = .ok (batch, s) ∧
        batch.map Prod.fst =
          (List.range' (after + 1) (s.ledger.sequence d - after)).take limit ∧
        ∀ frame ∈ batch, ∃ e ∈ s.ledger.events, e.deviceId = d ∧ e.frame = frame) ∧
      (after < s.ledger.floor d →
        BrokerStore.events d after limit ⟨L, clock, uuids⟩ =
          .error (retentionGap (s.ledger.sequence d)) ∧
        ledgerAfter L (BrokerStore.events d after limit ⟨L, clock, uuids⟩) = L) ∧
      (s.ledger.sequence d < after →
        BrokerStore.events d after limit ⟨L, clock, uuids⟩ = .error invalidCursor)) ∧
    (∀ after emitted batch cursor L', Sse store d after L emitted batch cursor L' →
      emitted.map Prod.fst = List.range' (after + 1) emitted.length ∧
      ∀ frame ∈ emitted, ∃ e ∈ L'.history, e.deviceId = d ∧ e.frame = frame) := by
  have hlog : Log L := Log.of_reachable hreach
  obtain ⟨ks, hmoves⟩ := moves_of_run hreach keyed_empty
  have hkeyed := keyed_of_trace hmoves keyed_empty
  refine ⟨⟨hlog.map_sequence d, ?_⟩, ?_, ?_⟩
  · intro n
    have hmem : (∃ e ∈ L.events, e.deviceId = d ∧ e.sequence = n) ↔
        n ∈ (L.eventsOf d).map EventRow.sequence := by
      simp [Ledger.eventsOf, and_assoc]
    rw [hmem, hlog.map_sequence, List.mem_range'_1]
    have := hlog.floor_le d
    omega
  · intro after limit clock uuids
    obtain ⟨s, hpurge, hlog', -, hdev⟩ :=
      exists_lockAndPurge (s := ⟨L, clock, uuids⟩) hlog d
    have hevents := events_eq after limit hpurge hlog' hdev
    refine ⟨s, hpurge, ?_, ?_, ?_⟩
    · intro hfloor hseq
      rw [if_neg (Nat.not_lt.mpr hfloor), if_neg (Nat.not_lt.mpr hseq)] at hevents
      refine ⟨_, hevents, ?_, ?_⟩
      · have hnum := ((hlog'.numbered d).drop after)
        rw [Numbered, List.length_drop, hlog'.length, Nat.add_comm 1] at hnum
        rw [List.map_map, List.map_take]
        exact congrArg (List.take limit) hnum
      · intro frame hframe
        obtain ⟨e, he, rfl⟩ := List.mem_map.mp hframe
        have hsuffix : e ∈ (s.ledger.historyOf d).drop (s.ledger.floor d) := by
          have hdrop := List.mem_of_mem_take he
          rw [← Nat.add_sub_cancel' hfloor, ← List.drop_drop] at hdrop
          exact List.mem_of_mem_drop hdrop
        exact ⟨e, (hlog'.mem_events hsuffix).1, (hlog'.mem_events hsuffix).2, rfl⟩
    · intro hfloor
      rw [if_pos hfloor] at hevents
      exact ⟨hevents, by rw [hevents]; rfl⟩
    · intro hseq
      have hfloor := hlog'.floor_le d
      rw [if_neg (by omega), if_pos hseq] at hevents
      exact hevents
  · intro after emitted batch cursor L' hsse
    obtain ⟨hlog', -, hframes, -⟩ := hsse.invariant hlog hkeyed
    have hpre : emitted <+: L'.framesAfter d after :=
      (List.prefix_append emitted batch).trans hframes
    refine ⟨?_, ?_⟩
    · have hnum := (hlog'.numbered_framesAfter d after).take emitted.length
      rw [← List.prefix_iff_eq_take.mp hpre] at hnum
      exact hnum
    · intro frame hframe
      obtain ⟨e, he, rfl⟩ := List.mem_map.mp (hpre.subset hframe)
      obtain ⟨hmem, hd⟩ := List.mem_filter.mp (List.mem_of_mem_drop he)
      exact ⟨e, hmem, of_decide_eq_true hd, rfl⟩

/-- A store with the default settings. -/
def BrokerStore.default : BrokerStore := ⟨BrokerSettings.default, fun _ => "", fun _ => true⟩

/-- A request of the tests below. -/
def sampleRequest (operation flow : Uuid) : OperationRequest := ⟨operation, flow, "hello", []⟩

theorem replay_log_gap_free_purged :
    ∃ L, Reachable BrokerStore.default L ∧ L.floor "laptop" = 1 ∧
      (L.eventsOf "laptop").map EventRow.sequence = [2, 3] ∧
      (∃ batch s, BrokerStore.events "laptop" 1 100 ⟨L, fun _ => 0, fun _ => 0⟩ = .ok (batch, s) ∧
        batch.map Prod.fst = [2, 3]) ∧
      BrokerStore.events "laptop" 0 100 ⟨L, fun _ => 0, fun _ => 0⟩ = .error (retentionGap 3) := by
  -- a day passes between two readings of the clock, and the first event has expired at the purge
  let s : Session := ⟨Ledger.empty, fun n => seconds (86400 * n), fun n => Fin.ofNat _ n⟩
  have hruns : (Tx.succeeds ([Transaction.accept "laptop" (sampleRequest 1 2),
      .accept "laptop" (sampleRequest 3 4), .cancelIntent ("laptop", 1), .purge].forM
        BrokerStore.default.perform s) fun _ s' =>
      s'.ledger.floor "laptop" = 1 ∧ s'.ledger.sequence "laptop" = 3 ∧
      Tx.succeeds (lockAndPurge "laptop" ⟨s'.ledger, fun _ => 0, fun _ => 0⟩) (fun _ t =>
        t.ledger.floor "laptop" = 1 ∧ t.ledger.sequence "laptop" = 3) = true) = true := by
    decide +kernel
  obtain ⟨_, s', hrun, hruns⟩ := Tx.exists_of_succeeds hruns
  obtain ⟨hfloor, hseq, hruns⟩ := of_decide_eq_true hruns
  obtain ⟨_, t, hpurged, hruns⟩ := Tx.exists_of_succeeds hruns
  obtain ⟨hfloor', hseq'⟩ := of_decide_eq_true hruns
  have hreach : Reachable BrokerStore.default s'.ledger := storeRun_of_forM hrun
  obtain ⟨⟨hevents, -⟩, hread, -⟩ := replay_log_gap_free BrokerStore.default hreach "laptop"
  refine ⟨s'.ledger, hreach, hfloor, ?_, ?_, ?_⟩
  · rw [hevents, hseq, hfloor]
    rfl
  · obtain ⟨t', hpurge, hbatch, -⟩ := hread 1 100 (fun _ => 0) fun _ => 0
    obtain ⟨-, rfl⟩ := Prod.mk.inj (Except.ok.inj (hpurged.symm.trans hpurge))
    obtain ⟨batch, hread, hnumbers, -⟩ := hbatch (by rw [hfloor']) (by omega)
    exact ⟨batch, t, hread, by rw [hnumbers, hseq']; rfl⟩
  · obtain ⟨t', hpurge, -, hgap, -⟩ := hread 0 100 (fun _ => 0) fun _ => 0
    obtain ⟨-, rfl⟩ := Prod.mk.inj (Except.ok.inj (hpurged.symm.trans hpurge))
    rw [← hseq']
    exact (hgap (by omega)).1

end HermesGateway.Broker
