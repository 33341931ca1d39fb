import HermesGateway.Broker.EventLog

/-!
# Every change is announced

With a clock that does not go back, the last event of an operation carries the snapshot that
`get` returns now, until the result expires. A client whose cursor is current therefore holds the
current view of every operation, up to expired results.

The snapshot of a row depends on the clock through its retention columns alone, so the argument
is about two of them: `Retained` says what they can be, and `render_later` compares the snapshots
of one row at two times.

## Main definitions

* `TimedStep`, `TimedRun` — runs of the store under a clock that does not go back
* `OperationRow.Expired`, `shown` — what becomes of an announced snapshot once the result has
  expired
* `Current` — the invariant: what the last announcement says is what is shown

## Main results

* `render_later` — the snapshot of a row at a later time
* `KeyStep.current` — one step of an operation keeps its last announcement current
* `notification_complete` — the property, for every run
-/

namespace HermesGateway.Broker

open BrokerStore

/-! ### Runs under a clock that does not go back -/

/-- A ledger together with a time the clock has reached. -/
abbrev TimedLedger := Ledger × Time

/-- One committed transaction whose clock readings do not go back, or time passing. -/
inductive TimedStep (store : BrokerStore) : TimedLedger → TimedLedger → Prop
  | commit {L : Ledger} {now now' : Time} {x : Transaction} {clock : ℕ → Time} {uuids : ℕ → Uuid}
      {s' : Session} (hmono : Monotone clock) (hbounds : ∀ n, now ≤ clock n ∧ clock n ≤ now')
      (h : store.perform x ⟨L, clock, uuids⟩ = .ok ((), s')) :
      TimedStep store (L, now) (s'.ledger, now')
  | wait {L : Ledger} {now now' : Time} (h : now ≤ now') : TimedStep store (L, now) (L, now')

/-- Any number of timed steps. -/
abbrev TimedRun (store : BrokerStore) : TimedLedger → TimedLedger → Prop :=
  Relation.ReflTransGen (TimedStep store)

/-- The readings a timed step takes from `now` to `now'`. -/
def Within (now now' : Time) (t₁ t₂ : Time) : Prop := now ≤ t₁ ∧ t₁ ≤ t₂ ∧ t₂ ≤ now'

/-! ### Snapshots of one row at different times -/

/-- The result of the row has expired at `t`. -/
def OperationRow.Expired (r : OperationRow) (t : Time) : Prop :=
  ∃ e, r.resultExpiresAt = some e ∧ e ≤ t

instance (r : OperationRow) (t : Time) : Decidable (r.Expired t) :=
  decidable_of_iff (∃ e ∈ r.resultExpiresAt, e ≤ t) (by simp [OperationRow.Expired])

/-- What is shown of an announced snapshot when the result has, or has not, expired. -/
def shown (expired : Prop) [Decidable expired] (snap : Snapshot) : Snapshot :=
  if expired then { snap with result := none, error := some expiredError } else snap

/-- The retention columns at `now`: a stored result has an expiry, and a result is erased only
after it has expired. -/
structure Retained (now : Time) (r : OperationRow) : Prop where
  expires : r.result.isSome → r.resultExpiresAt.isSome
  erased : r.result = none → ∀ e, r.resultExpiresAt = some e → e ≤ now

theorem Retained.mono {now now' : Time} {r : OperationRow} (h : Retained now r)
    (hle : now ≤ now') : Retained now' r :=
  ⟨h.expires, fun hnone e he => (h.erased hnone e he).trans hle⟩

/-- The snapshot of a row at readings `u₁ ≤ u₂`, from its snapshot at earlier readings. -/
theorem render_later {r : OperationRow} {t₁ t₂ u₁ u₂ : Time} (hr : Retained u₁ r)
    (ht : t₁ ≤ t₂) (htu : t₂ ≤ u₁) (hu : u₁ ≤ u₂) :
    render r u₁ u₂ = shown (r.Expired u₁) (render r t₁ t₂) := by
  cases hresult : r.result with
  | none =>
    cases hexp : r.resultExpiresAt with
    | none => simp [render, renderResult, shown, OperationRow.Expired, hresult, hexp]
    | some e =>
      have he := hr.erased hresult e hexp
      have he₂ : e ≤ u₂ := he.trans hu
      simp [render, renderResult, shown, OperationRow.Expired, hresult, hexp, he, he₂]
  | some body =>
    cases hexp : r.resultExpiresAt with
    | none => exact absurd (hr.expires (by simp [hresult])) (by simp [hexp])
    | some e =>
      by_cases he : e ≤ u₁
      · have he₂ : e ≤ u₂ := he.trans hu
        simp [render, renderResult, shown, OperationRow.Expired, hresult, hexp, he, he₂,
          Nat.not_lt.mpr he]
      · have hlt : u₁ < e := Nat.lt_of_not_le he
        have hlt' : t₁ < e := lt_of_le_of_lt (ht.trans htu) hlt
        simp [render, renderResult, shown, OperationRow.Expired, hresult, hexp, he, hlt, hlt']

/-! ### The invariant -/

/-- At `now`, the last snapshot announced for the operation is the one its row shows. -/
def Current (now : Time) : Option OperationRow → List Snapshot → Prop
  | none, announced => announced = []
  | some r, announced => Retained now r ∧ ∃ last, announced.getLast? = some last ∧
      ∀ t₁ t₂, now ≤ t₁ → t₁ ≤ t₂ → render r t₁ t₂ = shown (r.Expired t₁) last

theorem Current.mono {now now' : Time} {o : Option OperationRow} {announced : List Snapshot}
    (h : Current now o announced) (hle : now ≤ now') : Current now' o announced := by
  cases o with
  | none => exact h
  | some r =>
    obtain ⟨hr, last, hlast, hshow⟩ := h
    exact ⟨hr.mono hle, last, hlast, fun t₁ t₂ h₁ h₂ => hshow t₁ t₂ (hle.trans h₁) h₂⟩

section

variable {now now' : Time} {P : OperationRow → Edit → Prop} {k : Key}
  {o o' : Option OperationRow} {announced ss : List Snapshot}

theorem Edit.retained {r : OperationRow} {e : Edit} (h : Retained now r) (hallowed : e.Allowed r) :
    Retained now (e.row r) := by
  cases e with
  | claim | handle | cancel => exact ⟨h.expires, h.erased⟩
  | finish state result code message expires fresh t =>
    obtain ⟨-, -, hsome⟩ := hallowed
    refine ⟨?_, ?_⟩
    · intro hres
      change expires.isSome = true
      rw [hsome]
      exact hres
    · intro hnone e he
      change result = none at hnone
      change expires = some e at he
      rw [hnone, he] at hsome
      exact absurd hsome (by simp)

theorem purgedRow_expiry (t : Time) (r : OperationRow) :
    (purgedRow t r).resultExpiresAt = r.resultExpiresAt := by
  obtain ⟨x, hx⟩ := purgedRow_eq t r
  rw [hx]

theorem expired_purgedRow (t u : Time) (r : OperationRow) :
    (purgedRow t r).Expired u ↔ r.Expired u := by
  rw [OperationRow.Expired, OperationRow.Expired, purgedRow_expiry]

theorem purgedRow_retained {r : OperationRow} {t : Time} (h : Retained now' r) (ht : t ≤ now') :
    Retained now' (purgedRow t r) := by
  unfold purgedRow
  split
  · next e he =>
    split_ifs with hle
    · refine ⟨by simp, fun _ e' he' => ?_⟩
      obtain rfl := Option.some.inj (he.symm.trans he')
      exact hle.trans ht
    · exact h
  · exact h

/-- Erasing an expired result is not visible. -/
theorem render_purgedRow {r : OperationRow} {t t₁ t₂ : Time} (ht : t ≤ t₁) (h₁₂ : t₁ ≤ t₂) :
    render (purgedRow t r) t₁ t₂ = render r t₁ t₂ := by
  unfold purgedRow
  split
  · next e he =>
    split_ifs with hle
    · have he₁ : e ≤ t₁ := hle.trans ht
      have he₂ : e ≤ t₂ := he₁.trans h₁₂
      cases hresult : r.result with
      | none => simp [render, renderResult, he, hresult, he₂]
      | some body => simp [render, renderResult, he, hresult, he₂, Nat.not_lt.mpr he₁]
    · rfl
  · rfl

/-- What a step of an operation that publishes nothing does is not visible from `now'` on. -/
theorem KeyStep.render_eq (h : KeyStep (Within now now') P k o [] o')
    {t₁ t₂ : Time} (h₁ : now' ≤ t₁) (h₂ : t₁ ≤ t₂) :
    o'.map (fun r => render r t₁ t₂) = o.map fun r => render r t₁ t₂ := by
  cases h with
  | same => rfl
  | poll => rfl
  | cancelClaim => rfl
  | @purge r t hread =>
    rw [Option.map_some, Option.map_some, render_purgedRow (hread.2.2.trans h₁) h₂]

/-- **One step of an operation keeps its last announcement current.** -/
theorem KeyStep.current (h : KeyStep (Within now now') P k o ss o')
    (hcur : Current now' o announced) : Current now' o' (announced ++ ss) := by
  cases h with
  | same => simpa using hcur
  | @insert request digest t t₁ t₂ hop hread =>
    refine ⟨⟨by simp [acceptedRow], by simp [acceptedRow]⟩, _, List.getLast?_concat, ?_⟩
    intro u₁ u₂ h₁ h₂
    exact render_later ⟨by simp [acceptedRow], by simp [acceptedRow]⟩ hread.2.1
      (hread.2.2.trans h₁) h₂
  | @edit r e t₁ t₂ hkey hallowed hknown hread =>
    have hret := Edit.retained hcur.1 hallowed
    refine ⟨hret, _, List.getLast?_concat, ?_⟩
    intro u₁ u₂ h₁ h₂
    exact render_later (hret.mono h₁) hread.2.1 (hread.2.2.trans h₁) h₂
  | poll =>
    obtain ⟨hret, last, hlast, hshow⟩ := hcur
    exact ⟨⟨hret.expires, hret.erased⟩, last, by simpa using hlast, hshow⟩
  | cancelClaim =>
    obtain ⟨hret, last, hlast, hshow⟩ := hcur
    exact ⟨⟨hret.expires, hret.erased⟩, last, by simpa using hlast, hshow⟩
  | @purge r t hread =>
    obtain ⟨hret, last, hlast, hshow⟩ := hcur
    refine ⟨purgedRow_retained hret hread.2.2, last, by simpa using hlast, ?_⟩
    intro u₁ u₂ h₁ h₂
    rw [render_purgedRow (hread.2.2.trans h₁) h₂, hshow u₁ u₂ h₁ h₂]
    simp only [shown, expired_purgedRow]

theorem current_of_keyTrace (h : Trace (KeyStep (Within now now') P k) o ss o')
    (hcur : Current now' o announced) : Current now' o' (announced ++ ss) :=
  h.labels (I := fun ss o' => Current now' o' (announced ++ ss))
    (fun hI hstep => by rw [← List.append_assoc]; exact hstep.current hI) (by simpa using hcur)

/-- Steps that publish nothing are not visible from `now'` on. -/
theorem render_eq_of_keyTrace (h : Trace (KeyStep (Within now now') P k) o ss o') (hss : ss = [])
    {t₁ t₂ : Time} (h₁ : now' ≤ t₁) (h₂ : t₁ ≤ t₂) :
    o'.map (fun r => render r t₁ t₂) = o.map fun r => render r t₁ t₂ := by
  induction h with
  | nil => rfl
  | snoc _ hstep ih =>
    obtain ⟨hls, rfl⟩ := List.append_eq_nil_iff.mp hss
    rw [hstep.render_eq h₁ h₂, ih hls]

end

/-! ### Runs -/

section

variable {store : BrokerStore} {L L' : Ledger} {now now' : Time}

/-- What the invariant says of a whole ledger. -/
def Announced (T : TimedLedger) : Prop :=
  Table.Keyed OperationRow.key T.1.operations ∧
    ∀ k, Current T.2 (T.1.operation? k) (T.1.published k)

/-- The keys a transaction may publish are distinct. -/
theorem nodup_published (hkeyed : Table.Keyed OperationRow.key L.operations) (x : Transaction) :
    (BrokerStore.published L x).Nodup := by
  cases x with
  | recover => exact hkeyed.sublist (List.Sublist.map _ List.filter_sublist)
  | claim =>
    simp only [BrokerStore.published]
    cases candidate L <;> simp
  | accept | finish | saveHandle | cancelIntent => simp [BrokerStore.published]
  | get | reconcilable | claimCancel | events | receipt | putArtifact | artifact | purge =>
    simp [BrokerStore.published]

/-- What one committed transaction does to one operation: it takes steps of its own within the
readings of the transaction, and at most one of them publishes. -/
theorem keyTrace_of_commit {x : Transaction} {clock : ℕ → Time} {uuids : ℕ → Uuid} {s' : Session}
    (hkeyed : Table.Keyed OperationRow.key L.operations) (hmono : Monotone clock)
    (hbounds : ∀ n, now ≤ clock n ∧ clock n ≤ now')
    (h : store.perform x ⟨L, clock, uuids⟩ = .ok ((), s')) (k : Key) :
    ∃ ss, Trace (KeyStep (Within now now') (fun _ _ => True) k) (L.operation? k) ss
        (s'.ledger.operation? k) ∧
      s'.ledger.published k = L.published k ++ ss ∧ ss.length ≤ 1 := by
  have hreads : (⟨L, clock, uuids⟩ : Session).Reads (Within now now') := fun i j hij =>
    ⟨(hbounds i).1, hmono hij, (hbounds j).2⟩
  obtain ⟨-, ks, hsub, hmoves⟩ := perform_publishes hkeyed h hreads
  obtain ⟨ss, htrace, hpub, hlen⟩ := keyTrace_of_trace (fun _ _ _ _ => trivial) hmoves k
  refine ⟨ss, htrace, hpub, ?_⟩
  rw [hlen]
  exact (hsub.count_le k).trans (List.nodup_iff_count_le_one.mp (nodup_published hkeyed x) k)

theorem TimedStep.announced {T T' : TimedLedger} (h : TimedStep store T T') (hinv : Announced T) :
    Announced T' := by
  cases h with
  | commit hmono hbounds hx =>
    obtain ⟨hkeyed, hcur⟩ := hinv
    refine ⟨?_, ?_⟩
    · obtain ⟨ks, hmoves⟩ := moves_of_publishes (perform_publishes hkeyed hx)
      exact keyed_of_trace hmoves hkeyed
    · intro k
      obtain ⟨ss, htrace, hpub, -⟩ := keyTrace_of_commit hkeyed hmono hbounds hx k
      rw [hpub]
      exact current_of_keyTrace htrace ((hcur k).mono ((hbounds 0).1.trans (hbounds 0).2))
  | wait hle => exact ⟨hinv.1, fun k => (hinv.2 k).mono hle⟩

theorem announced_of_run {start : Time} {T : TimedLedger}
    (h : TimedRun store (Ledger.empty, start) T) : Announced T := by
  induction h with
  | refl => exact ⟨keyed_empty, fun _ => rfl⟩
  | tail _ hstep ih => exact hstep.announced ih

/-- A timed run is a run. -/
theorem reachable_of_timedRun {start : Time} {T : TimedLedger}
    (h : TimedRun store (Ledger.empty, start) T) : Reachable store T.1 := by
  induction h with
  | refl => exact Relation.ReflTransGen.refl
  | tail _ hstep ih =>
    cases hstep with
    | commit _ _ hx => exact ih.tail ⟨_, _, _, _, hx, rfl⟩
    | wait _ => exact ih

/-- `get` returns the snapshot of the row at its first two readings. -/
theorem get_eq {k : Key} {r : OperationRow} (hr : L.operation? k = some r)
    (hret : Retained now r) (clock : ℕ → Time) (uuids : ℕ → Uuid) :
    ∃ s', BrokerStore.get k ⟨L, clock, uuids⟩ = .ok (render r (clock 0) (clock 1), s') := by
  refine ⟨(⟨L, clock, uuids⟩ : Session).tick.tick, ?_⟩
  rw [BrokerStore.get, Tx.bind_of_ok (row_eq_ok.mpr ⟨hr, rfl⟩)]
  have hpass : ¬ (r.result.isSome = true ∧ r.resultExpiresAt = none) := by
    rintro ⟨hres, hexp⟩
    have := hret.expires hres
    rw [hexp] at this
    exact absurd this (by simp)
  rw [snapshot, Tx.bind_of_ok (Tx.refuse_eq_ok.mpr ⟨hpass, rfl⟩)]
  rfl

/-- From `now` on, `get` returns `snap`, and once the result of the operation has expired, `snap`
without its result and with the error `result_expired`. -/
def Shows (L : Ledger) (now : Time) (k : Key) (snap : Snapshot) : Prop :=
  ∃ r, L.operation? k = some r ∧ ∀ clock uuids, Monotone clock → now ≤ clock 0 →
    ∃ s', BrokerStore.get k ⟨L, clock, uuids⟩ = .ok (shown (r.Expired (clock 0)) snap, s')

theorem Current.shows {k : Key} {r : OperationRow} {announced : List Snapshot}
    (hr : L.operation? k = some r) (h : Current now (some r) announced) :
    ∃ last, announced.getLast? = some last ∧ Shows L now k last := by
  obtain ⟨hret, last, hlast, hshow⟩ := h
  refine ⟨last, hlast, r, hr, ?_⟩
  intro clock uuids hmono hnow
  obtain ⟨s', hget⟩ := get_eq hr hret clock uuids
  rw [hshow (clock 0) (clock 1) hnow (hmono (by decide))] at hget
  exact ⟨s', hget⟩

/-- The last snapshot published for an operation is that of its event with the highest number. -/
theorem Log.last_event (hlog : Log L) {k : Key} {last : Snapshot}
    (h : (L.published k).getLast? = some last) :
    ∃ e ∈ L.history, e.key = k ∧ e.snapshot = last ∧
      ∀ e' ∈ L.history, e'.key = k → e'.sequence ≤ e.sequence := by
  rw [Ledger.published, List.getLast?_map, Option.map_eq_some_iff] at h
  obtain ⟨e, he, rfl⟩ := h
  have hmem := List.mem_of_getLast? he
  obtain ⟨hhist, hkey⟩ := List.mem_filter.mp hmem
  refine ⟨e, hhist, of_decide_eq_true hkey, rfl, ?_⟩
  -- The events of one operation are among those of its device, which are numbered in order.
  have hsorted : (L.history.filter fun e => e.key = k).Pairwise fun a b =>
      a.sequence ≤ b.sequence := by
    have hsub : (L.history.filter fun e => e.key = k).Sublist (L.historyOf k.1) := by
      have hfilter : (L.history.filter fun e => e.key = k) =
          (L.historyOf k.1).filter fun e => e.key = k := by
        rw [Ledger.historyOf, List.filter_filter]
        refine List.filter_congr ?_
        intro e _
        by_cases hk : e.key = k
        · have : e.deviceId = k.1 := by rw [← hk]; rfl
          simp [hk, this]
        · simp [hk]
      rw [hfilter]
      exact List.filter_sublist
    refine List.Pairwise.sublist hsub ?_
    have hnum := hlog.numbered k.1
    rw [← List.pairwise_map (f := EventRow.sequence) (R := (· ≤ ·)), hnum]
    exact List.pairwise_le_range'
  intro e' he' hkey'
  have hmem' : e' ∈ L.history.filter fun e => e.key = k :=
    List.mem_filter.mpr ⟨he', by simpa using hkey'⟩
  obtain ⟨init, hinit⟩ := List.getLast?_eq_some_iff.mp he
  rw [hinit] at hsorted hmem'
  rcases List.mem_append.mp hmem' with hold | hlast
  · exact (List.pairwise_append.mp hsorted).2.2 e' hold e List.mem_cons_self
  · rw [List.mem_singleton.mp hlast]

end

/-- **Every change is announced.** Under a clock that does not go back, in every reachable ledger
the event of an operation with the highest number carries the snapshot `get` returns from now on,
except that once the result has expired `get` shows no result and the error `result_expired`. And
every transaction either publishes nothing for an operation and leaves its snapshot at every later
time as it was, or appends exactly one event for it, with the snapshot `get` returns afterwards. -/
theorem notification_complete (store : BrokerStore) {start now : Time} {L : Ledger}
    (hrun : TimedRun store (Ledger.empty, start) (L, now)) :
    (∀ k r, L.operation? k = some r → ∃ e ∈ L.history, e.key = k ∧
      (∀ e' ∈ L.history, e'.key = k → e'.sequence ≤ e.sequence) ∧ Shows L now k e.snapshot) ∧
    (∀ x clock uuids s' now', Monotone clock → (∀ n, now ≤ clock n ∧ clock n ≤ now') →
      store.perform x ⟨L, clock, uuids⟩ = .ok ((), s') → ∀ k,
        (s'.ledger.published k = L.published k ∧ ∀ t₁ t₂, now' ≤ t₁ → t₁ ≤ t₂ →
          (s'.ledger.operation? k).map (fun r => render r t₁ t₂) =
            (L.operation? k).map fun r => render r t₁ t₂) ∨
        ∃ snap, s'.ledger.published k = L.published k ++ [snap] ∧
          Shows s'.ledger now' k snap) := by
  obtain ⟨hkeyed, hcur⟩ := announced_of_run hrun
  have hlog := Log.of_reachable (reachable_of_timedRun hrun)
  refine ⟨?_, ?_⟩
  · intro k r hr
    have hk := hcur k
    simp only [hr] at hk
    obtain ⟨last, hlast, hshows⟩ := hk.shows hr
    obtain ⟨e, he, hkey, rfl, hmax⟩ := hlog.last_event hlast
    exact ⟨e, he, hkey, hmax, hshows⟩
  · intro x clock uuids s' now' hmono hbounds hx k
    obtain ⟨ss, htrace, hpub, hlen⟩ := keyTrace_of_commit hkeyed hmono hbounds hx k
    have hnow : now ≤ now' := (hbounds 0).1.trans (hbounds 0).2
    rcases ss with _ | ⟨snap, _ | ⟨other, rest⟩⟩
    · exact .inl ⟨by simpa using hpub, fun t₁ t₂ => render_eq_of_keyTrace htrace rfl⟩
    · refine .inr ⟨snap, hpub, ?_⟩
      have hcur' := current_of_keyTrace htrace ((hcur k).mono hnow)
      cases hr : s'.ledger.operation? k with
      | none =>
        rw [hr] at hcur'
        exact absurd hcur' (by simp [Current])
      | some r =>
        rw [hr] at hcur'
        obtain ⟨last, hlast, hshows⟩ := hcur'.shows hr
        rw [List.getLast?_concat, Option.some.injEq] at hlast
        exact hlast ▸ hshows
    · exact absurd hlen (by simp)

/-- A transaction at the end of a run, all of it at one time. -/
theorem TimedRun.commit {store : BrokerStore} {start : TimedLedger} {L : Ledger} {now t : Time}
    {x : Transaction} {u : Uuid} {s' : Session} (hrun : TimedRun store start (L, now))
    (ht : now ≤ t) (hx : store.perform x ⟨L, fun _ => t, fun _ => u⟩ = .ok ((), s')) :
    TimedRun store start (s'.ledger, t) :=
  hrun.tail (TimedStep.commit monotone_const (fun _ => ⟨ht, le_rfl⟩) hx)

/-- Two operations are accepted and the first is canceled; when its first event has expired, it is
purged, and the operation is read. -/
theorem notification_complete_canceled :
    ∃ L now, TimedRun BrokerStore.default (Ledger.empty, 0) (L, now) ∧ L.floor "laptop" = 1 ∧
      ∃ e ∈ L.history, e.key = ("laptop", 1) ∧ 3 ≤ e.sequence ∧ e.snapshot.state = .canceled ∧
        ∃ s', BrokerStore.get ("laptop", 1) ⟨L, fun _ => now, fun _ => 0⟩ =
          .ok (e.snapshot, s') := by
  let store := BrokerStore.default
  let week := seconds 604800
  have hruns : (Tx.succeeds (store.perform (.accept "laptop" (sampleRequest 1 2))
      ⟨Ledger.empty, fun _ => 0, fun _ => 5⟩) fun _ s₁ =>
    Tx.succeeds (store.perform (.accept "laptop" (sampleRequest 3 4))
      ⟨s₁.ledger, fun _ => 1, fun _ => 6⟩) fun _ s₂ =>
    Tx.succeeds (store.perform (.cancelIntent ("laptop", 1))
      ⟨s₂.ledger, fun _ => 2, fun _ => 7⟩) fun _ s₃ =>
    Tx.succeeds (store.perform .purge ⟨s₃.ledger, fun _ => week, fun _ => 8⟩) fun _ s₄ =>
      s₄.ledger.floor "laptop" = 1 ∧
      (∃ e ∈ s₄.ledger.history, e.key = ("laptop", 1) ∧ e.sequence = 3) ∧
      (s₄.ledger.operation? ("laptop", 1)).any (fun r => r.resultExpiresAt = none) = true ∧
      Tx.succeeds (BrokerStore.get ("laptop", 1) ⟨s₄.ledger, fun _ => week, fun _ => 0⟩)
        (fun snap _ => snap.state = .canceled) = true) = true := by decide +kernel
  obtain ⟨_, s₁, h₁, hruns⟩ := Tx.exists_of_succeeds hruns
  obtain ⟨_, s₂, h₂, hruns⟩ := Tx.exists_of_succeeds hruns
  obtain ⟨_, s₃, h₃, hruns⟩ := Tx.exists_of_succeeds hruns
  obtain ⟨_, s₄, h₄, hruns⟩ := Tx.exists_of_succeeds hruns
  obtain ⟨hfloor, ⟨e₃, he₃, hkey₃, hseq₃⟩, hrow, hread⟩ := of_decide_eq_true hruns
  obtain ⟨r, hr, hlasting⟩ := (Option.any_eq_true _ _).mp hrow
  obtain ⟨snap, s₅, hget, hstate⟩ := Tx.exists_of_succeeds hread
  have hrun : TimedRun store (Ledger.empty, 0) (s₄.ledger, week) :=
    TimedRun.commit (TimedRun.commit (TimedRun.commit (TimedRun.commit .refl (by decide) h₁)
      (by decide) h₂) (by decide) h₃) (by decide) h₄
  obtain ⟨e, he, hkey, hlatest, r', hr', hshows⟩ := (notification_complete store hrun).1 _ r hr
  obtain ⟨s', hshown⟩ := hshows (fun _ => week) (fun _ => 0) monotone_const le_rfl
  -- a canceled operation has no result that could expire
  obtain rfl := Option.some.inj (hr.symm.trans hr')
  have hfresh : ¬ r.Expired week := by
    rintro ⟨expires, hexpires, -⟩
    rw [of_decide_eq_true hlasting] at hexpires
    cases hexpires
  rw [shown, if_neg hfresh] at hshown
  obtain ⟨rfl, -⟩ := Prod.mk.inj (Except.ok.inj (hget.symm.trans hshown))
  exact ⟨s₄.ledger, week, hrun, hfloor, e, he, hkey, hseq₃ ▸ hlatest e₃ he₃ hkey₃,
    of_decide_eq_true hstate, s', hshown⟩

end HermesGateway.Broker
