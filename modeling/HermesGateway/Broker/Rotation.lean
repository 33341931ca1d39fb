import HermesGateway.Broker.Frame
import HermesGateway.Broker.Runs

/-!
# Rotation of the reads

`step` reads unresolved operations in turn: `reconcilable` returns those that were polled longest
ago and marks them as polled, and `step` starts a read for each that has no task. It stops when
there are as many reads as streams are allowed, and it leaves out operations that are still listed
in one of its dictionaries, also those whose task is done. What it passes over was marked as polled
all the same, and goes behind those that were read.

So an operation can be passed over again and again while another one is read. If none is passed
over that has no task under way, and the clock advances, the rotation is fair.

A `Poller` follows `step` from statement to statement, with everything else the process does
between two of them. Starting a task and sending its request are one here: tasks start in the
order they are created.

## Main definitions

* `Poller`, `Poller.Step` — the dispatcher's dictionaries and the statements of `step`
* `Poller.Idle` — an operation that could be read
* `Poller.Starves` — one operation is read twice while another waits
* `Poller.Fair`, `Poller.FairStep` — nothing that waits is passed over

## Main results

* `reads_starve` — reads can starve
* `reads_rotate` — in a fair run they do not
-/

namespace HermesGateway.Broker

open BrokerStore

/-! ### The dispatcher -/

/-- Where `step` is. `loop` holds the rows that are left of those `reconcilable` returned. -/
inductive Poller.Phase
  | idle
  | purging
  | cancels
  | reads
  | fetched (rows : List OperationRow)
  | loop (rows : List OperationRow)
  | streams

/-- The dispatcher: the ledger, its dictionaries of tasks, where each task is marked as done or
not, and where `step` is. -/
structure Poller where
  ledger : Ledger
  streams : List (Key × Bool)
  reads : List (Key × Bool)
  cancels : List (Key × Bool)
  phase : Poller.Phase

namespace Poller

/-- A dispatcher that has made no step yet. -/
def start (L : Ledger) : Poller := ⟨L, [], [], [], .idle⟩

/-- The entries of the dictionaries. -/
def entries (P : Poller) : List (Key × Bool) := P.streams ++ P.reads ++ P.cancels

/-- `key in self._streams or key in self._reads or key in self._cancels`. -/
def Listed (P : Poller) (k : Key) : Prop := ∃ x ∈ P.entries, x.1 = k

/-- The operation has a task that is not done. -/
def Busy (P : Poller) (k : Key) : Prop := (k, false) ∈ P.entries

instance (P : Poller) (k : Key) : Decidable (P.Listed k) :=
  inferInstanceAs (Decidable (∃ x ∈ P.entries, x.1 = k))

/-- A dictionary without the tasks that are done. -/
def reaped (entries : List (Key × Bool)) : List (Key × Bool) := entries.filter fun x => !x.2

/-- A dictionary in which a task of `k` is done. -/
def ended (k : Key) (entries : List (Key × Bool)) : List (Key × Bool) :=
  entries.map fun x => if x.1 = k then (k, true) else x

/-- What the process can do between two statements of `step`. The loop over the rows has no
`await` in it. -/
def Phase.Awaits : Phase → Prop
  | .loop _ => False
  | _ => True

/-- One statement of `step`, or something that happens in between, with the reads that are
started. -/
inductive Step (store : BrokerStore) (clock : ℕ → Time) : Poller → List Key → Poller → Prop
  /-- A transaction of a handler or of a task. -/
  | commit {P : Poller} {x : Transaction} {uuids : ℕ → Uuid} {s' : Session}
      (hphase : P.phase.Awaits) (hx : x ≠ .reconcilable)
      (h : store.perform x ⟨P.ledger, clock, uuids⟩ = .ok ((), s')) :
      Step store clock P [] { P with ledger := s'.ledger }
  /-- A stream ends. -/
  | streamEnds {P : Poller} {k : Key} (hphase : P.phase.Awaits) :
      Step store clock P [] { P with streams := ended k P.streams }
  /-- A read ends. -/
  | readEnds {P : Poller} {k : Key} (hphase : P.phase.Awaits) :
      Step store clock P [] { P with reads := ended k P.reads }
  /-- A cancellation ends. -/
  | cancelEnds {P : Poller} {k : Key} (hphase : P.phase.Awaits) :
      Step store clock P [] { P with cancels := ended k P.cancels }
  /-- Tasks that are done are taken out of the dictionaries. -/
  | reap {P : Poller} (hphase : P.phase = .idle) :
      Step store clock P []
        { P with
          streams := reaped P.streams
          reads := reaped P.reads
          cancels := reaped P.cancels
          phase := .purging }
  /-- `purge`. -/
  | purge {P : Poller} {uuids : ℕ → Uuid} {s' : Session} (hphase : P.phase = .purging)
      (h : BrokerStore.purge ⟨P.ledger, clock, uuids⟩ = .ok ((), s')) :
      Step store clock P [] { P with ledger := s'.ledger, phase := .cancels }
  /-- A cancellation is handed out. -/
  | cancel {P : Poller} {k : Key} {handle : String} {uuids : ℕ → Uuid} {s' : Session}
      (hphase : P.phase = .cancels)
      (hlimit : P.cancels.length < store.settings.maxConcurrentStreams)
      (h : claimCancel ⟨P.ledger, clock, uuids⟩ = .ok (some (k, handle), s')) :
      Step store clock P []
        { P with ledger := s'.ledger, cancels := P.cancels ++ [(k, false)] }
  /-- There is none left. -/
  | noCancel {P : Poller} {uuids : ℕ → Uuid} {s' : Session} (hphase : P.phase = .cancels)
      (hlimit : P.cancels.length < store.settings.maxConcurrentStreams)
      (h : claimCancel ⟨P.ledger, clock, uuids⟩ = .ok (none, s')) :
      Step store clock P [] { P with ledger := s'.ledger, phase := .reads }
  /-- There are as many cancellations as are allowed. -/
  | fullCancels {P : Poller} (hphase : P.phase = .cancels)
      (hlimit : store.settings.maxConcurrentStreams ≤ P.cancels.length) :
      Step store clock P [] { P with phase := .reads }
  /-- `reconcilable`. -/
  | fetch {P : Poller} {rows : List OperationRow} {uuids : ℕ → Uuid} {s' : Session}
      (hphase : P.phase = .reads)
      (hlimit : P.reads.length < store.settings.maxConcurrentStreams)
      (h : reconcilable ⟨P.ledger, clock, uuids⟩ = .ok (rows, s')) :
      Step store clock P [] { P with ledger := s'.ledger, phase := .fetched rows }
  /-- There are as many reads as are allowed. -/
  | fullReads {P : Poller} (hphase : P.phase = .reads)
      (hlimit : store.settings.maxConcurrentStreams ≤ P.reads.length) :
      Step store clock P [] { P with phase := .streams }
  /-- The loop over the rows begins. -/
  | resume {P : Poller} {rows : List OperationRow} (hphase : P.phase = .fetched rows) :
      Step store clock P [] { P with phase := .loop rows }
  /-- `continue`. -/
  | skip {P : Poller} {r : OperationRow} {rest : List OperationRow}
      (hphase : P.phase = .loop (r :: rest)) (hlisted : P.Listed r.key) :
      Step store clock P [] { P with phase := .loop rest }
  /-- A read is started, and the loop goes on or breaks. -/
  | read {P : Poller} {r : OperationRow} {rest : List OperationRow}
      (hphase : P.phase = .loop (r :: rest)) (hlisted : ¬ P.Listed r.key) :
      Step store clock P [r.key]
        { P with
          reads := P.reads ++ [(r.key, false)]
          phase := if store.settings.maxConcurrentStreams ≤ P.reads.length + 1 then .streams
            else .loop rest }
  /-- The loop ends. -/
  | leave {P : Poller} (hphase : P.phase = .loop []) :
      Step store clock P [] { P with phase := .streams }
  /-- An operation is claimed. -/
  | claim {P : Poller} {c : Claim} {uuids : ℕ → Uuid} {s' : Session} (hphase : P.phase = .streams)
      (hlimit : P.streams.length < store.settings.maxConcurrentStreams)
      (h : store.claim ⟨P.ledger, clock, uuids⟩ = .ok (some c, s')) :
      Step store clock P []
        { P with ledger := s'.ledger, streams := P.streams ++ [(c.key, false)] }
  /-- There is none to claim, and `step` returns. -/
  | noClaim {P : Poller} {uuids : ℕ → Uuid} {s' : Session} (hphase : P.phase = .streams)
      (hlimit : P.streams.length < store.settings.maxConcurrentStreams)
      (h : store.claim ⟨P.ledger, clock, uuids⟩ = .ok (none, s')) :
      Step store clock P [] { P with ledger := s'.ledger, phase := .idle }
  /-- There are as many streams as are allowed, and `step` returns. -/
  | fullStreams {P : Poller} (hphase : P.phase = .streams)
      (hlimit : store.settings.maxConcurrentStreams ≤ P.streams.length) :
      Step store clock P [] { P with phase := .idle }

/-! ### Starvation -/

/-- The operation could be read: it is unresolved, has a handle, and no task is under way. -/
def Idle (P : Poller) (k : Key) : Prop :=
  (∃ r, P.ledger.operation? k = some r ∧ r.Active ∧ r.remoteTaskId ≠ none) ∧ ¬ P.Busy k

/-- From `P` a state can be reached in which a read of `a` is started, and another one later, while
`c` could be read all the time and is not. -/
def Starves (step : Poller → List Key → Poller → Prop) (P : Poller) (a c : Key) : Prop :=
  ∃ ls P₁ P₂ ls' P₃ P₄, Trace step P ls P₁ ∧ step P₁ [a] P₂ ∧
    Trace (fun Q l Q' => step Q l Q' ∧ Q.Idle c ∧ Q'.Idle c) P₂ ls' P₃ ∧ P₂.Idle c ∧ c ∉ ls' ∧
    step P₃ [a] P₄

/-- A dispatcher takes up its work by recovering what an earlier one left. -/
def Starts (store : BrokerStore) (P : Poller) : Prop :=
  ∃ L clock uuids s', Reachable store L ∧ store.recover ⟨L, clock, uuids⟩ = .ok ((), s') ∧
    P = start s'.ledger

/-- The loop passes over no operation that waits: one that is listed has a task under way, and
when the last read is started, so have all that are left. -/
def Fair (store : BrokerStore) (P : Poller) : Prop :=
  ∀ r rest, P.phase = .loop (r :: rest) →
    (P.Listed r.key → P.Busy r.key) ∧
    (¬ P.Listed r.key → store.settings.maxConcurrentStreams ≤ P.reads.length + 1 →
      ∀ r' ∈ rest, P.Busy r'.key)

/-- The clock advances from one reading of `reconcilable` to the next. -/
def Ticks (clock : ℕ → Time) (P : Poller) : Prop :=
  P.phase = .reads → StrictMono clock ∧
    ∀ r ∈ P.ledger.operations, ∀ t, r.polledAt = some t → t < clock 0

/-- A step that passes over no operation that waits. -/
def FairStep (store : BrokerStore) (P : Poller) (l : List Key) (P' : Poller) : Prop :=
  ∃ clock, Step store clock P l P' ∧ P.Fair store ∧ P.Ticks clock

end Poller

/-! ### When operations were polled -/

/-- When an operation was last polled: `0` for never. -/
def OperationRow.lastPoll (r : OperationRow) : ℕ := (r.polledAt.map (· + 1)).getD 0

/-- When the operation with key `k` was last polled. -/
def Ledger.polled (L : Ledger) (k : Key) : ℕ := ((L.operation? k).map OperationRow.lastPoll).getD 0

/-- No operation was polled. -/
def Unpolled (s s' : Session) : Prop := ∀ k, s'.ledger.polled k = s.ledger.polled k

instance : Frame Unpolled where
  refl _ _ := rfl
  trans _ _ _ h h' k := (h' k).trans (h k)
  map {s s' f} hf hops _ k := by
    have hlook : s'.ledger.operation? k = (s.ledger.operation? k).map f := by
      rw [Ledger.operation?, hops, Table.lookup_map fun r => (hf r).1]
      rfl
    have hpoll : OperationRow.lastPoll ∘ f = OperationRow.lastPoll :=
      funext fun r => by simp only [Function.comp_apply, OperationRow.lastPoll, (hf r).2]
    rw [Ledger.polled, hlook, Option.map_map, hpoll]
    rfl

section

variable {store : BrokerStore} {s s' : Session}

/-- A new operation was never polled. -/
theorem polled_insert {L : Ledger} {r : OperationRow} (hr : r.polledAt = none) (k : Key) :
    Ledger.polled { L with operations := L.operations ++ [r] } k = L.polled k := by
  simp only [Ledger.polled, Ledger.operation?, Table.lookup_insert]
  cases Table.lookup OperationRow.key L.operations k with
  | some r' => rfl
  | none => split_ifs <;> simp [OperationRow.lastPoll, hr]

/-- **Only `reconcilable` polls.** -/
theorem perform_unpolled {x : Transaction} (hx : x ≠ .reconcilable)
    (h : store.perform x s = .ok ((), s')) (k : Key) : s'.ledger.polled k = s.ledger.polled k := by
  cases x with
  | accept d request =>
    obtain ⟨r, hr, -⟩ := Tx.map_eq_ok.mp h
    obtain ⟨devices, hdevices⟩ := s.ledger.withDevice_eq d
    rcases accept_eq_ok hr with ⟨_, -, -, -, hledger⟩ | ⟨-, -, -, now, _, _, _, _, -, -, hledger⟩
    · rw [hledger, hdevices]
      rfl
    · rw [hledger, hdevices]
      exact polled_insert (r := acceptedRow _ _ _ now) rfl k
  | putArtifact d content digest contentType =>
    obtain ⟨r, hr, -⟩ := Tx.map_eq_ok.mp h
    obtain ⟨devices, hdevices⟩ := s.ledger.withDevice_eq d
    obtain ⟨-, -, row, now, -, -, -, -, -, -, -, -, -, hledger⟩ := putArtifact_eq_ok hr
    rw [hledger, hdevices]
    rfl
  | reconcilable => exact absurd rfl hx
  | _ => exact Frame.perform_keeps (I := Unpolled) (by simp) (by simp) (by simp) s () s' h k

/-- The keys stand in the order in which they were polled, after everything else. -/
structure Polled (L : Ledger) (keys : List Key) : Prop where
  ordered : keys.Pairwise fun a b => L.polled a < L.polled b
  latest : ∀ a ∈ keys, ∀ c, c ∉ keys → L.polled c < L.polled a

theorem polled_nil (L : Ledger) : Polled L [] := ⟨List.Pairwise.nil, by simp⟩

/-- The rest was polled after everything else, too. -/
theorem Polled.tail {L : Ledger} {k : Key} {keys : List Key} (h : Polled L (k :: keys)) :
    Polled L keys := by
  obtain ⟨hfirst, hrest⟩ := List.pairwise_cons.mp h.ordered
  refine ⟨hrest, fun a ha c hc => ?_⟩
  by_cases hck : c = k
  · exact hck ▸ hfirst a ha
  · exact h.latest a (List.mem_cons_of_mem k ha) c (by simp [hck, hc])

theorem Polled.congr {L L' : Ledger} (hsame : ∀ k, L'.polled k = L.polled k) {keys : List Key}
    (h : Polled L keys) : Polled L' keys := by
  constructor
  · simpa only [hsame] using h.ordered
  · simpa only [hsame] using h.latest

/-- Marking one operation as polled. -/
theorem polled_polledRow {L : Ledger} {k : Key} (hk : L.operation? k ≠ none) (now : Time)
    (c : Key) : (L.updateOperation k (polledRow now)).polled c =
      if c = k then now + 1 else L.polled c := by
  rw [Ledger.polled, operation?_updateOperation (key_polledRow now)]
  split_ifs with hck
  · subst hck
    obtain ⟨r, hr⟩ := Option.ne_none_iff_exists'.mp hk
    rw [hr]
    rfl
  · rfl

/-- The loop of `reconcilable`: the keys get the readings of the clock, one after the other. -/
theorem polled_of_loop {keys : List Key} (hnodup : keys.Nodup) :
    ∀ {s : Session}, (∀ k ∈ keys, s.ledger.operation? k ≠ none) → StrictMono s.clock →
      (keys.forM fun k => do
        let now ← utcnow
        writeLedger fun L => L.updateOperation k (polledRow now)) s = .ok ((), s') →
      (∀ c, c ∉ keys → s'.ledger.polled c = s.ledger.polled c) ∧
        keys.Pairwise (fun a b => s'.ledger.polled a < s'.ledger.polled b) ∧
        ∀ a ∈ keys, s.clock 0 < s'.ledger.polled a := by
  induction keys with
  | nil =>
    intro s _ _ h
    obtain ⟨-, rfl⟩ := Prod.mk.inj (Tx.pure_eq_ok.mp h)
    exact ⟨fun _ _ => rfl, List.Pairwise.nil, fun _ ha => absurd ha List.not_mem_nil⟩
  | cons k keys ih =>
    intro s hpresent hclock h
    obtain ⟨hnew, hnodup⟩ := List.nodup_cons.mp hnodup
    obtain ⟨_, t, hpass, hrest⟩ := Tx.bind_eq_ok.mp h
    simp only [Tx.bind_eq_ok, utcnow_eq_ok, writeLedger_eq_ok] at hpass
    obtain ⟨now, _, ⟨rfl, rfl⟩, rfl⟩ := hpass
    have hpoll := polled_polledRow (hpresent k List.mem_cons_self) (s.clock 0)
    have hpresent' : ∀ a ∈ keys,
        (s.ledger.updateOperation k (polledRow (s.clock 0))).operation? a ≠ none := by
      intro a ha
      rw [operation?_updateOperation (key_polledRow _)]
      split_ifs
      · simpa using hpresent a (List.mem_cons_of_mem k ha)
      · exact hpresent a (List.mem_cons_of_mem k ha)
    have hclock' : StrictMono s.tick.clock := fun i j hij => hclock (Nat.succ_lt_succ hij)
    have hnext : s.clock 0 < s.clock 1 := hclock Nat.zero_lt_one
    obtain ⟨hother, hordered, hlater⟩ :=
      ih hnodup (s := ⟨_, s.tick.clock, s.tick.uuids⟩) hpresent' hclock' hrest
    have hself : s'.ledger.polled k = s.clock 0 + 1 :=
      (hother k hnew).trans ((hpoll k).trans (if_pos rfl))
    have hlater' : ∀ a ∈ keys, s.clock 1 < s'.ledger.polled a := hlater
    refine ⟨fun c hc => ?_, List.pairwise_cons.mpr ⟨fun a ha => ?_, hordered⟩, fun a ha => ?_⟩
    · obtain ⟨hck, hc⟩ := not_or.mp (mt List.mem_cons.mpr hc)
      exact (hother c hc).trans ((hpoll c).trans (if_neg hck))
    · rw [hself]
      exact (Nat.succ_le_of_lt hnext).trans_lt (hlater' a ha)
    · rcases List.mem_cons.mp ha with rfl | ha
      · rw [hself]
        exact Nat.lt_succ_self _
      · exact hnext.trans (hlater' a ha)

/-- `reconcilable` returns what was polled longest ago, and nothing is polled later than that
afterwards. -/
theorem polled_of_reconcilable {rows : List OperationRow}
    (hkeyed : Table.Keyed OperationRow.key s.ledger.operations) (hclock : StrictMono s.clock)
    (hlate : ∀ r ∈ s.ledger.operations, ∀ t, r.polledAt = some t → t < s.clock 0)
    (h : reconcilable s = .ok (rows, s')) :
    rows = unresolved s.ledger ∧ Polled s'.ledger (rows.map OperationRow.key) ∧
      ∀ c, c ∉ rows.map OperationRow.key → s'.ledger.polled c = s.ledger.polled c := by
  simp only [reconcilable, Tx.bind_eq_ok, readLedger_eq_ok, Tx.pure_eq_ok] at h
  obtain ⟨_, _, ⟨rfl, rfl⟩, _, t, h, hret⟩ := h
  obtain ⟨rfl, rfl⟩ := Prod.mk.inj hret
  have hmem : ∀ r ∈ unresolved s.ledger, r ∈ s.ledger.operations := by
    intro r hr
    have hsort := List.mem_of_mem_take hr
    rw [List.mem_insertionSort] at hsort
    exact List.mem_of_mem_filter hsort
  have hnodup : ((unresolved s.ledger).map OperationRow.key).Nodup :=
    ((((List.perm_insertionSort _ _).map OperationRow.key).nodup_iff.mpr
      ((List.filter_sublist.map _).nodup hkeyed)).sublist ((List.take_sublist 20 _).map _))
  have hpresent : ∀ k ∈ (unresolved s.ledger).map OperationRow.key,
      s.ledger.operation? k ≠ none := by
    intro k hk
    obtain ⟨r, hr, rfl⟩ := List.mem_map.mp hk
    rw [Ledger.operation?, hkeyed.mem_iff_lookup.mp (hmem r hr)]
    simp
  obtain ⟨hother, hordered, hlater⟩ := polled_of_loop hnodup hpresent hclock h
  refine ⟨rfl, ⟨hordered, fun a ha c hc => ?_⟩, hother⟩
  rw [hother c hc]
  refine lt_of_le_of_lt ?_ (hlater a ha)
  rw [Ledger.polled]
  cases hlook : s.ledger.operation? c with
  | none => exact Nat.zero_le _
  | some r =>
    cases hpoll : r.polledAt with
    | none => simp [OperationRow.lastPoll, hpoll]
    | some t =>
      have hlt := Nat.succ_le_of_lt (hlate r (Table.mem_of_lookup hlook) t hpoll)
      simpa [OperationRow.lastPoll, hpoll] using hlt

/-- An operation that was polled before one of those selected is selected too, and stands before
it. -/
theorem unresolved_before {L : Ledger} (hkeyed : Table.Keyed OperationRow.key L.operations)
    {r : OperationRow} {a c : Key} (hr : L.operation? c = some r) (hactive : r.Active)
    (hhandle : r.remoteTaskId ≠ none) (ha : a ∈ (unresolved L).map OperationRow.key)
    (hlt : L.polled c < L.polled a) :
    ∃ p q, (unresolved L).map OperationRow.key = p ++ c :: q ∧ a ∉ p := by
  let sorted := (L.operations.filter fun r => r.Active ∧ r.remoteTaskId ≠ none).insertionSort
    fun a b => pollOrder a ≤ pollOrder b
  have hsorted : sorted.Pairwise fun a b => pollOrder a ≤ pollOrder b :=
    List.pairwise_insertionSort _ _
  have hmem : r ∈ sorted := by
    rw [List.mem_insertionSort, List.mem_filter]
    exact ⟨Table.mem_of_lookup hr, decide_eq_true ⟨hactive, hhandle⟩⟩
  have hpoll : ∀ r' ∈ sorted, L.polled r'.key = r'.lastPoll := by
    intro r' hr'
    rw [List.mem_insertionSort] at hr'
    rw [Ledger.polled, Ledger.operation?,
      hkeyed.mem_iff_lookup.mp (List.mem_of_mem_filter hr')]
    rfl
  have hkey : r.key = c := Table.key_of_lookup hr
  -- no row of `a` stands before `r`
  have hafter : ∀ p q, sorted = p ++ q → r ∈ q → a ∉ p.map OperationRow.key := by
    intro p q hsplit hrq hap
    obtain ⟨r', hr', rfl⟩ := List.mem_map.mp hap
    have hle : pollOrder r' ≤ pollOrder r :=
      (List.pairwise_append.mp (hsplit ▸ hsorted)).2.2 r' hr' r hrq
    rw [← hkey, hpoll r hmem, hpoll r' (hsplit ▸ List.mem_append_left q hr')] at hlt
    rcases Prod.Lex.le_iff.mp hle with hfirst | ⟨hfirst, -⟩
    · exact absurd hlt (Nat.lt_asymm hfirst)
    · exact absurd hlt (not_lt_of_ge hfirst.le)
  have hsplit : sorted = unresolved L ++ sorted.drop 20 := (List.take_append_drop 20 sorted).symm
  have hselected : r ∈ unresolved L := by
    rcases List.mem_append.mp (hsplit ▸ hmem) with h | h
    · exact h
    · exact absurd ha (hafter _ _ hsplit h)
  obtain ⟨p, q, hpq⟩ := List.append_of_mem hselected
  refine ⟨p.map OperationRow.key, q.map OperationRow.key, by rw [hpq]; simp [hkey], ?_⟩
  refine hafter p (r :: q ++ sorted.drop 20) ?_ (by simp)
  rw [← List.append_assoc, ← hpq]
  exact hsplit

end

/-! ### Fair runs -/

namespace Poller

variable {store : BrokerStore} {clock : ℕ → Time} {P P' : Poller} {l : List Key} {a c : Key}

/-- The keys `reconcilable` returned that the loop has not come to. -/
def pending (P : Poller) : List Key :=
  match P.phase with
  | .fetched rows | .loop rows => rows.map OperationRow.key
  | _ => []

/-- A step changes the ledger by a transaction, if at all, and polls only where it fetches. -/
theorem Step.ledger (h : Step store clock P l P') :
    P'.ledger = P.ledger ∨ ∃ x uuids s',
      store.perform x ⟨P.ledger, clock, uuids⟩ = .ok ((), s') ∧ P'.ledger = s'.ledger ∧
      (x = .reconcilable → P.phase = .reads) := by
  cases h with
  | @commit x uuids s' _ hx h => exact .inr ⟨x, uuids, s', h, rfl, fun heq => absurd heq hx⟩
  | @purge uuids s' _ h => exact .inr ⟨.purge, uuids, s', h, rfl, fun heq => (by cases heq)⟩
  | @cancel k handle uuids s' _ _ h =>
    exact .inr ⟨.claimCancel, uuids, s', Tx.map_eq_ok.mpr ⟨_, h, rfl⟩, rfl,
      fun heq => (by cases heq)⟩
  | @noCancel uuids s' _ _ h =>
    exact .inr ⟨.claimCancel, uuids, s', Tx.map_eq_ok.mpr ⟨_, h, rfl⟩, rfl,
      fun heq => (by cases heq)⟩
  | @fetch rows uuids s' hphase _ h =>
    exact .inr ⟨.reconcilable, uuids, s', Tx.map_eq_ok.mpr ⟨_, h, rfl⟩, rfl, fun _ => hphase⟩
  | @claim c uuids s' _ _ h =>
    exact .inr ⟨.claim, uuids, s', Tx.map_eq_ok.mpr ⟨_, h, rfl⟩, rfl, fun heq => (by cases heq)⟩
  | @noClaim uuids s' _ _ h =>
    exact .inr ⟨.claim, uuids, s', Tx.map_eq_ok.mpr ⟨_, h, rfl⟩, rfl, fun heq => (by cases heq)⟩
  | _ => exact .inl rfl

theorem Step.keyed (h : Step store clock P l P')
    (hkeyed : Table.Keyed OperationRow.key P.ledger.operations) :
    Table.Keyed OperationRow.key P'.ledger.operations := by
  rcases h.ledger with heq | ⟨x, uuids, s', hx, heq, -⟩
  · rwa [heq]
  · obtain ⟨ks, hmoves⟩ := moves_of_publishes (perform_publishes hkeyed hx)
    rw [heq]
    exact keyed_of_trace hmoves hkeyed

/-- A step that does not fetch polls nothing. -/
theorem Step.unpolled (h : Step store clock P l P') (hphase : P.phase ≠ .reads) (k : Key) :
    P'.ledger.polled k = P.ledger.polled k := by
  rcases h.ledger with heq | ⟨x, uuids, s', hx, heq, hfetch⟩
  · rw [heq]
  · rw [heq]
    exact perform_unpolled (fun hpoll => hphase (hfetch hpoll)) hx k

/-- **What a fair step can do** to the keys that are left: nothing, fetch new ones, pass over one
that has a task, or read one. Where the loop breaks, all that are left have tasks. -/
theorem FairStep.cases (hkeyed : Table.Keyed OperationRow.key P.ledger.operations)
    (h : FairStep store P l P') :
    (l = [] ∧ P'.pending = P.pending ∧ ∀ k, P'.ledger.polled k = P.ledger.polled k) ∨
    (l = [] ∧ P.pending = [] ∧ P'.pending = (unresolved P.ledger).map OperationRow.key ∧
      Polled P'.ledger P'.pending ∧
      ∀ k, k ∉ P'.pending → P'.ledger.polled k = P.ledger.polled k) ∨
    (∃ k, l = [] ∧ P.pending = k :: P'.pending ∧ P'.ledger = P.ledger ∧ P'.Busy k) ∨
    (∃ k rest, l = [k] ∧ P.pending = k :: rest ∧ P'.ledger = P.ledger ∧ P'.Busy k ∧
      (P'.pending = rest ∨ P'.pending = [] ∧ ∀ k' ∈ rest, P'.Busy k')) := by
  obtain ⟨clock, hstep, hfair, hticks⟩ := h
  have hquiet := hstep.unpolled
  cases hstep with
  | commit hphase hx h => exact .inl ⟨rfl, rfl, perform_unpolled hx h⟩
  | streamEnds | readEnds | cancelEnds => exact .inl ⟨rfl, rfl, fun _ => rfl⟩
  | @fetch rows uuids s' hphase hlimit h =>
    obtain ⟨hclock, hlate⟩ := hticks hphase
    obtain ⟨rfl, hpolled, hother⟩ := polled_of_reconcilable hkeyed hclock hlate h
    exact .inr (.inl ⟨rfl, by rw [pending, hphase], rfl, hpolled, hother⟩)
  | fullReads hphase =>
    exact .inl ⟨rfl, by rw [pending, pending, hphase], fun _ => rfl⟩
  | @skip r rest hphase hlisted =>
    exact .inr (.inr (.inl ⟨r.key, rfl, by rw [pending, hphase]; rfl, rfl,
      (hfair r rest hphase).1 hlisted⟩))
  | @read r rest hphase hlisted =>
    have hentry : ∀ x, x ∈ P.streams ++ (P.reads ++ [(r.key, false)]) ++ P.cancels ↔
        x ∈ P.entries ∨ x = (r.key, false) := by
      intro x
      simp only [entries, List.mem_append, List.mem_singleton]
      tauto
    refine .inr (.inr (.inr ⟨r.key, rest.map OperationRow.key, rfl, by rw [pending, hphase]; rfl,
      rfl, (hentry _).mpr (.inr rfl), ?_⟩))
    by_cases hlast : store.settings.maxConcurrentStreams ≤ P.reads.length + 1
    · refine .inr ⟨by simp only [pending, if_pos hlast], fun k' hk' => ?_⟩
      obtain ⟨r', hr', rfl⟩ := List.mem_map.mp hk'
      exact (hentry _).mpr (.inl ((hfair r rest hphase).2 hlisted hlast r' hr'))
    · exact .inl (by simp only [pending, if_neg hlast])
  | _ hphase =>
    exact .inl ⟨rfl, by simp [pending, hphase], hquiet (by simp [hphase])⟩

/-- A fair step that reads `a`. -/
theorem FairStep.read_cases (hkeyed : Table.Keyed OperationRow.key P.ledger.operations)
    (h : FairStep store P [a] P') :
    ∃ rest, P.pending = a :: rest ∧ P'.ledger = P.ledger ∧ P'.Busy a ∧
      (P'.pending = rest ∨ P'.pending = [] ∧ ∀ k ∈ rest, P'.Busy k) := by
  rcases h.cases hkeyed with ⟨hl, -⟩ | ⟨hl, -⟩ | ⟨_, hl, -⟩ | ⟨k, rest, hl, hread⟩
  · cases hl
  · cases hl
  · cases hl
  · obtain rfl : a = k := List.singleton_inj.mp hl
    exact ⟨rest, hread⟩

/-- What holds in every run: the keys that are left were polled last, in their order. -/
structure Inv (P : Poller) : Prop where
  keyed : Table.Keyed OperationRow.key P.ledger.operations
  polled : Polled P.ledger P.pending

theorem Starts.inv (h : Starts store P) : P.Inv := by
  obtain ⟨L, clock, uuids, s', hreach, hrecover, rfl⟩ := h
  obtain ⟨ks, hmoves⟩ :=
    moves_of_run (hreach.tail ⟨.recover, clock, uuids, s', hrecover, rfl⟩) keyed_empty
  exact ⟨keyed_of_trace hmoves keyed_empty, polled_nil _⟩

theorem FairStep.inv (hinv : P.Inv) (h : FairStep store P l P') : P'.Inv := by
  obtain ⟨clock, hstep, -⟩ := id h
  refine ⟨hstep.keyed hinv.keyed, ?_⟩
  have hpolled := hinv.polled
  rcases h.cases hinv.keyed with ⟨-, hsame, hquiet⟩ | ⟨-, -, -, hfetched, -⟩ |
    ⟨k, -, hskip, hledger, -⟩ | ⟨k, rest, -, hread, hledger, -, hrest⟩
  · rw [hsame]
    exact hpolled.congr hquiet
  · exact hfetched
  · rw [hskip] at hpolled
    rw [hledger]
    exact hpolled.tail
  · rw [hread] at hpolled
    rw [hledger]
    rcases hrest with hrest | ⟨hrest, -⟩
    · rw [hrest]
      exact hpolled.tail
    · rw [hrest]
      exact polled_nil _

/-- It is the turn of `c` before it is that of `a`: where neither is left to come, `c` was polled
before `a`, and otherwise `c` comes first. -/
def Ahead (P : Poller) (a c : Key) : Prop :=
  (c ∉ P.pending ∧ a ∉ P.pending ∧ P.ledger.polled c < P.ledger.polled a) ∨
    ∃ p q, P.pending = p ++ c :: q ∧ a ∉ p

/-- After a read of `a`, it is the turn of anything that could be read. -/
theorem ahead_of_read (hinv : P.Inv) (h : FairStep store P [a] P') (hidle : P'.Idle c) :
    P'.Ahead a c := by
  obtain ⟨rest, hread, hledger, hbusy, hrest⟩ := h.read_cases hinv.keyed
  have hca : c ≠ a := fun heq => hidle.2 (heq ▸ hbusy)
  have hpolled : Polled P.ledger (a :: rest) := hread ▸ hinv.polled
  have hfresh : a ∉ rest := fun ha =>
    Nat.lt_irrefl _ ((List.pairwise_cons.mp hpolled.ordered).1 a ha)
  by_cases hc : c ∈ rest
  · rcases hrest with hrest | ⟨-, hall⟩
    · obtain ⟨p, q, hpq⟩ := List.append_of_mem hc
      exact .inr ⟨p, q, hrest.trans hpq, fun ha => hfresh (hpq ▸ List.mem_append_left _ ha)⟩
    · exact absurd (hall c hc) hidle.2
  · refine .inl ⟨?_, ?_, ?_⟩
    · rcases hrest with hrest | ⟨hrest, -⟩ <;> simp [hrest, hc]
    · rcases hrest with hrest | ⟨hrest, -⟩ <;> simp [hrest, hfresh]
    · rw [hledger]
      exact hpolled.latest a List.mem_cons_self c (by simp [hca, hc])

/-- While it is the turn of `c`, `a` is not read. -/
theorem Ahead.not_read (h : P.Ahead a c) (hca : c ≠ a) {rest : List Key} :
    P.pending ≠ a :: rest := by
  intro hnext
  rcases h with ⟨-, ha, -⟩ | ⟨p, q, hpq, ha⟩
  · exact ha (hnext ▸ List.mem_cons_self)
  · cases p with
    | nil => exact hca (List.cons.inj (hpq.symm.trans hnext)).1
    | cons x p => exact ha ((List.cons.inj (hpq.symm.trans hnext)).1 ▸ List.mem_cons_self)

/-- The keys after the first: it stays the turn of `c`, unless `c` was the first. -/
theorem Ahead.tail {k : Key} {rest : List Key} (h : P.Ahead a c) (hck : c ≠ k)
    (hpending : P.pending = k :: rest) (hledger : P'.ledger = P.ledger)
    (hrest : P'.pending = rest) : P'.Ahead a c := by
  rcases h with ⟨hc, ha, hlt⟩ | ⟨p, q, hpq, ha⟩
  · rw [hpending, List.mem_cons, not_or] at hc ha
    exact .inl ⟨hrest ▸ hc.2, hrest ▸ ha.2, hledger ▸ hlt⟩
  · cases p with
    | nil => exact absurd (List.cons.inj (hpq.symm.trans hpending)).1 hck
    | cons x p =>
      refine .inr ⟨p, q, ?_, fun hap => ha (List.mem_cons_of_mem x hap)⟩
      rw [hrest]
      exact (List.cons.inj (hpending.symm.trans hpq)).2

/-- It stays the turn of `c` until `c` is read. -/
theorem FairStep.ahead (hinv : P.Inv) (h : FairStep store P l P') (hidle : P.Idle c)
    (hidle' : P'.Idle c) (hc : c ∉ l) (hahead : P.Ahead a c) : P'.Ahead a c := by
  rcases h.cases hinv.keyed with ⟨-, hsame, hquiet⟩ | ⟨-, hnil, hfetch, hpolled, hother⟩ |
    ⟨k, -, hskip, hledger, hbusy⟩ | ⟨k, rest, rfl, hread, hledger, hbusy, hrest⟩
  · unfold Ahead
    rw [hsame, hquiet, hquiet]
    exact hahead
  · obtain ⟨⟨r, hr, hactive, hhandle⟩, -⟩ := hidle
    have hlt : P.ledger.polled c < P.ledger.polled a := by
      rcases hahead with ⟨-, -, hlt⟩ | ⟨p, q, hpq, -⟩
      · exact hlt
      · rw [hnil] at hpq
        exact absurd hpq.symm (by simp)
    by_cases ha : a ∈ P'.pending
    · have hbefore := unresolved_before hinv.keyed hr hactive hhandle (hfetch ▸ ha) hlt
      rw [← hfetch] at hbefore
      exact .inr hbefore
    · by_cases hmem : c ∈ P'.pending
      · obtain ⟨p, q, hpq⟩ := List.append_of_mem hmem
        exact .inr ⟨p, q, hpq, fun hap => ha (hpq ▸ List.mem_append_left _ hap)⟩
      · exact .inl ⟨hmem, ha, by rw [hother c hmem, hother a ha]; exact hlt⟩
  · exact hahead.tail (fun heq => hidle'.2 (heq ▸ hbusy)) hskip hledger rfl
  · have hck : c ≠ k := fun heq => hc (heq ▸ List.mem_singleton_self c)
    rcases hrest with hrest | ⟨hrest, hall⟩
    · exact hahead.tail hck hread hledger hrest
    · -- the loop breaks, and `c` is not among those that are left
      have hcr : c ∉ rest := fun hmem => hidle'.2 (hall c hmem)
      rcases hahead with ⟨-, -, hlt⟩ | ⟨p, q, hpq, -⟩
      · exact .inl ⟨by simp [hrest], by simp [hrest], hledger ▸ hlt⟩
      · have hmem : c ∈ P.pending := by simp [hpq]
        rw [hread] at hmem
        exact absurd hmem (by simp [hck, hcr])

/-- It is the turn of `c` as long as it could be read and is not. -/
theorem ahead_of_wait {P₂ P₃ : Poller} {ls : List Key} (hinv : P₂.Inv) (hahead : P₂.Ahead a c)
    (h : Trace (fun Q l Q' => FairStep store Q l Q' ∧ Q.Idle c ∧ Q'.Idle c) P₂ ls P₃)
    (hc : c ∉ ls) : P₃.Inv ∧ P₃.Ahead a c := by
  induction h with
  | nil => exact ⟨hinv, hahead⟩
  | snoc _ hstep ih =>
    obtain ⟨hc, hl⟩ := not_or.mp (mt List.mem_append.mpr hc)
    obtain ⟨hinv', hahead'⟩ := ih hc
    obtain ⟨hfair, hbefore, hafter⟩ := hstep
    exact ⟨hfair.inv hinv', hfair.ahead hinv' hbefore hafter hl hahead'⟩

end Poller

/-- **Reads rotate.** In a run whose loop passes over no operation that waits and in which the
clock advances, no operation is read twice while another one, that could have been read all the
time, is not read in between: for any number of operations and any limit. -/
theorem reads_rotate {store : BrokerStore} {P : Poller} (h : Poller.Starts store P) (a c : Key) :
    ¬ Poller.Starves (Poller.FairStep store) P a c := by
  rintro ⟨ls, P₁, P₂, ls', P₃, P₄, hrun, hfirst, hwait, hidle, hc, hsecond⟩
  have hinv : P₁.Inv := hrun.invariant (fun hI hstep => hstep.inv hI) h.inv
  have hahead := Poller.ahead_of_read hinv hfirst hidle
  obtain ⟨hinv₃, hahead₃⟩ := Poller.ahead_of_wait (hfirst.inv hinv) hahead hwait hc
  obtain ⟨_, -, -, hbusy, -⟩ := hfirst.read_cases hinv.keyed
  obtain ⟨rest, hread, -⟩ := hsecond.read_cases hinv₃.keyed
  exact hahead₃.not_read (fun heq => hidle.2 (heq ▸ hbusy)) hread

/-- A store that allows `limit` streams. -/
def Poller.sampleStore (limit : ℕ) (h : 1 ≤ limit) : BrokerStore :=
  ⟨{ BrokerSettings.default with maxConcurrentStreams := limit, maxConcurrentStreams_pos := h },
    fun _ => "", fun _ => true⟩

/-- Two operations are accepted, sent and known to the peer. -/
def Poller.sampleRun : List Transaction :=
  [.accept "laptop" (sampleRequest 1 2), .accept "laptop" (sampleRequest 3 4), .claim,
    .saveHandle ("laptop", 1) "task-1", .claim, .saveHandle ("laptop", 3) "task-3"]

/-- Whether an operation is unresolved and has a handle. -/
def Ledger.awaits (L : Ledger) (k : Key) : Bool :=
  (L.operation? k).any fun r => r.Active ∧ r.remoteTaskId ≠ none

/-- Whether everything was polled before `t`. -/
def Ledger.polledBefore (L : Ledger) (t : Time) : Bool :=
  L.operations.all fun r => r.polledAt.all (· < t)

namespace Poller

theorem idle_of_awaits {P : Poller} {c : Key} (h : P.ledger.awaits c = true)
    (hentries : ∀ x ∈ P.entries, x.1 ≠ c) : P.Idle c := by
  refine ⟨?_, fun hbusy => hentries _ hbusy rfl⟩
  cases hr : P.ledger.operation? c with
  | none => simp [Ledger.awaits, hr] at h
  | some r =>
    rw [Ledger.awaits, hr] at h
    exact ⟨r, rfl, of_decide_eq_true h⟩

/-- The beginning of `step`, up to the loop, when there is nothing to cancel. -/
theorem fairTrace_loop {store : BrokerStore} {c : Key} {L : Ledger} {reads : List (Key × Bool)}
    {c₁ c₂ c₃ : ℕ → Time} {u₁ u₂ u₃ : ℕ → Uuid} {s₁ s₂ s₃ : Session} {rows : List OperationRow}
    (hreaped : reaped reads = []) (hreads : ∀ x ∈ reads, x.1 ≠ c)
    (h₁ : purge ⟨L, c₁, u₁⟩ = .ok ((), s₁))
    (h₂ : claimCancel ⟨s₁.ledger, c₂, u₂⟩ = .ok (none, s₂))
    (h₃ : reconcilable ⟨s₂.ledger, c₃, u₃⟩ = .ok (rows, s₃)) (hclock : StrictMono c₃)
    (hlate : s₂.ledger.polledBefore (c₃ 0) = true)
    (hawaits : ∀ L' ∈ [L, s₁.ledger, s₂.ledger, s₃.ledger], L'.awaits c = true) :
    Trace (fun Q l Q' => FairStep store Q l Q' ∧ Q.Idle c ∧ Q'.Idle c)
      ⟨L, [], reads, [], .idle⟩ [] ⟨s₃.ledger, [], [], [], .loop rows⟩ := by
  have hidle : ∀ {L' phase}, L' ∈ [L, s₁.ledger, s₂.ledger, s₃.ledger] →
      (⟨L', [], [], [], phase⟩ : Poller).Idle c := fun hL =>
    idle_of_awaits (hawaits _ hL) fun _ hx => absurd hx List.not_mem_nil
  have hfirst : (⟨L, [], reads, [], .idle⟩ : Poller).Idle c :=
    idle_of_awaits (hawaits L (by simp)) (by simpa [entries] using hreads)
  have hlimit : 0 < store.settings.maxConcurrentStreams := store.settings.maxConcurrentStreams_pos
  have fair : ∀ {clock : ℕ → Time} {P P' : Poller} {l : List Key}, Step store clock P l P' →
      (∀ rows, P.phase ≠ .loop rows) → P.phase ≠ .reads → FairStep store P l P' :=
    fun hstep hloop hreads => ⟨_, hstep, fun r rest hphase => absurd hphase (hloop _),
      fun hphase => absurd hphase hreads⟩
  have hreap : FairStep store ⟨L, [], reads, [], .idle⟩ [] ⟨L, [], [], [], .purging⟩ := by
    have hstep := @Step.reap store c₁ ⟨L, [], reads, [], .idle⟩ rfl
    simp only [hreaped] at hstep
    exact fair hstep (by simp) (by simp)
  have hpurge : FairStep store ⟨L, [], [], [], .purging⟩ [] ⟨s₁.ledger, [], [], [], .cancels⟩ :=
    fair (Step.purge (P := ⟨L, [], [], [], .purging⟩) rfl h₁) (by simp) (by simp)
  have hcancel : FairStep store ⟨s₁.ledger, [], [], [], .cancels⟩ []
      ⟨s₂.ledger, [], [], [], .reads⟩ :=
    fair (Step.noCancel (P := ⟨s₁.ledger, [], [], [], .cancels⟩) rfl hlimit h₂) (by simp) (by simp)
  have hfetch : FairStep store ⟨s₂.ledger, [], [], [], .reads⟩ []
      ⟨s₃.ledger, [], [], [], .fetched rows⟩ := by
    refine ⟨c₃, Step.fetch (P := ⟨s₂.ledger, [], [], [], .reads⟩) rfl hlimit h₃, ?_, ?_⟩
    · intro r rest hphase
      cases hphase
    · refine fun _ => ⟨hclock, fun r hr t ht => ?_⟩
      have hall := List.all_eq_true.mp hlate r hr
      rw [ht] at hall
      exact of_decide_eq_true hall
  have hresume : FairStep store ⟨s₃.ledger, [], [], [], .fetched rows⟩ []
      ⟨s₃.ledger, [], [], [], .loop rows⟩ :=
    fair (@Step.resume store c₃ ⟨s₃.ledger, [], [], [], .fetched rows⟩ _ rfl) (by simp) (by simp)
  have htrace := @Trace.nil _ _ (fun Q l Q' => FairStep store Q l Q' ∧ Q.Idle c ∧ Q'.Idle c)
    ⟨L, [], reads, [], .idle⟩
  have htrace := htrace.snoc ⟨hreap, hfirst, hidle (by simp)⟩
  have htrace := htrace.snoc ⟨hpurge, hidle (by simp), hidle (by simp)⟩
  have htrace := htrace.snoc ⟨hcancel, hidle (by simp), hidle (by simp)⟩
  have htrace := htrace.snoc ⟨hfetch, hidle (by simp), hidle (by simp)⟩
  exact htrace.snoc ⟨hresume, hidle (by simp), hidle (by simp)⟩

end Poller

theorem reads_rotate_two :
    ∃ P P', Poller.Starts BrokerStore.default P ∧
      Trace (Poller.FairStep BrokerStore.default) P [("laptop", 1), ("laptop", 3)] P' ∧
      ∀ a c, ¬ Poller.Starves (Poller.FairStep BrokerStore.default) P a c := by
  let store := BrokerStore.default
  have hruns : (Tx.succeeds (Poller.sampleRun.forM store.perform ⟨Ledger.empty, id, fun _ => 7⟩)
    fun _ s => Tx.succeeds (store.recover ⟨s.ledger, (· + 20), fun _ => 7⟩) fun _ s₀ =>
    Tx.succeeds (purge ⟨s₀.ledger, (· + 40), fun _ => 7⟩) fun _ s₁ =>
    Tx.succeeds (claimCancel ⟨s₁.ledger, (· + 50), fun _ => 7⟩) fun c s₂ =>
    Tx.succeeds (reconcilable ⟨s₂.ledger, (· + 60), fun _ => 7⟩) fun rows s₃ =>
      c.isNone && decide (rows.map OperationRow.key = [("laptop", 1), ("laptop", 3)]) &&
        s₂.ledger.polledBefore 60 &&
        decide (∀ L ∈ [s₀.ledger, s₁.ledger, s₂.ledger, s₃.ledger],
          L.awaits ("laptop", 3) = true)) = true := by
    decide +kernel
  obtain ⟨_, s, hsetup, hruns⟩ := Tx.exists_of_succeeds hruns
  obtain ⟨_, s₀, h₀, hruns⟩ := Tx.exists_of_succeeds hruns
  obtain ⟨_, s₁, h₁, hruns⟩ := Tx.exists_of_succeeds hruns
  obtain ⟨o₂, s₂, h₂, hruns⟩ := Tx.exists_of_succeeds hruns
  obtain ⟨rows, s₃, h₃, hruns⟩ := Tx.exists_of_succeeds hruns
  simp only [Bool.and_eq_true, decide_eq_true_eq, Option.isNone_iff_eq_none] at hruns
  obtain ⟨⟨⟨rfl, hrows⟩, hlate⟩, hawaits⟩ := hruns
  obtain ⟨r, rest, rfl, hr, hrest⟩ := List.map_eq_cons_iff.mp hrows
  obtain ⟨r', rest', rfl, hr', hrest'⟩ := List.map_eq_cons_iff.mp hrest
  obtain rfl := List.map_eq_nil_iff.mp hrest'
  have hstarts : Poller.Starts store (Poller.start s₀.ledger) :=
    ⟨s.ledger, _, _, s₀, storeRun_of_forM hsetup, h₀, rfl⟩
  have hloop := @Poller.fairTrace_loop store _ _ [] _ _ _ _ _ _ _ _ _ _ rfl (by simp) h₁ h₂ h₃
    (fun i j hij => Nat.add_lt_add_right hij 60) hlate hawaits
  have hread : ∀ (reads : List (Key × Bool)) (r : OperationRow) (rest : List OperationRow),
      (∀ x ∈ reads, x.1 ≠ r.key) → reads.length + 1 < 4 →
      Poller.FairStep store ⟨s₃.ledger, [], reads, [], .loop (r :: rest)⟩ [r.key]
        ⟨s₃.ledger, [], reads ++ [(r.key, false)], [], .loop rest⟩ := by
    intro reads r rest hreads hlimit
    have hlisted :
        ¬ (⟨s₃.ledger, [], reads, [], .loop (r :: rest)⟩ : Poller).Listed r.key := by
      rintro ⟨x, hx, hkey⟩
      exact hreads x (by simpa [Poller.entries] using hx) hkey
    have hstep := @Poller.Step.read store id ⟨s₃.ledger, [], reads, [], .loop (r :: rest)⟩ _ _
      rfl hlisted
    have hlimit' : ¬ store.settings.maxConcurrentStreams ≤ reads.length + 1 := not_le_of_gt hlimit
    simp only [if_neg hlimit'] at hstep
    refine ⟨id, hstep, fun _ _ hphase => ?_, fun hphase => by cases hphase⟩
    cases hphase
    exact ⟨fun h => absurd h hlisted, fun _ h => absurd h hlimit'⟩
  have htrace := ((hloop.mono fun h => h.1).snoc (hread [] r [r'] (by simp) (by simp))).snoc
    (hread [(r.key, false)] r' [] (by simp [hr, hr']) (by simp))
  rw [hr, hr'] at htrace
  exact ⟨_, _, hstarts, htrace, reads_rotate hstarts⟩

/-- **Reads can starve.** With one stream allowed and two operations to be read, both are marked as
polled and one is read, again and again the same one. -/
theorem reads_starve : ¬ ∀ (store : BrokerStore) (P : Poller), Poller.Starts store P →
    ∀ a c, ¬ Poller.Starves (fun Q l Q' => ∃ clock, Poller.Step store clock Q l Q') P a c := by
  intro hclaim
  let store := Poller.sampleStore 1 (by decide)
  have hruns : (Tx.succeeds (Poller.sampleRun.forM store.perform ⟨Ledger.empty, id, fun _ => 7⟩)
    fun _ s => Tx.succeeds (store.recover ⟨s.ledger, (· + 20), fun _ => 7⟩) fun _ s₀ =>
    Tx.succeeds (purge ⟨s₀.ledger, (· + 40), fun _ => 7⟩) fun _ s₁ =>
    Tx.succeeds (claimCancel ⟨s₁.ledger, (· + 50), fun _ => 7⟩) fun c s₂ =>
    Tx.succeeds (reconcilable ⟨s₂.ledger, (· + 60), fun _ => 7⟩) fun rows s₃ =>
    Tx.succeeds (store.claim ⟨s₃.ledger, (· + 70), fun _ => 7⟩) fun o s₄ =>
    Tx.succeeds (purge ⟨s₄.ledger, (· + 80), fun _ => 7⟩) fun _ s₅ =>
    Tx.succeeds (claimCancel ⟨s₅.ledger, (· + 90), fun _ => 7⟩) fun c' s₆ =>
    Tx.succeeds (reconcilable ⟨s₆.ledger, (· + 100), fun _ => 7⟩) fun rows' s₇ =>
      (c.isNone && o.isNone && c'.isNone) &&
        decide (rows.map OperationRow.key = [("laptop", 1), ("laptop", 3)]) &&
        decide (rows'.map OperationRow.key = [("laptop", 1), ("laptop", 3)]) &&
        (s₂.ledger.polledBefore 60 && s₆.ledger.polledBefore 100) &&
        decide (∀ L ∈ [s₀.ledger, s₁.ledger, s₂.ledger, s₃.ledger],
          L.awaits ("laptop", 3) = true) &&
        decide (∀ L ∈ [s₄.ledger, s₅.ledger, s₆.ledger, s₇.ledger],
          L.awaits ("laptop", 3) = true)) = true := by
    decide +kernel
  obtain ⟨_, s, hsetup, hruns⟩ := Tx.exists_of_succeeds hruns
  obtain ⟨_, s₀, h₀, hruns⟩ := Tx.exists_of_succeeds hruns
  obtain ⟨_, s₁, h₁, hruns⟩ := Tx.exists_of_succeeds hruns
  obtain ⟨o₂, s₂, h₂, hruns⟩ := Tx.exists_of_succeeds hruns
  obtain ⟨rows, s₃, h₃, hruns⟩ := Tx.exists_of_succeeds hruns
  obtain ⟨o₄, s₄, h₄, hruns⟩ := Tx.exists_of_succeeds hruns
  obtain ⟨_, s₅, h₅, hruns⟩ := Tx.exists_of_succeeds hruns
  obtain ⟨o₆, s₆, h₆, hruns⟩ := Tx.exists_of_succeeds hruns
  obtain ⟨rows', s₇, h₇, hruns⟩ := Tx.exists_of_succeeds hruns
  simp only [Bool.and_eq_true, decide_eq_true_eq, Option.isNone_iff_eq_none] at hruns
  obtain ⟨⟨⟨⟨⟨⟨⟨rfl, rfl⟩, rfl⟩, hrows⟩, hrows'⟩, hlate, hlate'⟩, hawaits⟩, hawaits'⟩ := hruns
  obtain ⟨r, rest, rfl, hr, -⟩ := List.map_eq_cons_iff.mp hrows
  obtain ⟨r', rest', rfl, hr', -⟩ := List.map_eq_cons_iff.mp hrows'
  have hstarts : Poller.Starts store (Poller.start s₀.ledger) :=
    ⟨s.ledger, _, _, s₀, storeRun_of_forM hsetup, h₀, rfl⟩
  have hloop := @Poller.fairTrace_loop store _ _ [] _ _ _ _ _ _ _ _ _ _ rfl (by simp) h₁ h₂ h₃
    (fun i j hij => Nat.add_lt_add_right hij 60) hlate hawaits
  have hloop' := @Poller.fairTrace_loop store _ _ [(("laptop", 1), true)] _ _ _ _ _ _ _ _ _ _ rfl
    (by simp) h₅ h₆ h₇ (fun i j hij => Nat.add_lt_add_right hij 100) hlate' hawaits'
  -- the limit is reached with the first read
  have hread : ∀ (L : Ledger) (r : OperationRow) (rest : List OperationRow),
      Poller.Step store id ⟨L, [], [], [], .loop (r :: rest)⟩ [r.key]
        ⟨L, [], [(r.key, false)], [], .streams⟩ := fun L r rest =>
    Poller.Step.read (P := ⟨L, [], [], [], .loop (r :: rest)⟩) rfl
      (by simp [Poller.Listed, Poller.entries])
  have hidle : ∀ {L : Ledger} {phase : Poller.Phase} {b : Bool}, L.awaits ("laptop", 3) = true →
      (⟨L, [], [(("laptop", 1), b)], [], phase⟩ : Poller).Idle ("laptop", 3) := fun hL =>
    Poller.idle_of_awaits hL (by simp [Poller.entries])
  have hclaimed : Poller.Step store (· + 70)
      ⟨s₃.ledger, [], [(("laptop", 1), false)], [], .streams⟩ []
      ⟨s₄.ledger, [], [(("laptop", 1), false)], [], .idle⟩ :=
    Poller.Step.noClaim (P := ⟨s₃.ledger, [], [(("laptop", 1), false)], [], .streams⟩) rfl
      Nat.zero_lt_one h₄
  have hended : Poller.Step store id ⟨s₄.ledger, [], [(("laptop", 1), false)], [], .idle⟩ []
      ⟨s₄.ledger, [], [(("laptop", 1), true)], [], .idle⟩ :=
    Poller.Step.readEnds (P := ⟨s₄.ledger, [], [(("laptop", 1), false)], [], .idle⟩)
      (k := ("laptop", 1)) trivial
  have hidle₃ := hawaits s₃.ledger (by simp)
  have hidle₄ := hawaits' s₄.ledger (by simp)
  refine hclaim store _ hstarts ("laptop", 1) ("laptop", 3)
    ⟨[], ⟨s₃.ledger, [], [], [], .loop (r :: rest)⟩,
      ⟨s₃.ledger, [], [(("laptop", 1), false)], [], .streams⟩, [],
      ⟨s₇.ledger, [], [], [], .loop (r' :: rest')⟩,
      ⟨s₇.ledger, [], [(("laptop", 1), false)], [], .streams⟩, ?_, ?_, ?_, ?_, ?_, ?_⟩
  · exact hloop.mono fun ⟨⟨clock, hstep, _⟩, _⟩ => ⟨clock, hstep⟩
  · exact ⟨id, hr ▸ hread s₃.ledger r rest⟩
  · refine @Trace.trans _ _ _ _ _ _ [] _ ?_
      (hloop'.mono fun ⟨⟨clock, hstep, _⟩, h⟩ => ⟨⟨clock, hstep⟩, h⟩)
    exact (Trace.single (l := []) ⟨⟨_, hclaimed⟩, hidle hidle₃, hidle hidle₄⟩).snoc (l := [])
      ⟨⟨_, hended⟩, hidle hidle₄, hidle hidle₄⟩
  · exact hidle hidle₃
  · exact List.not_mem_nil
  · exact ⟨id, hr' ▸ hread s₇.ledger r' rest'⟩

end HermesGateway.Broker
