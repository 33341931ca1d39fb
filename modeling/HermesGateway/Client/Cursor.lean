import HermesGateway.Client.Rows

/-!
# The cursor of the event stream

The reader of `_events` beside the daemon's other coroutines, against the log of the broker. The log
only grows; the event at index `i` has sequence number `i + 1`. What the broker sends on a
connection is any run of events without holes that starts no later than after the cursor, with any
event sent again at will. Where the broker no longer has the events after the cursor, it answers
with the end of its log instead, and the reader asks for every operation it knows before it moves
the cursor there. A read that finds nothing says that the log holds no event of the operation.

Requests of other coroutines are answered at the same time, and what they bring in is any snapshot.
The reader alone moves the cursor.

## The invariant

Behind the cursor every event of a known operation is accounted for (`Covered`). While the reader
recovers from a gap up to `w`, each known operation is still on its list or has been read since the
log was `w` long; an operation that is created meanwhile has no event there yet.

## Main definitions

* `Passed` — what was handed to `accept_snapshot`, and at which cursor
* `Reader`, `Mirror`, `Mirror.Step` — the reader, with the daemon and the log
* `Covered` — how an event behind the cursor was accounted for
* `Mirror.Inv` — the invariant

## Main results

* `Mirror.Step.inv` — every step keeps the invariant
* `cursor_skips_nothing` — the cursor never goes back and leaves nothing out
-/

namespace HermesGateway.Client

open ClientStore

/-! ### The reader -/

/-- A snapshot that was handed to `accept_snapshot`: as an event, with the cursor before and after
the transaction, or as an answer to a read, with the length of the log it was read at and the
cursor it found. -/
inductive Passed
  | event (seq : ℕ) (v : Json) (before after : ℕ)
  | read (op : Uuid) (v : Json) (readAt cursor : ℕ)

/-- Where the reader is. -/
inductive Reader
  /-- Not connected. -/
  | idle
  /-- On a connection that has sent events up to `pos`. -/
  | streaming (pos : ℕ)
  /-- The events after the cursor are gone; the log was `w` long. -/
  | gapped (w : ℕ)
  /-- In `recover`, with operations left to read. -/
  | recovering (w : ℕ) (todo : List Uuid)
  /-- Awaiting the read of an operation. -/
  | asking (w : ℕ) (op : Uuid) (todo : List Uuid)
  /-- The broker has answered, when the log was `readAt` long. -/
  | answered (w : ℕ) (op : Uuid) (todo : List Uuid) (reply : Option Json) (readAt : ℕ)

/-- A daemon, its reader, and the log of the broker. -/
structure Mirror where
  daemon : Daemon
  reader : Reader
  log : List Json
  passed : List Passed

/-- The event of an operation with a sequence number. -/
def EventAt (log : List Json) (n : ℕ) (op : Uuid) (v : Json) : Prop :=
  ∃ i, n = i + 1 ∧ log[i]? = some v ∧ operationOf v = some op

/-- Whether the operation is known and not expired. -/
def Tables.Known (T : Tables) (op : Uuid) : Prop :=
  ∃ r, T.operation? op = some r ∧ r.expired = false

namespace Mirror

/-- An empty directory and an empty log. -/
def initial : Mirror := ⟨Daemon.initial, .idle, [], []⟩

/-- The tables of the directory. -/
abbrev tables (M : Mirror) : Tables := M.daemon.tables

/-- The cursor. -/
abbrev cursor (M : Mirror) : ℕ := M.daemon.tables.cursor

/-- Replace the tables. -/
def setTables (M : Mirror) (T : Tables) : Mirror :=
  { M with daemon := { M.daemon with tables := T } }

end Mirror

/-- One step of the client or of the broker. -/
inductive Mirror.Step (store : ClientStore) : Mirror → Mirror → Prop
  /-- The broker appends an event. -/
  | append {M : Mirror} {v : Json} : Mirror.Step store M { M with log := M.log ++ [v] }
  /-- Another coroutine takes a step. An operation it creates has a fresh identifier. -/
  | other {M : Mirror} {D : Daemon} (h : Daemon.Live store M.daemon D)
      (hcursor : D.tables.cursor = M.cursor)
      (hfresh : ∀ op, M.tables.operation? op = none → D.tables.operation? op ≠ none →
        ∀ v ∈ M.log, operationOf v ≠ some op) :
      Mirror.Step store M { M with daemon := D }
  /-- The reader connects. -/
  | connect {M : Mirror} (hreader : M.reader = .idle) :
      Mirror.Step store M { M with reader := .streaming M.cursor }
  /-- An event the cursor has passed is dropped. -/
  | skip {M : Mirror} {pos n : ℕ} (hreader : M.reader = .streaming pos) (hn : n ≤ pos + 1)
      (hpassed : n ≤ M.cursor) :
      Mirror.Step store M { M with reader := .streaming (max pos n) }
  /-- An event is ingested. -/
  | event {M : Mirror} {pos i : ℕ} {v : Json} {clock : ℕ → Time} {uuids : ℕ → Uuid} {s' : Session}
      (hreader : M.reader = .streaming pos) (hn : i + 1 ≤ pos + 1) (hv : M.log[i]? = some v)
      (hnew : M.cursor < i + 1)
      (h : store.ingest v (some (i + 1 : ℕ)) none ⟨M.tables, clock, uuids⟩ = .ok ((), s')) :
      Mirror.Step store M
        { M.setTables s'.tables with
          reader := .streaming (max pos (i + 1))
          passed := M.passed ++ [.event (i + 1) v M.cursor s'.tables.cursor] }
  /-- The broker answers that the events are gone, with the end of its log. -/
  | gap {M : Mirror} (hreader : M.reader = .idle) :
      Mirror.Step store M { M with reader := .gapped M.log.length }
  /-- `recover` lists the operations. -/
  | recover {M : Mirror} {w : ℕ} {todo : List Uuid} {clock : ℕ → Time} {uuids : ℕ → Uuid}
      {s' : Session} (hreader : M.reader = .gapped w)
      (h : ids false ⟨M.tables, clock, uuids⟩ = .ok (todo, s')) :
      Mirror.Step store M { M with reader := .recovering w todo }
  /-- `refresh` asks for one. -/
  | ask {M : Mirror} {w : ℕ} {op : Uuid} {todo : List Uuid}
      (hreader : M.reader = .recovering w (op :: todo)) :
      Mirror.Step store M { M with reader := .asking w op todo }
  /-- The broker answers. -/
  | answer {M : Mirror} {w : ℕ} {op : Uuid} {todo : List Uuid} {reply : Option Json}
      (hreader : M.reader = .asking w op todo)
      (hmissing : reply = none → ∀ v ∈ M.log, operationOf v ≠ some op) :
      Mirror.Step store M { M with reader := .answered w op todo reply M.log.length }
  /-- The operation was not found. -/
  | missing {M : Mirror} {w : ℕ} {op : Uuid} {todo : List Uuid} {readAt : ℕ}
      (hreader : M.reader = .answered w op todo none readAt) :
      Mirror.Step store M { M with reader := .recovering w todo }
  /-- What was read is ingested. -/
  | refresh {M : Mirror} {w : ℕ} {op : Uuid} {todo : List Uuid} {v : Json} {readAt : ℕ}
      {clock : ℕ → Time} {uuids : ℕ → Uuid} {s' : Session}
      (hreader : M.reader = .answered w op todo (some v) readAt)
      (h : store.ingest v none (some op) ⟨M.tables, clock, uuids⟩ = .ok ((), s')) :
      Mirror.Step store M
        { M.setTables s'.tables with
          reader := .recovering w todo
          passed := M.passed ++ [.read op v readAt M.cursor] }
  /-- The recovery is over. -/
  | advance {M : Mirror} {w : ℕ} {clock : ℕ → Time} {uuids : ℕ → Uuid} {s' : Session}
      (hreader : M.reader = .recovering w [])
      (h : ClientStore.advance w ⟨M.tables, clock, uuids⟩ = .ok ((), s')) :
      Mirror.Step store M { M.setTables s'.tables with reader := .idle }
  /-- The connection ends, or an exception leaves it. -/
  | disconnect {M : Mirror} : Mirror.Step store M { M with reader := .idle }
  /-- The daemon dies, and another one starts on the directory. -/
  | restart {M : Mirror} {supported : Bool} {clock : ℕ → Time} {uuids : ℕ → Uuid} {s' : Session}
      (h : startup ⟨M.tables, clock, uuids⟩ = .ok ((), s')) :
      Mirror.Step store M
        { M with
          daemon := ⟨s'.tables, .idle, supported, [], M.daemon.frames⟩
          reader := .idle }

/-- Runs of the client against the log. -/
abbrev Mirror.Run (store : ClientStore) : Mirror → Mirror → Prop :=
  Relation.ReflTransGen (Mirror.Step store)

/-- How an event behind the cursor was accounted for: it was ingested in the transaction that moved
the cursor over it, or the operation was read at a time when the log had it, and that was ingested
before the cursor passed it. -/
def Covered (passed : List Passed) (n : ℕ) (op : Uuid) (v : Json) : Prop :=
  (∃ before after, .event n v before after ∈ passed ∧ before < n ∧ n ≤ after) ∨
    ∃ v' readAt cursor, .read op v' readAt cursor ∈ passed ∧ n ≤ readAt ∧ cursor < n

/-! ### The log -/

theorem Covered.mono {passed new : List Passed} {n : ℕ} {op : Uuid} {v : Json}
    (h : Covered passed n op v) : Covered (passed ++ new) n op v := by
  obtain ⟨before, after, hmem, hn⟩ | ⟨v', readAt, cursor, hmem, hn⟩ := h
  · exact Or.inl ⟨before, after, List.mem_append_left _ hmem, hn⟩
  · exact Or.inr ⟨v', readAt, cursor, List.mem_append_left _ hmem, hn⟩

section

variable {log : List Json} {n : ℕ} {op : Uuid} {v v' : Json}

theorem EventAt.mem (h : EventAt log n op v) : v ∈ log ∧ operationOf v = some op := by
  obtain ⟨i, -, hi, hop⟩ := h
  exact ⟨List.mem_of_getElem? hi, hop⟩

theorem EventAt.of_append (h : EventAt (log ++ [v']) n op v) (hn : n ≤ log.length) :
    EventAt log n op v := by
  obtain ⟨i, rfl, hi, hop⟩ := h
  exact ⟨i, rfl, by rwa [List.getElem?_append_left hn] at hi, hop⟩

/-- An event that was already there is one of the first events. -/
theorem EventAt.mem_take (h : EventAt log n op v) {m : ℕ} (hm : n ≤ m) : v ∈ log.take m := by
  obtain ⟨i, rfl, hi, -⟩ := h
  exact List.mem_of_getElem? (by rwa [List.getElem?_take_of_lt hm])

end

/-! ### Known operations -/

section

variable {store : ClientStore} {s s' : Session}

theorem Calm.known {o o' : Option ClientRow} (h : Calm store o o')
    (h' : ∃ r, o' = some r ∧ r.expired = false) :
    (∃ r, o = some r ∧ r.expired = false) ∨ o = none := by
  obtain ⟨r', hr', hexpired⟩ := h'
  cases h with
  | absent => cases hr'
  | create => exact Or.inr rfl
  | keep hkept =>
    obtain rfl := Option.some.inj hr'
    exact Or.inl ⟨_, rfl, (hkept.snapshot hexpired).1⟩

theorem known_ingest {v : Json} {seq : Option ℤ} {expected : Option Uuid} {op : Uuid}
    (h : store.ingest v seq expected s = .ok ((), s')) (h' : s'.tables.Known op) :
    s.tables.Known op := by
  obtain ⟨op', -, -, -, -, -, u, e, hrows⟩ := acceptSnapshot_eq_ok (ingest_eq_ok h).2
  obtain ⟨r', hr', hexpired⟩ := h'
  rw [hrows op] at hr'
  split_ifs at hr'
  · obtain ⟨r, hr, rfl⟩ := Option.map_eq_some_iff.mp hr'
    refine ⟨r, hr, ?_⟩
    split_ifs at hexpired
    · exact hexpired
    · exact (merged_columns r v u e).2.2.1.symm.trans hexpired
  · exact ⟨r', hr', hexpired⟩

theorem known_startup {op : Uuid} (h : startup s = .ok ((), s')) (h' : s'.tables.Known op) :
    s.tables.Known op := by
  obtain ⟨r', hr', hexpired⟩ := h'
  rw [startup_rows h op] at hr'
  obtain ⟨r, hr, rfl⟩ := Option.map_eq_some_iff.mp hr'
  exact ⟨r, hr, ((kept_of_inbox (inbox_repairedRow r)).snapshot hexpired).1⟩

/-- What is known after a step was known before it, or was created by it. -/
theorem Daemon.Live.known {D D' : Daemon} (hstep : Daemon.Live store D D') {op : Uuid}
    (h : D'.tables.Known op) : D.tables.Known op ∨ D.tables.operation? op = none := by
  cases hstep with
  | work hwork => exact (hwork.calm op).known h
  | ingest hingest => exact Or.inl (known_ingest hingest h)
  | advance hadvance => exact (@rests_advance store _ _ op _ hadvance).calm.known h

/-- `recover` goes over every known operation. -/
theorem mem_ids {todo : List Uuid} (h : ids false s = .ok (todo, s')) {op : Uuid}
    (hop : s.tables.Known op) : op ∈ todo := by
  simp only [ids, Tx.bind_eq_ok, readTables_eq_ok, Tx.pure_eq_ok] at h
  obtain ⟨T, _, ⟨rfl, rfl⟩, hret⟩ := h
  obtain ⟨rfl, -⟩ := Prod.mk.inj hret
  obtain ⟨r, hr, hexpired⟩ := hop
  refine List.mem_map.mpr ⟨r, List.mem_filter.mpr ⟨Table.mem_of_lookup hr, ?_⟩, ?_⟩
  · simp [hexpired]
  · exact operationId_of_operation? hr

end

/-! ### The invariant -/

namespace Mirror

/-- Whether the events of an operation between the cursor and `w` are accounted for. -/
def Settled (M : Mirror) (w : ℕ) (op : Uuid) : Prop :=
  ∀ n v, EventAt M.log n op v → M.cursor < n → n ≤ w →
    ∃ v' readAt, .read op v' readAt M.cursor ∈ M.passed ∧ n ≤ readAt

/-- Whether every known operation is on the list or settled. -/
def Recovering (M : Mirror) (w : ℕ) (todo : List Uuid) : Prop :=
  w ≤ M.log.length ∧ ∀ op, M.tables.Known op → op ∈ todo ∨ M.Settled w op

/-- What holds of the reader. -/
def ReaderOk (M : Mirror) : Prop :=
  match M.reader with
  | .idle => True
  | .streaming pos => pos ≤ M.cursor
  | .gapped w => w ≤ M.log.length
  | .recovering w todo => M.Recovering w todo
  | .asking w op todo => M.Recovering w (op :: todo)
  | .answered w op todo reply readAt => M.Recovering w (op :: todo) ∧ w ≤ readAt ∧
      readAt ≤ M.log.length ∧ (reply = none → ∀ v ∈ M.log.take readAt, operationOf v ≠ some op)

/-- Behind the cursor every event of a known operation is accounted for. -/
structure Inv (M : Mirror) : Prop where
  bounded : M.cursor ≤ M.log.length
  covered : ∀ op, M.tables.Known op → ∀ n v, EventAt M.log n op v → n ≤ M.cursor →
    Covered M.passed n op v
  reader : M.ReaderOk

theorem inv_initial : initial.Inv where
  bounded := le_rfl
  covered _ h := by
    obtain ⟨r, hr, -⟩ := h
    cases hr
  reader := trivial

variable {store : ClientStore} {M M' : Mirror}

/-- Growing the log, and recording more, keeps the list of a recovery, if what is known was known
or has no event. -/
theorem Recovering.mono {w : ℕ} {todo : List Uuid} (h : M.Recovering w todo)
    (hcursor : M'.cursor = M.cursor) (hlength : M.log.length ≤ M'.log.length)
    (hlog : ∀ n op v, EventAt M'.log n op v → n ≤ M.log.length → EventAt M.log n op v)
    (hpassed : ∀ p ∈ M.passed, p ∈ M'.passed)
    (hknown : ∀ op, M'.tables.Known op → M.tables.Known op ∨ ∀ v ∈ M.log, operationOf v ≠ some op) :
    M'.Recovering w todo := by
  refine ⟨h.1.trans hlength, fun op hop => ?_⟩
  obtain hop | hnone := hknown op hop
  · refine (h.2 op hop).imp_right fun hsettled n v hv hlt hn => ?_
    obtain ⟨v', readAt, hmem, hle⟩ :=
      hsettled n v (hlog n op v hv (hn.trans h.1)) (hcursor ▸ hlt) hn
    exact ⟨v', readAt, hpassed _ (hcursor ▸ hmem), hle⟩
  · refine Or.inr fun n v hv _ hn => ?_
    obtain ⟨hmem, hv'⟩ := (hlog n op v hv (hn.trans h.1)).mem
    exact absurd hv' (hnone v hmem)

/-- The same for the reader, wherever it is. -/
theorem ReaderOk.mono (h : M.ReaderOk) (hreader : M'.reader = M.reader)
    (hcursor : M'.cursor = M.cursor) (hlength : M.log.length ≤ M'.log.length)
    (hlog : ∀ n op v, EventAt M'.log n op v → n ≤ M.log.length → EventAt M.log n op v)
    (htake : ∀ m ≤ M.log.length, M'.log.take m = M.log.take m)
    (hpassed : ∀ p ∈ M.passed, p ∈ M'.passed)
    (hknown : ∀ op, M'.tables.Known op → M.tables.Known op ∨ ∀ v ∈ M.log, operationOf v ≠ some op) :
    M'.ReaderOk := by
  unfold ReaderOk at h ⊢
  rw [hreader]
  cases hr : M.reader with
  | idle => trivial
  | streaming pos =>
    rw [hr] at h
    exact h.trans_eq hcursor.symm
  | gapped w =>
    rw [hr] at h
    exact h.trans hlength
  | recovering w todo =>
    rw [hr] at h
    exact h.mono hcursor hlength hlog hpassed hknown
  | asking w op todo =>
    rw [hr] at h
    exact h.mono hcursor hlength hlog hpassed hknown
  | answered w op todo reply readAt =>
    rw [hr] at h
    obtain ⟨hrec, hw, hle, hmissing⟩ := h
    exact ⟨hrec.mono hcursor hlength hlog hpassed hknown, hw, hle.trans hlength, fun hnone => by
      rw [htake readAt hle]
      exact hmissing hnone⟩

theorem Inv.append (h : M.Inv) (v : Json) : ({ M with log := M.log ++ [v] } : Mirror).Inv := by
  have hlength : M.log.length ≤ (M.log ++ [v]).length := by simp
  constructor
  · exact h.bounded.trans hlength
  · intro op hop n v' hv' hn
    exact h.covered op hop n v' (hv'.of_append (hn.trans h.bounded)) hn
  · refine h.reader.mono rfl rfl hlength (fun n op v' hv' hn => hv'.of_append hn) (fun m hm => ?_)
      (fun p hp => hp) fun op hop => Or.inl hop
    exact List.take_append_of_le_length hm

/-- A step of another coroutine. -/
theorem Inv.other (h : M.Inv) {D : Daemon} (hcursor : D.tables.cursor = M.cursor)
    (hknown : ∀ op, D.tables.Known op → M.tables.Known op ∨ ∀ v ∈ M.log, operationOf v ≠ some op) :
    ({ M with daemon := D } : Mirror).Inv := by
  constructor
  · exact hcursor.trans_le h.bounded
  · intro op hop n v hv hn
    obtain hop | hnone := hknown op hop
    · exact h.covered op hop n v hv (hcursor ▸ hn)
    · obtain ⟨hmem, hv'⟩ := hv.mem
      exact absurd hv' (hnone v hmem)
  · exact h.reader.mono rfl hcursor le_rfl (fun _ _ _ hv _ => hv) (fun _ _ => rfl) (fun _ hp => hp)
      hknown

/-- A step that only moves the reader. -/
theorem Inv.setReader (h : M.Inv) {reader : Reader}
    (hreader : ({ M with reader := reader } : Mirror).ReaderOk) :
    ({ M with reader := reader } : Mirror).Inv :=
  ⟨h.bounded, h.covered, hreader⟩

theorem cursor_ingest {v : Json} {seq : Option ℤ} {expected : Option Uuid} {s s' : Session}
    (h : store.ingest v seq expected s = .ok ((), s')) :
    s'.tables.cursor = advanced s.tables.cursor seq := by
  obtain ⟨op, -, -, -, hcursor, -⟩ := acceptSnapshot_eq_ok (ingest_eq_ok h).2
  exact hcursor

/-- An event is ingested: since the events come without holes, it is the one right after the
cursor. -/
theorem Inv.event (h : M.Inv) {pos i : ℕ} {v : Json} {clock : ℕ → Time} {uuids : ℕ → Uuid}
    {s' : Session} (hreader : M.reader = .streaming pos) (hn : i + 1 ≤ pos + 1)
    (hv : M.log[i]? = some v) (hnew : M.cursor < i + 1)
    (hingest : store.ingest v (some (i + 1 : ℕ)) none ⟨M.tables, clock, uuids⟩ = .ok ((), s')) :
    ({ M.setTables s'.tables with
      reader := .streaming (max pos (i + 1))
      passed := M.passed ++ [.event (i + 1) v M.cursor s'.tables.cursor] } : Mirror).Inv := by
  have hpos : pos ≤ M.cursor := by
    have := h.reader
    rwa [ReaderOk, hreader] at this
  have hi : i < M.log.length := (List.getElem?_eq_some_iff.mp hv).1
  have hcursor : s'.tables.cursor = i + 1 := by
    rw [cursor_ingest hingest]
    exact max_eq_right hnew.le
  constructor
  · exact hcursor.trans_le hi
  · intro op hop n v' hv' hle
    have hle' : n ≤ i + 1 := hcursor ▸ hle
    obtain hold | hnew' := le_or_gt n M.cursor
    · exact (h.covered op (known_ingest hingest hop) n v' hv' hold).mono
    · obtain rfl : n = i + 1 := by omega
      obtain ⟨j, hj, hv', -⟩ := hv'
      obtain rfl : i = j := Nat.succ.inj hj
      obtain rfl : v = v' := Option.some.inj (hv.symm.trans hv')
      exact Or.inl
        ⟨M.cursor, s'.tables.cursor, List.mem_append_right _ (List.mem_singleton.mpr rfl),
        hnew, hcursor.ge⟩
  · exact (max_le (hpos.trans hnew.le) le_rfl).trans_eq hcursor.symm

/-- An operation that was read, or was found to be missing, is settled. -/
theorem Recovering.tail {w : ℕ} {op : Uuid} {todo : List Uuid} (h : M.Recovering w (op :: todo))
    (hop : M.Settled w op) : M.Recovering w todo := by
  refine ⟨h.1, fun op' hknown => ?_⟩
  obtain hmem | hsettled := h.2 op' hknown
  · obtain rfl | hmem := List.mem_cons.mp hmem
    · exact Or.inr hop
    · exact Or.inl hmem
  · exact Or.inr hsettled

/-- What was read is ingested. -/
theorem Inv.refresh (h : M.Inv) {w readAt : ℕ} {op : Uuid} {todo : List Uuid} {v : Json}
    {clock : ℕ → Time} {uuids : ℕ → Uuid} {s' : Session}
    (hreader : M.reader = .answered w op todo (some v) readAt)
    (hingest : store.ingest v none (some op) ⟨M.tables, clock, uuids⟩ = .ok ((), s')) :
    ({ M.setTables s'.tables with
      reader := .recovering w todo
      passed := M.passed ++ [.read op v readAt M.cursor] } : Mirror).Inv := by
  have hcursor : s'.tables.cursor = M.cursor := cursor_ingest hingest
  have hok := h.reader
  rw [ReaderOk, hreader] at hok
  obtain ⟨hrec, hw, -, -⟩ := hok
  constructor
  · exact hcursor.trans_le h.bounded
  · intro op' hop n v' hv' hle
    exact (h.covered op' (known_ingest hingest hop) n v' hv' (hcursor ▸ hle)).mono
  · refine @Recovering.tail _ w op todo ?_ fun n v' _ _ hn => ⟨v, readAt, ?_, hn.trans hw⟩
    · exact hrec.mono hcursor le_rfl (fun _ _ _ hv _ => hv)
        (fun _ hp => List.mem_append_left _ hp) fun _ hop => Or.inl (known_ingest hingest hop)
    exact List.mem_append_right _ (List.mem_singleton.mpr (congrArg _ hcursor))

/-- The recovery is over: every known operation is settled up to the new cursor. -/
theorem Inv.advance (h : M.Inv) {w : ℕ} {clock : ℕ → Time} {uuids : ℕ → Uuid} {s' : Session}
    (hreader : M.reader = .recovering w [])
    (hadvance : ClientStore.advance w ⟨M.tables, clock, uuids⟩ = .ok ((), s')) :
    ({ M.setTables s'.tables with reader := .idle } : Mirror).Inv := by
  have hok := h.reader
  rw [ReaderOk, hreader] at hok
  have htables : s'.tables = M.tables.raise w := advance_eq_ok hadvance
  have hcursor : s'.tables.cursor = max M.cursor w := congrArg Tables.cursor htables
  constructor
  · exact hcursor.trans_le (max_le h.bounded hok.1)
  · intro op hop n v hv hle
    have hknown : M.tables.Known op := by
      change s'.tables.Known op at hop
      rwa [htables] at hop
    obtain hold | hnew := le_or_gt n M.cursor
    · exact h.covered op hknown n v hv hold
    · have hn : n ≤ w := (le_max_iff.mp (hcursor ▸ hle)).resolve_left (not_le.mpr hnew)
      obtain hmem | hsettled := hok.2 op hknown
      · cases hmem
      · obtain ⟨v', readAt, hmem, hreadAt⟩ := hsettled n v hv hnew hn
        exact Or.inr ⟨v', readAt, M.cursor, hmem, hreadAt, hnew⟩
  · trivial

/-- Every step keeps the invariant. -/
theorem Step.inv (hstep : Step store M M') (h : M.Inv) : M'.Inv := by
  have hok := h.reader
  cases hstep with
  | append => exact h.append _
  | other hlive hcursor hfresh =>
    refine h.other hcursor fun op hop => ?_
    obtain hknown | hnone := hlive.known hop
    · exact Or.inl hknown
    · obtain ⟨r, hr, -⟩ := hop
      exact Or.inr (hfresh op hnone (by rw [hr]; exact Option.some_ne_none r))
  | connect => exact h.setReader le_rfl
  | skip hreader hn hpassed =>
    rw [ReaderOk, hreader] at hok
    exact h.setReader (max_le hok hpassed)
  | event hreader hn hv hnew hingest => exact h.event hreader hn hv hnew hingest
  | gap => exact h.setReader le_rfl
  | recover hreader hids =>
    rw [ReaderOk, hreader] at hok
    exact h.setReader ⟨hok, fun op hop => Or.inl (mem_ids hids hop)⟩
  | ask hreader =>
    rw [ReaderOk, hreader] at hok
    exact h.setReader hok
  | answer hreader hmissing =>
    rw [ReaderOk, hreader] at hok
    refine h.setReader ⟨hok, hok.1, le_rfl, fun hnone => ?_⟩
    rw [List.take_length]
    exact hmissing hnone
  | missing hreader =>
    rw [ReaderOk, hreader] at hok
    obtain ⟨hrec, hw, -, hnone⟩ := hok
    refine h.setReader (Recovering.tail hrec fun n v hv _ hn => ?_)
    exact absurd hv.mem.2 (hnone rfl v (hv.mem_take (hn.trans hw)))
  | refresh hreader hingest => exact h.refresh hreader hingest
  | advance hreader hadvance => exact h.advance hreader hadvance
  | disconnect => exact h.setReader trivial
  | @restart supported _ _ s' hstartup =>
    have hother := h.other (D := ⟨s'.tables, .idle, supported, [], M.daemon.frames⟩)
      (startup_eq_ok hstartup).2 fun op hop => Or.inl (known_startup hstartup hop)
    exact ⟨hother.bounded, hother.covered, trivial⟩

/-- No step moves the cursor back. -/
theorem Step.cursor_le (hstep : Step store M M') : M.cursor ≤ M'.cursor := by
  cases hstep with
  | other _ hcursor _ => exact hcursor.ge
  | event _ _ _ _ hingest => exact (le_advanced _ _).trans_eq (cursor_ingest hingest).symm
  | refresh _ hingest => exact (cursor_ingest hingest).ge
  | advance _ hadvance =>
    exact (le_max_left _ _).trans_eq (congrArg Tables.cursor (advance_eq_ok hadvance)).symm
  | restart hstartup => exact (startup_eq_ok hstartup).2.ge
  | append | connect | skip | gap | recover | ask | answer | missing | disconnect => exact le_rfl

theorem Run.inv (hrun : Run store M M') (h : M.Inv) : M'.Inv := by
  induction hrun with
  | refl => exact h
  | tail _ hstep ih => exact hstep.inv ih

theorem Run.cursor_le (hrun : Run store M M') : M.cursor ≤ M'.cursor := by
  induction hrun with
  | refl => exact le_rfl
  | tail _ hstep ih => exact ih.trans hstep.cursor_le

end Mirror

/-- The cursor never goes back, and behind it every event of a known operation was ingested, or
was in the log when the operation was read for a recovery. -/
theorem cursor_skips_nothing {store : ClientStore} {M : Mirror}
    (h : Mirror.Run store Mirror.initial M) :
    (∀ M', Mirror.Run store M M' → M.cursor ≤ M'.cursor) ∧
      ∀ op, M.tables.Known op → ∀ n v, EventAt M.log n op v → n ≤ M.cursor →
        Covered M.passed n op v :=
  ⟨fun _ => Mirror.Run.cursor_le, (Mirror.Run.inv h Mirror.inv_initial).covered⟩

/-- The snapshot of an operation that was accepted. -/
def acceptedSnapshot (op flow : Uuid) : Snapshot :=
  ⟨op, flow, .accepted, none, none, none, none, 5, 5⟩

/-- One event comes over the stream, and the next one is lost in a gap and made up for. -/
theorem cursor_skips_nothing_gap :
    ∃ M : Mirror, Mirror.Run ⟨ClientSettings.default, fun _ => ""⟩ Mirror.initial M ∧
      M.cursor = 2 ∧
      M.log = [(acceptedSnapshot 10 11).toJson, (completedSnapshot 10 11 30).toJson] ∧
      M.tables.Known 10 ∧ Covered M.passed 1 10 (acceptedSnapshot 10 11).toJson ∧
      Covered M.passed 2 10 (completedSnapshot 10 11 30).toJson := by
  let store : ClientStore := ⟨ClientSettings.default, fun _ => ""⟩
  let v := (acceptedSnapshot 10 11).toJson
  let v' := (completedSnapshot 10 11 30).toJson
  have hruns : (Tx.succeeds (store.perform (.create ⟨1, 2, "a"⟩ "p" [] 0)
      ⟨Tables.empty, fun _ => 5, fun n => if n = 0 then 10 else 11⟩) fun _ s₁ =>
    Tx.succeeds (store.ingest v (some (0 + 1 : ℕ)) none
        ⟨s₁.tables, fun _ => 6, fun _ => 0⟩) fun _ s₂ =>
    Tx.succeeds (ids false ⟨s₂.tables, fun _ => 7, fun _ => 0⟩) fun todo _ =>
      decide (todo = [10]) &&
    Tx.succeeds (store.ingest v' none (some 10) ⟨s₂.tables, fun _ => 7, fun _ => 0⟩) fun _ s₃ =>
    Tx.succeeds (ClientStore.advance (2 : ℕ) ⟨s₃.tables, fun _ => 7, fun _ => 0⟩) fun _ s₄ =>
      decide (s₁.tables.cursor = 0) &&
      decide (s₄.tables.cursor = 2) &&
      decide ((s₄.tables.operation? 10).map ClientRow.expired = some false)) = true := by
    decide +kernel
  obtain ⟨_, s₁, h₁, hruns⟩ := Tx.exists_of_succeeds hruns
  obtain ⟨_, s₂, h₂, hruns⟩ := Tx.exists_of_succeeds hruns
  obtain ⟨todo, _, hids, hruns⟩ := Tx.exists_of_succeeds hruns
  rw [Bool.and_eq_true, decide_eq_true_eq] at hruns
  obtain ⟨rfl, hruns⟩ := hruns
  obtain ⟨_, s₃, h₃, hruns⟩ := Tx.exists_of_succeeds hruns
  obtain ⟨_, s₄, h₄, hruns⟩ := Tx.exists_of_succeeds hruns
  simp only [Bool.and_eq_true, decide_eq_true_eq] at hruns
  obtain ⟨⟨hcursor₁, hcursor⟩, hknown⟩ := hruns
  have hstart : Mirror.Run store Mirror.initial
      ⟨⟨s₁.tables, .idle, false, [], []⟩, .streaming s₁.tables.cursor, [v], []⟩ :=
    ((Relation.ReflTransGen.single
      (Mirror.Step.other (.work (.call h₁)) hcursor₁ fun _ _ _ _ hmem =>
        absurd hmem List.not_mem_nil)).tail
      .append).tail (.connect rfl)
  have hstream : Mirror.Run store Mirror.initial
      ⟨⟨s₂.tables, .idle, false, [], []⟩, .idle, [v, v'],
        [.event 1 v s₁.tables.cursor s₂.tables.cursor]⟩ :=
    ((hstart.tail (@Mirror.Step.event store _ _ 0 v _ _ _ rfl (Nat.le_add_left 1 _) rfl
      (hcursor₁.trans_lt Nat.one_pos) h₂)).tail .append).tail .disconnect
  have hrecover := ((((hstream.tail (.gap rfl)).tail (.recover rfl hids)).tail (.ask rfl)).tail
    (@Mirror.Step.answer store _ _ _ _ (some v') rfl fun hnone =>
      absurd hnone (Option.some_ne_none _)))
  have hrun := (hrecover.tail (.refresh rfl h₃)).tail (.advance rfl h₄)
  obtain ⟨r, hr, hexpired⟩ := Option.map_eq_some_iff.mp hknown
  have hcovered := (cursor_skips_nothing hrun).2 10 ⟨r, hr, hexpired⟩
  exact ⟨_, hrun, hcursor, rfl, ⟨r, hr, hexpired⟩,
    hcovered 1 v ⟨0, rfl, rfl, by decide +kernel⟩ ((by decide : 1 ≤ 2).trans hcursor.ge),
    hcovered 2 v' ⟨1, rfl, rfl, by decide +kernel⟩ hcursor.ge⟩

end HermesGateway.Client
