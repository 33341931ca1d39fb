import HermesGateway.Broker.Runs

/-!
# The life of an operation on the event stream

What the events of one operation, taken together, look like: one `accepted` event first, states
that only go up, identifiers that are written once, and nothing after a definitive state. Streams,
cancellations, reads, shutdown and recovery all race to write the row, but each of them makes
disciplined moves, and the life of a row by disciplined moves has that shape.

## Main definitions

* `OpState.rank` — the order of the states
* `Lifecycle` — the shape of the snapshots published for an operation
* `Course` — the same with the row they lead to, which is what a step preserves

## Main results

* `KeyStep.course` — one step of the row keeps the shape
* `lifecycle_of_reachable` — the events of every operation of a reachable broker have it
-/

namespace HermesGateway

/-- The order accepted < running < outcome_unknown < {completed, failed, canceled}. -/
def OpState.rank : OpState → ℕ
  | accepted => 0
  | running => 1
  | outcomeUnknown => 2
  | completed | failed | canceled => 3

/-! ### Values written once -/

section Latched

variable {α β : Type*} {p : α → Option β} {xs : List α} {v v' : Option β}

/-- Along the list `p` is nothing up to some point, and `v` from there on. -/
def Latched (p : α → Option β) (xs : List α) (v : Option β) : Prop :=
  ∃ before after, xs = before ++ after ∧ (∀ x ∈ before, p x = none) ∧ (∀ x ∈ after, p x = v) ∧
    (v = none → after = [])

theorem Latched.nil : Latched p [] none := ⟨[], [], rfl, by simp, by simp, fun _ => rfl⟩

/-- One more entry: the value is the one there was, if there was one. -/
theorem Latched.snoc (h : Latched p xs v) {x : α} (hx : p x = v') (hv : v = none ∨ v' = v) :
    Latched p (xs ++ [x]) v' := by
  obtain ⟨before, after, rfl, hbefore, hafter, hnone⟩ := h
  have hxs : ∀ w, p x = w → ∀ y ∈ [x], p y = w := by
    rintro w hw y hy
    rw [List.mem_singleton.mp hy, hw]
  by_cases hv' : v' = none
  · have hall : ∀ y ∈ before ++ after ++ [x], p y = none := by
      have hold : v = none := hv.elim id fun h => h ▸ hv'
      rw [hnone hold, List.append_nil]
      intro y hy
      exact (List.mem_append.mp hy).elim (hbefore y) (hxs none (hx.trans hv') y)
    exact ⟨before ++ after ++ [x], [], by simp, hall, by simp, fun _ => rfl⟩
  · refine ⟨before, after ++ [x], by simp, hbefore, ?_, fun h => absurd h hv'⟩
    intro y hy
    rcases List.mem_append.mp hy with hy | hy
    · rcases hv with rfl | rfl
      · rw [hnone rfl] at hy
        exact absurd hy List.not_mem_nil
      · exact hafter y hy
    · exact hxs v' hx y hy

end Latched

namespace Broker

open BrokerStore

/-! ### The shape of a life -/

/-- The shape of the snapshots published for an operation, in order. -/
structure Lifecycle (ss : List Snapshot) : Prop where
  /-- The first event is `accepted`, and no other is. -/
  accepted : ∃ first rest, ss = first :: rest ∧ first.state = .accepted ∧
    ∀ s ∈ rest, s.state ≠ .accepted
  /-- The states never go down. -/
  ordered : ss.Pairwise fun a b => a.state.rank ≤ b.state.rank
  /-- Nothing follows a definitive state. -/
  definitive : ∀ before s after, ss = before ++ s :: after → s.state.Final → after = []
  /-- The result identifier is written with the first unknown or definitive state. -/
  resultId : ∃ before after id, ss = before ++ after ∧
    (∀ s ∈ before, ¬ s.state.Terminal ∧ s.resultId = none) ∧
    ∀ s ∈ after, s.state.Terminal ∧ s.resultId = some id
  /-- The handle is written once. -/
  remoteTaskId : ∃ before after handle, ss = before ++ after ∧
    (∀ s ∈ before, s.remoteTaskId = none) ∧ ∀ s ∈ after, s.remoteTaskId = some handle
  /-- The rest of the identity never changes. -/
  constant : ∀ s ∈ ss, ∀ s' ∈ ss, s.operationId = s'.operationId ∧ s.flowId = s'.flowId ∧
    s.createdAt = s'.createdAt

/-- The snapshots published for an operation, and the row they have led to. -/
structure Course (ss : List Snapshot) (r : OperationRow) : Prop where
  accepted : ∃ first rest, ss = first :: rest ∧ first.state = .accepted ∧
    ∀ s ∈ rest, s.state ≠ .accepted
  ordered : ss.Pairwise fun a b => a.state.rank ≤ b.state.rank
  below : ∀ s ∈ ss, s.state.rank ≤ r.state.rank
  definitive : ∀ before s after, ss = before ++ s :: after → s.state.Final →
    after = [] ∧ r.state.Final
  resultId : Latched Snapshot.resultId ss r.resultId
  terminal : ∀ s ∈ ss, s.state.Terminal ↔ s.resultId ≠ none
  resolved : r.state.Terminal ↔ r.resultId ≠ none
  remoteTaskId : Latched Snapshot.remoteTaskId ss r.remoteTaskId
  handle : r.remoteTaskId ≠ some ""
  constant : ∀ s ∈ ss, s.operationId = r.operationId ∧ s.flowId = r.flowId ∧
    s.createdAt = r.createdAt

/-- What the broker knows of an edit, whatever the rest of the ledger is. -/
def KnownOf (late : Prop) (r : OperationRow) (e : Edit) : Prop := ∃ L, Known late L r e

section

variable {R : Time → Time → Prop} {late : Prop} {ss : List Snapshot} {r : OperationRow}

/-- What an edit does to the columns a course is about. -/
structure Edit.Progress (r r' : OperationRow) : Prop where
  live : ¬ r.state.Final
  left : r'.state ≠ .accepted
  up : r.state.rank ≤ r'.state.rank
  resultId : r.resultId = none ∨ r'.resultId = r.resultId
  resolved : r'.state.Terminal ↔ r'.resultId ≠ none
  remoteTaskId : r.remoteTaskId = none ∨ r'.remoteTaskId = r.remoteTaskId
  handle : r'.remoteTaskId ≠ some ""
  constant : r'.operationId = r.operationId ∧ r'.flowId = r.flowId ∧ r'.createdAt = r.createdAt

theorem rank_le_of_terminal {s s' : OpState} (h : ¬ s.Final) (h' : s'.Terminal) :
    s.rank ≤ s'.rank := by
  revert h h'
  cases s <;> cases s' <;> decide

theorem Edit.progress {e : Edit} (hallowed : e.Allowed r) (hknown : KnownOf late r e)
    (hresolved : r.state.Terminal ↔ r.resultId ≠ none) (hhandle : r.remoteTaskId ≠ some "") :
    Edit.Progress r (e.row r) := by
  obtain ⟨L, hknown, -⟩ := hknown
  cases e with
  | claim claimedAt now =>
    have haccepted : r.state = .accepted := hallowed
    have hnone : r.resultId = none := by
      by_contra hne
      exact absurd (haccepted ▸ hresolved.mpr hne) (by decide)
    refine ⟨by rw [haccepted]; decide, by simp [Edit.row, claimedRow],
      by rw [haccepted]; exact Nat.zero_le 1,
      .inl hnone, ?_, .inr rfl, hhandle, rfl, rfl, rfl⟩
    exact ⟨fun h => absurd h (by simp [Edit.row, claimedRow]; decide), fun h => absurd hnone h⟩
  | finish state result code message expires fresh now =>
    obtain ⟨hlive, hterminal, -⟩ := hallowed
    have hid : (r.resultId <|> some fresh) ≠ none := by
      cases r.resultId <;> simp
    refine ⟨hlive, ne_accepted_of_terminal hterminal, rank_le_of_terminal hlive hterminal, ?_,
      ⟨fun _ => hid, fun _ => hterminal⟩, .inr rfl, hhandle, rfl, rfl, rfl⟩
    change r.resultId = none ∨ (r.resultId <|> some fresh) = r.resultId
    cases r.resultId <;> simp
  | handle handle now =>
    obtain ⟨hlive, hnone, hne⟩ := hallowed
    refine ⟨hlive, hknown, le_rfl, .inr rfl, hresolved, .inl (hnone.resolve_right hhandle), ?_,
      rfl, rfl, rfl⟩
    simpa [Edit.row, handledRow] using hne
  | cancel now =>
    obtain ⟨hactive, -⟩ := hallowed
    refine ⟨?_, ?_, le_rfl, .inr rfl, hresolved, .inr rfl, hhandle, rfl, rfl, rfl⟩
    · rcases hactive with h | h <;> rw [h] <;> decide
    · change r.state ≠ .accepted
      rcases hactive with h | h <;> rw [h] <;> decide

/-- Nothing that was published before a row is final is definitive. -/
theorem Course.live (h : Course ss r) (hlive : ¬ r.state.Final) : ∀ s ∈ ss, ¬ s.state.Final := by
  intro s hs hfinal
  obtain ⟨before, after, rfl⟩ := List.append_of_mem hs
  exact hlive (h.definitive before s after rfl hfinal).2

/-- A published edit keeps the course. -/
theorem Course.publish {r' : OperationRow} {t₁ t₂ : Time} (h : Course ss r)
    (hp : Edit.Progress r r') : Course (ss ++ [render r' t₁ t₂]) r' where
  accepted := by
    obtain ⟨first, rest, rfl, hfirst, hrest⟩ := h.accepted
    refine ⟨first, rest ++ [render r' t₁ t₂], rfl, hfirst, fun s hs => ?_⟩
    rcases List.mem_append.mp hs with hs | hs
    · exact hrest s hs
    · rw [List.mem_singleton.mp hs]
      exact hp.left
  ordered := by
    rw [List.pairwise_append]
    refine ⟨h.ordered, List.pairwise_singleton _ _, fun a ha b hb => ?_⟩
    rw [List.mem_singleton.mp hb]
    exact (h.below a ha).trans hp.up
  below := by
    intro s hs
    rcases List.mem_append.mp hs with hs | hs
    · exact (h.below s hs).trans hp.up
    · rw [List.mem_singleton.mp hs]
      rfl
  definitive := by
    intro before s after heq hfinal
    rcases List.eq_nil_or_concat after with rfl | ⟨init, last, rfl⟩
    · obtain ⟨-, hlast⟩ := List.append_inj' heq rfl
      rw [← List.head_eq_of_cons_eq hlast] at hfinal
      exact ⟨rfl, hfinal⟩
    · -- a definitive snapshot before the last one was there before
      rw [List.concat_eq_append, ← List.cons_append, ← List.append_assoc] at heq
      obtain ⟨hss, -⟩ := List.append_inj' heq rfl
      exact absurd hfinal (h.live hp.live s (by simp [hss]))
  resultId := h.resultId.snoc rfl hp.resultId
  terminal := by
    intro s hs
    rcases List.mem_append.mp hs with hs | hs
    · exact h.terminal s hs
    · rw [List.mem_singleton.mp hs]
      exact hp.resolved
  resolved := hp.resolved
  remoteTaskId := h.remoteTaskId.snoc rfl hp.remoteTaskId
  handle := hp.handle
  constant := by
    obtain ⟨hop, hflow, hcreated⟩ := hp.constant
    intro s hs
    rcases List.mem_append.mp hs with hs | hs
    · rw [hop, hflow, hcreated]
      exact h.constant s hs
    · rw [List.mem_singleton.mp hs]
      exact ⟨rfl, rfl, rfl⟩

/-- A quiet change of a column the course is not about. -/
theorem Course.congr {r' : OperationRow} (h : Course ss r) (hstate : r'.state = r.state)
    (hresult : r'.resultId = r.resultId) (hhandle : r'.remoteTaskId = r.remoteTaskId)
    (hop : r'.operationId = r.operationId) (hflow : r'.flowId = r.flowId)
    (hcreated : r'.createdAt = r.createdAt) : Course ss r' := by
  obtain ⟨accepted, ordered, below, definitive, resultId, terminal, resolved, remoteTaskId, handle,
    constant⟩ := h
  rw [← hstate] at below definitive resolved
  rw [← hresult] at resultId resolved
  rw [← hhandle] at remoteTaskId handle
  rw [← hop, ← hflow, ← hcreated] at constant
  exact ⟨accepted, ordered, below, definitive, resultId, terminal, resolved, remoteTaskId, handle,
    constant⟩

/-- Before an operation there is nothing, and then there is its course. -/
def CourseOf (ss : List Snapshot) : Option OperationRow → Prop
  | none => ss = []
  | some r => Course ss r

/-- **One step keeps the course of an operation.** -/
theorem KeyStep.course {k : Key} {o o' : Option OperationRow} {new : List Snapshot}
    (hstep : KeyStep R (KnownOf late) k o new o') (h : CourseOf ss o) :
      CourseOf (ss ++ new) o' := by
  cases hstep with
  | same => simpa using h
  | @insert request digest now t₁ t₂ hop hread =>
    obtain rfl : ss = [] := h
    exact
      { accepted := ⟨_, [], rfl, rfl, by simp⟩
        ordered := by simp
        below := by simp [render]
        definitive := by
          intro before s after heq hfinal
          have hs : s ∈ [render (acceptedRow k.1 request digest now) t₁ t₂] := by
            rw [List.nil_append] at heq
            rw [heq]
            simp
          rw [List.mem_singleton.mp hs] at hfinal
          exact absurd hfinal (by simp [render, acceptedRow]; decide)
        resultId := Latched.nil.snoc rfl (.inl rfl)
        terminal := by
          intro s hs
          rw [List.mem_singleton.mp hs]
          simp [render, acceptedRow]
          decide
        resolved := by simp [acceptedRow]; decide
        remoteTaskId := Latched.nil.snoc rfl (.inl rfl)
        handle := by simp [acceptedRow]
        constant := by
          intro s hs
          rw [List.mem_singleton.mp hs]
          exact ⟨rfl, rfl, rfl⟩ }
  | @edit r e t₁ t₂ hkey hallowed hknown hread =>
    have hc : Course ss r := h
    exact hc.publish (Edit.progress hallowed hknown hc.resolved hc.handle)
  | @poll r now =>
    rw [List.append_nil]
    exact Course.congr h rfl rfl rfl rfl rfl rfl
  | @cancelClaim r hwanted =>
    rw [List.append_nil]
    exact Course.congr h rfl rfl rfl rfl rfl rfl
  | @purge r now hread =>
    rw [List.append_nil]
    obtain ⟨x, hx⟩ := purgedRow_eq now r
    rw [hx]
    exact Course.congr h rfl rfl rfl rfl rfl rfl

/-- The course of a whole life. -/
theorem Life.course {k : Key} {o : Option OperationRow} (h : Life R (KnownOf late) k ss o) :
    CourseOf ss o :=
  Trace.labels (I := CourseOf) (fun hI hstep => hstep.course hI) h rfl

/-- A course has the shape. -/
theorem Course.lifecycle (h : Course ss r) : Lifecycle ss where
  accepted := h.accepted
  ordered := h.ordered
  definitive before s after heq hfinal := (h.definitive before s after heq hfinal).1
  resultId := by
    have hterm := h.terminal
    obtain ⟨before, after, rfl, hbefore, hafter, hnone⟩ := h.resultId
    cases hr : r.resultId with
    | none =>
      obtain rfl := hnone hr
      refine ⟨before, [], 0, rfl, fun s hs => ⟨?_, hbefore s hs⟩, by simp⟩
      rw [hterm s (List.mem_append_left _ hs)]
      exact fun hne => hne (hbefore s hs)
    | some id =>
      rw [hr] at hafter
      refine ⟨before, after, id, rfl, fun s hs => ⟨?_, hbefore s hs⟩, fun s hs => ⟨?_, hafter s hs⟩⟩
      · rw [hterm s (List.mem_append_left _ hs)]
        exact fun hne => hne (hbefore s hs)
      · rw [hterm s (List.mem_append_right _ hs), hafter s hs]
        simp
  remoteTaskId := by
    obtain ⟨before, after, rfl, hbefore, hafter, hnone⟩ := h.remoteTaskId
    cases hr : r.remoteTaskId with
    | none =>
      refine ⟨before, after, "", rfl, hbefore, ?_⟩
      rw [hnone hr]
      simp
    | some handle => exact ⟨before, after, handle, rfl, hbefore, hr ▸ hafter⟩
  constant s hs s' hs' := by
    obtain ⟨hop, hflow, hcreated⟩ := h.constant s hs
    obtain ⟨hop', hflow', hcreated'⟩ := h.constant s' hs'
    exact ⟨hop.trans hop'.symm, hflow.trans hflow'.symm, hcreated.trans hcreated'.symm⟩

end

/-! ### Every run -/

/-- Every operation of a reachable broker has a disciplined life. -/
theorem Process.life_of_reachable {disp : BrokerDispatcher} {B : Process}
    (h : Process.Reachable disp B) (k : Key) :
    Life (fun _ _ => True) (KnownOf True) k (B.ledger.published k) (B.ledger.operation? k) := by
  obtain ⟨-, ks, hmoves⟩ := Process.moves_of_run Process.inv_initial h
  exact life_of_trace (fun L _ _ hknown => ⟨L, hknown⟩) hmoves k

/-- The events ever appended for an operation. -/
def Ledger.eventsFor (L : Ledger) (k : Key) : List EventRow := L.history.filter fun e => e.key = k

/-- The events of an operation are numbered upwards in the order they were appended. -/
theorem Log.eventsFor_ordered {L : Ledger} (h : Log L) (k : Key) :
    (L.eventsFor k).Pairwise fun a b => a.sequence < b.sequence := by
  have hsub : (L.eventsFor k).Sublist (L.historyOf k.1) := by
    have hfilter : L.eventsFor k = (L.historyOf k.1).filter fun e => e.key = k := by
      rw [Ledger.eventsFor, Ledger.historyOf, List.filter_filter]
      refine List.filter_congr fun e _ => ?_
      by_cases he : e.key = k
      · simp [← he, EventRow.key]
      · simp [he]
    rw [hfilter]
    exact List.filter_sublist
  have hnum := h.numbered k.1
  rw [Numbered] at hnum
  have hall : (L.historyOf k.1).Pairwise fun a b => a.sequence < b.sequence := by
    rw [← List.pairwise_map (f := EventRow.sequence), hnum]
    exact List.pairwise_lt_range'
  exact hall.sublist hsub

/-- **The life of an operation on the event stream.** Ordered by their numbers, the events of any
operation of any reachable broker are one `accepted` event and then states that never go down,
with at most one definitive event, which is the last; `result_id` is null before the first unknown
or definitive event and one value from then on, `remote_task_id` is null up to some point and one
value from there on, and `operation_id`, `flow_id` and `created_at` are constant. -/
theorem lifecycle_of_reachable {disp : BrokerDispatcher} {B : Process}
    (h : Process.Reachable disp B) (k : Key) :
    ((B.ledger.eventsFor k).Pairwise fun a b => a.sequence < b.sequence) ∧
      (B.ledger.operation? k = none → B.ledger.eventsFor k = []) ∧
      ∀ r, B.ledger.operation? k = some r →
        Lifecycle ((B.ledger.eventsFor k).map EventRow.snapshot) := by
  obtain ⟨-, ks, hmoves⟩ := Process.moves_of_run Process.inv_initial h
  have hcourse := (Process.life_of_reachable h k).course
  refine ⟨(Log.of_trace hmoves Log.empty).eventsFor_ordered k, fun hnone => ?_, fun r hr => ?_⟩
  · rw [hnone] at hcourse
    exact List.map_eq_nil_iff.mp hcourse
  · rw [hr] at hcourse
    exact Course.lifecycle hcourse

theorem lifecycle_of_reachable_cancel :
    ∃ B : Process, Process.Reachable ⟨BrokerStore.default, fun _ => "", fun _ => none⟩ B ∧
      (B.ledger.eventsFor ("laptop", 1)).map (fun e => e.snapshot.state) = [.accepted, .canceled] ∧
      Lifecycle ((B.ledger.eventsFor ("laptop", 1)).map EventRow.snapshot) := by
  let disp : BrokerDispatcher := ⟨BrokerStore.default, fun _ => "", fun _ => none⟩
  have haccept : ∃ reply s', disp.store.serve "laptop" (.accept (sampleRequest 1 2))
      ⟨Ledger.empty, fun _ => 5, fun _ => 0⟩ = .ok (reply, s') ∧ ∃ reply' s'',
        disp.store.serve "laptop" (.cancel 1) ⟨s'.ledger, fun _ => 6, fun _ => 3⟩ =
          .ok (reply', s'') ∧
        (s''.ledger.eventsFor ("laptop", 1)).map (fun e => e.snapshot.state) =
          [.accepted, .canceled] ∧ ∃ r, s''.ledger.operation? ("laptop", 1) = some r :=
    ⟨_, _, rfl, _, _, rfl, rfl, _, rfl⟩
  obtain ⟨reply, s', haccept, reply', s'', hcancel, hstates, r, hr⟩ := haccept
  have hreach : Process.Reachable disp { Process.initial with ledger := s''.ledger } :=
    (Relation.ReflTransGen.single ⟨_, Process.Step.serve haccept⟩).tail
      ⟨_, Process.Step.serve (B := { Process.initial with ledger := s'.ledger }) hcancel⟩
  exact ⟨_, hreach, hstates, (lifecycle_of_reachable hreach ("laptop", 1)).2.2 r hr⟩

end Broker

end HermesGateway
