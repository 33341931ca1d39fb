import HermesGateway.Broker.Lifecycle

/-!
# The tables agree with each other

The state of an operation is written down three times: in its row, in its outbox row, and by
whether its payload is still there. Every transaction changes all three together, or none of
them. The columns of one row are coupled too: a result has an expiry and a definitive state, a
cancellation that was handed out was requested.

The outbox is the easiest table to follow, because its rows are inserted and updated in step with
those of the operations: read as pairs of key and state, the two tables are the same list.

## Main definitions

* `outboxState` — the outbox state that goes with the state of an operation
* `OperationRow.Coherent`, `Snapshot.Coherent` — the columns of a row, the members of a snapshot
* `Aligned`, `Prompts` — what the outbox and the payloads have to do with the operations
* `Ledger.Coherent` — the whole ledger

## Main results

* `Move.aligned`, `Move.prompts` — a move keeps outbox and payloads in step
* `KeyStep.coherent` — a disciplined step of an operation keeps its columns coherent
* `ledger_coherent` — every ledger the broker reaches is coherent
-/

namespace HermesGateway

/-- A result is that of a definitive state, and stands beside no error. -/
def Snapshot.Coherent (s : Snapshot) : Prop :=
  s.result ≠ none → s.state.Final ∧ s.error = none

namespace Broker

open BrokerStore

/-! ### Rows and snapshots -/

/-- The columns of one row. -/
structure OperationRow.Coherent (r : OperationRow) : Prop where
  resultId : r.resultId ≠ none ↔ r.state.Terminal
  result : r.result ≠ none → r.state.Final ∧ r.resultExpiresAt ≠ none
  cancel : r.cancelClaimed = true → r.cancelRequested = true ∧ r.remoteTaskId ≠ none
  unmixed : Unmixed r.result r.errorCode

/-- What a coherent row shows is coherent, whenever it is read. -/
theorem OperationRow.Coherent.render {r : OperationRow} (h : r.Coherent) (t₁ t₂ : Time) :
    (render r t₁ t₂).Coherent := by
  intro hshown
  have hshown : (renderResult r t₁ t₂).1 ≠ none := hshown
  change r.state.Final ∧ (renderResult r t₁ t₂).2 = none
  cases hresult : r.result with
  | none =>
    simp only [renderResult, hresult] at hshown
    split at hshown
    · cases ‹none = some _›
    · split_ifs at hshown <;> exact absurd rfl hshown
    · exact absurd rfl hshown
  | some body =>
    obtain ⟨hfinal, hexpiry⟩ := h.result (by simp [hresult])
    obtain ⟨expires, hexpires⟩ := Option.ne_none_iff_exists'.mp hexpiry
    refine ⟨hfinal, ?_⟩
    simp only [renderResult, hresult, hexpires] at hshown ⊢
    split_ifs at hshown ⊢ with hheld hpast
    · cases body with
      | output text artifacts =>
        have hcode := h.unmixed text artifacts hresult
        simp [heldResult, OperationRow.baseError, hcode]
      | errorDetails details =>
        cases hcode : r.errorCode with
        | none => simp [heldResult, OperationRow.baseError, hcode]
        | some code => simp [heldResult, OperationRow.baseError, hcode] at hshown
    · exact absurd rfl hshown
    · exact absurd rfl hshown

section

variable {R : Time → Time → Prop} {late : Prop} {r : OperationRow}

/-- A disciplined edit keeps the columns of a row coherent. -/
theorem Edit.coherent {e : Edit} (hallowed : e.Allowed r) (hknown : KnownOf late r e)
    (h : r.Coherent) : (e.row r).Coherent := by
  obtain ⟨L, hknown, -⟩ := hknown
  have hblank : ¬ r.state.Final → r.result = none := fun hlive => by
    by_contra hne
    exact hlive (h.result hne).1
  cases e with
  | claim claimedAt now =>
    have haccepted : r.state = .accepted := hallowed
    have hnone : r.result = none := hblank (by rw [haccepted]; decide)
    have hid : r.resultId = none := by
      by_contra hne
      exact absurd (haccepted ▸ h.resultId.mp hne) (by decide)
    refine ⟨?_, fun hne => absurd hnone hne, h.cancel, ?_⟩
    · exact ⟨fun hne => absurd hid hne, fun hterm =>
        absurd hterm (by simp [Edit.row, claimedRow]; decide)⟩
    · exact h.unmixed
  | finish state result code message expires fresh now =>
    obtain ⟨-, hterminal, hexpires⟩ := hallowed
    obtain ⟨-, hunknown, -, hunmixed⟩ := hknown
    refine ⟨?_, fun hne => ⟨?_, ?_⟩, h.cancel, hunmixed⟩
    · refine ⟨fun _ => hterminal, fun _ => ?_⟩
      change (r.resultId <|> some fresh) ≠ none
      cases r.resultId <;> simp
    · exact hterminal.resolve_right fun heq => hne (hunknown heq)
    · change expires ≠ none
      rw [← Option.isSome_iff_ne_none, hexpires, Option.isSome_iff_ne_none]
      exact hne
  | handle handle now =>
    exact ⟨h.resultId, h.result, fun hc => ⟨(h.cancel hc).1, by simp [Edit.row, handledRow]⟩,
      h.unmixed⟩
  | cancel now =>
    have hlive : ¬ r.state.Final := by
      rcases hallowed.1 with hs | hs <;> rw [hs] <;> decide
    refine ⟨h.resultId, h.result, fun hc => ⟨rfl, (h.cancel hc).2⟩, ?_⟩
    intro text artifacts houtput
    rw [show (Edit.row (.cancel now) r).result = r.result from rfl, hblank hlive] at houtput
    cases houtput

/-- A step of an operation keeps its columns coherent, and publishes coherent snapshots. -/
theorem KeyStep.coherent {k : Key} {o o' : Option OperationRow} {ss : List Snapshot}
    (hstep : KeyStep R (KnownOf late) k o ss o') (h : ∀ r ∈ o, r.Coherent) :
    (∀ r ∈ o', r.Coherent) ∧ ∀ s ∈ ss, s.Coherent := by
  have single : ∀ {r' : OperationRow} {t₁ t₂ : Time}, r'.Coherent →
      (∀ r ∈ some r', r.Coherent) ∧ ∀ s ∈ [render r' t₁ t₂], s.Coherent := by
    intro r' t₁ t₂ hr'
    refine ⟨fun r hr => Option.some.inj hr ▸ hr', fun s hs => ?_⟩
    rw [List.mem_singleton.mp hs]
    exact hr'.render t₁ t₂
  cases hstep with
  | same => exact ⟨h, by simp⟩
  | insert =>
    refine single ⟨?_, fun hne => absurd rfl hne, fun hc => (by cases hc), unmixed_none _⟩
    exact ⟨fun hne => absurd rfl hne, fun hterm => absurd hterm (by simp [acceptedRow]; decide)⟩
  | @edit r e t₁ t₂ hkey hallowed hknown => exact single (e.coherent hallowed hknown (h r rfl))
  | @poll r now =>
    refine ⟨fun r' hr' => ?_, by simp⟩
    obtain rfl := Option.some.inj hr'
    exact ⟨(h r rfl).resultId, (h r rfl).result, (h r rfl).cancel, (h r rfl).unmixed⟩
  | @cancelClaim r hwanted =>
    refine ⟨fun r' hr' => ?_, by simp⟩
    obtain rfl := Option.some.inj hr'
    exact ⟨(h r rfl).resultId, (h r rfl).result, fun _ => ⟨hwanted.1, hwanted.2.2.1⟩,
      (h r rfl).unmixed⟩
  | @purge r now =>
    refine ⟨fun r' hr' => ?_, by simp⟩
    obtain rfl := Option.some.inj hr'
    unfold purgedRow
    split
    · split_ifs
      · exact ⟨(h r rfl).resultId, fun hne => absurd rfl hne, (h r rfl).cancel, unmixed_none _⟩
      · exact h r rfl
    · exact h r rfl

/-- The columns stay coherent, and so is every snapshot that was ever published. -/
theorem Life.coherent {k : Key} {o : Option OperationRow} {ss : List Snapshot}
    (h : Life R (KnownOf late) k ss o) : (∀ r ∈ o, r.Coherent) ∧ ∀ s ∈ ss, s.Coherent := by
  refine Trace.labels (I := fun ss o => (∀ r ∈ o, r.Coherent) ∧ ∀ s ∈ ss, s.Coherent)
    (fun hI hstep => ?_) h ⟨by simp, by simp⟩
  obtain ⟨hrow, hnew⟩ := hstep.coherent hI.1
  exact ⟨hrow, fun s hs => (List.mem_append.mp hs).elim (hI.2 s) (hnew s)⟩

end

/-! ### The outbox -/

/-- The outbox state that goes with the state of an operation. -/
def outboxState : OpState → OutboxState
  | .accepted => .pending
  | .running => .claimed
  | .completed | .failed | .canceled | .outcomeUnknown => .done

/-- The outbox, read as pairs of key and state, is the table of operations. -/
def Aligned (L : Ledger) : Prop :=
  (L.outbox.map fun b => (b.key, b.state)) =
    L.operations.map fun r => (r.key, outboxState r.state)

/-- A payload is that of an operation that is accepted or running. -/
def Prompts (L : Ledger) : Prop :=
  ∀ p ∈ L.payloads, ∃ r ∈ L.operations, r.key = p.key ∧ (r.state = .accepted ∨ r.state = .running)

section

variable {R : Time → Time → Prop} {P : Ledger → OperationRow → Edit → Prop} {L L' : Ledger}
  {ks : List Key}

/-- An update of one operation and its outbox row that sets both to states that go together. -/
theorem Aligned.settle {k : Key} {f : OperationRow → OperationRow} {g : OutboxRow → OutboxRow}
    (h : Aligned L) {state : OpState} (hf : ∀ r, (f r).key = r.key ∧ (f r).state = state)
    (hg : ∀ b, (g b).key = b.key ∧ (g b).state = outboxState state) :
    ((Table.modify OutboxRow.key L.outbox k g).map fun b => (b.key, b.state)) =
      (Table.modify OperationRow.key L.operations k f).map
        fun r => (r.key, outboxState r.state) := by
  let set : Key × OutboxState → Key × OutboxState := fun x =>
    if x.1 = k then (x.1, outboxState state) else x
  have houtbox : ((Table.modify OutboxRow.key L.outbox k g).map fun b => (b.key, b.state)) =
      (L.outbox.map fun b => (b.key, b.state)).map set := by
    rw [Table.modify, List.map_map, List.map_map]
    refine List.map_congr_left fun b _ => ?_
    simp only [Function.comp_apply, set]
    split_ifs
    · rw [(hg b).1, (hg b).2]
    · rfl
  have hoperations : ((Table.modify OperationRow.key L.operations k f).map
      fun r => (r.key, outboxState r.state)) =
      (L.operations.map fun r => (r.key, outboxState r.state)).map set := by
    rw [Table.modify, List.map_map, List.map_map]
    refine List.map_congr_left fun r _ => ?_
    simp only [Function.comp_apply, set]
    split_ifs
    · rw [(hf r).1, (hf r).2]
    · rfl
  rw [houtbox, hoperations, h]

/-- An update of operations that keeps keys and states. -/
theorem Aligned.map {f : OperationRow → OperationRow} (h : Aligned L)
    (hf : ∀ r, (f r).key = r.key ∧ (f r).state = r.state) :
    Aligned { L with operations := L.operations.map f } := by
  change _ = (L.operations.map f).map _
  rw [List.map_map]
  refine Eq.trans h (List.map_congr_left ?_)
  intro r _
  rw [Function.comp_apply, (hf r).1, (hf r).2]

theorem Prompts.map {f : OperationRow → OperationRow} (h : Prompts L)
    (hf : ∀ r, (f r).key = r.key ∧ (f r).state = r.state) :
    Prompts { L with operations := L.operations.map f } := by
  intro p hp
  obtain ⟨r, hr, hkey, hstate⟩ := h p hp
  exact ⟨f r, List.mem_map_of_mem hr, (hf r).1.trans hkey, by rw [(hf r).2]; exact hstate⟩

/-- An update of one operation is an update of all of them. -/
theorem keeps_of_modify {k : Key} {f : OperationRow → OperationRow}
    (hf : ∀ r, (f r).key = r.key ∧ (f r).state = r.state) (r : OperationRow) :
    (if r.key = k then f r else r).key = r.key ∧
      (if r.key = k then f r else r).state = r.state := by
  split_ifs
  · exact hf r
  · exact ⟨rfl, rfl⟩

/-- A move keeps the outbox in step. -/
theorem Move.aligned (hmove : Move R P L ks L') (h : Aligned L) : Aligned L' := by
  cases hmove with
  | device | purgeEvents | receipt | dropArtifacts | putArtifact => exact h
  | @insert d request digest now =>
    change (L.outbox ++ [_]).map _ = (L.operations ++ [acceptedRow d request digest now]).map _
    rw [List.map_append, List.map_append]
    exact congrArg (· ++ _) h
  | @edit k e r dev expires t₁ t₂ hrow hdev hallowed =>
    cases e with
    | claim => exact h.settle (fun _ => ⟨rfl, rfl⟩) fun _ => ⟨rfl, rfl⟩
    | finish state =>
      have hdone : outboxState state = .done := by
        have hterminal : state.Terminal := hallowed.2.1
        revert hterminal
        cases state <;> decide
      exact h.settle (fun _ => ⟨rfl, rfl⟩) fun _ => ⟨rfl, hdone.symm⟩
    | handle handle now => exact h.map (keeps_of_modify fun _ => ⟨rfl, rfl⟩)
    | cancel now => exact h.map (keeps_of_modify fun _ => ⟨rfl, rfl⟩)
  | poll => exact h.map (keeps_of_modify fun _ => ⟨rfl, rfl⟩)
  | cancelClaim => exact h.map (keeps_of_modify fun _ => ⟨rfl, rfl⟩)
  | @purge now => exact h.map fun r => ⟨key_purgedRow now r, state_purgedRow now r⟩

/-- A move leaves no payload of an operation that is over. -/
theorem Move.prompts (hmove : Move R P L ks L') (h : Prompts L) : Prompts L' := by
  cases hmove with
  | device | purgeEvents | receipt | dropArtifacts | putArtifact => exact h
  | @insert d request digest now =>
    intro p hp
    rcases List.mem_append.mp hp with hp | hp
    · obtain ⟨r, hr, hkey, hstate⟩ := h p hp
      exact ⟨r, List.mem_append_left _ hr, hkey, hstate⟩
    · rw [List.mem_singleton.mp hp]
      exact ⟨_, List.mem_append_right _ (List.mem_singleton_self _), rfl, .inl rfl⟩
  | @edit k e r dev expires t₁ t₂ hrow hdev hallowed =>
    cases e with
    | claim claimedAt now =>
      intro p hp
      obtain ⟨r', hr', hkey, hstate⟩ := h p hp
      by_cases hk : r'.key = k
      · exact ⟨claimedRow r' now, Table.mem_modify.mpr (.inl ⟨r', hr', hk, rfl⟩), hkey, .inr rfl⟩
      · exact ⟨r', Table.mem_modify.mpr (.inr ⟨hr', hk⟩), hkey, hstate⟩
    | finish state =>
      intro p hp
      obtain ⟨hmem, hne⟩ := List.mem_filter.mp hp
      obtain ⟨r', hr', hkey, hstate⟩ := h p hmem
      have hk : r'.key ≠ k := hkey ▸ of_decide_eq_true hne
      exact ⟨r', Table.mem_modify.mpr (.inr ⟨hr', hk⟩), hkey, hstate⟩
    | handle handle now => exact h.map (keeps_of_modify fun _ => ⟨rfl, rfl⟩)
    | cancel now => exact h.map (keeps_of_modify fun _ => ⟨rfl, rfl⟩)
  | poll => exact h.map (keeps_of_modify fun _ => ⟨rfl, rfl⟩)
  | cancelClaim => exact h.map (keeps_of_modify fun _ => ⟨rfl, rfl⟩)
  | @purge now =>
    have hmap := h.map fun r => ⟨key_purgedRow now r, state_purgedRow now r⟩
    exact fun p hp => hmap p (List.mem_of_mem_filter hp)

/-- In a keyed table of operations, an operation has exactly one outbox row. -/
theorem Aligned.outbox (h : Aligned L) (hkeyed : Table.Keyed OperationRow.key L.operations)
    {r : OperationRow} (hr : r ∈ L.operations) :
    ∃ b, (L.outbox.filter fun b => b.key = r.key) = [b] ∧ b.state = outboxState r.state := by
  have hkeys : L.outbox.map OutboxRow.key = L.operations.map OperationRow.key := by
    have hfst := congrArg (List.map Prod.fst) h
    rw [List.map_map, List.map_map] at hfst
    exact hfst
  have hmem : (r.key, outboxState r.state) ∈ L.outbox.map fun b => (b.key, b.state) := by
    rw [show (L.outbox.map fun b => (b.key, b.state)) = _ from h]
    exact List.mem_map_of_mem hr
  obtain ⟨b, hb, hpair⟩ := List.mem_map.mp hmem
  obtain ⟨hkey, hstate⟩ := Prod.mk.inj hpair
  have hkeyed' : Table.Keyed OutboxRow.key L.outbox := by
    rw [Table.Keyed, hkeys]
    exact hkeyed
  exact ⟨b, hkey ▸ hkeyed'.filter_key hb, hstate⟩

end

/-! ### Every ledger -/

/-- The coupling of the tables and of their columns. -/
structure Ledger.Coherent (L : Ledger) : Prop where
  /-- An operation has one outbox row, whose state is that of the operation. -/
  outbox : ∀ r ∈ L.operations, ∃ b, (L.outbox.filter fun b => b.key = r.key) = [b] ∧
    (b.state = .pending ↔ r.state = .accepted) ∧ (b.state = .claimed ↔ r.state = .running) ∧
    (b.state = .done ↔ r.state.Terminal)
  /-- Nothing else has one. -/
  entries : ∀ b ∈ L.outbox, ∃ r ∈ L.operations, r.key = b.key
  /-- A payload is that of an operation that is accepted or running. -/
  payload : ∀ p ∈ L.payloads, ∃ r, L.operation? p.key = some r ∧
    (r.state = .accepted ∨ r.state = .running)
  resultId : ∀ r ∈ L.operations, r.resultId ≠ none ↔ r.state.Terminal
  result : ∀ r ∈ L.operations, r.result ≠ none → r.state.Final ∧ r.resultExpiresAt ≠ none
  cancel : ∀ r ∈ L.operations, r.cancelClaimed = true →
    r.cancelRequested = true ∧ r.remoteTaskId ≠ none
  /-- What was published is coherent, stored or not, and so is what a row shows at any time. -/
  published : ∀ e ∈ L.history ++ L.events, e.snapshot.Coherent
  shown : ∀ r ∈ L.operations, ∀ t₁ t₂, (render r t₁ t₂).Coherent

/-- What is stored of the log was published. -/
theorem Log.published {L : Ledger} (h : Log L) {e : EventRow} (he : e ∈ L.events) :
    e ∈ L.history := by
  have hmem : e ∈ L.eventsOf e.deviceId := List.mem_filter.mpr ⟨he, decide_eq_true rfl⟩
  rw [h.retained] at hmem
  exact List.mem_of_mem_filter (List.mem_of_mem_drop hmem)

theorem outboxState_iff (s : OpState) : (outboxState s = .pending ↔ s = .accepted) ∧
    (outboxState s = .claimed ↔ s = .running) ∧ (outboxState s = .done ↔ s.Terminal) := by
  cases s <;> decide

/-- **The ledger is coherent** in every state the broker reaches: through requests, the
dispatcher's steps, expiry, shutdown and restarts. -/
theorem ledger_coherent {disp : BrokerDispatcher} {B : Process} (h : Process.Reachable disp B) :
    B.ledger.Coherent := by
  obtain ⟨hinv, ks, hmoves⟩ := Process.moves_of_run Process.inv_initial h
  have haligned : Aligned B.ledger := hmoves.invariant (fun hI hmove => hmove.aligned hI) rfl
  have hprompts : Prompts B.ledger :=
    hmoves.invariant (fun hI hmove => hmove.prompts hI) fun _ hp => absurd hp List.not_mem_nil
  have hlog : Log B.ledger := Log.of_trace hmoves Log.empty
  have hlife := fun k => (Process.life_of_reachable h k).coherent
  have hrow : ∀ r ∈ B.ledger.operations, r.Coherent := fun r hr =>
    (hlife r.key).1 r (hinv.keyed.mem_iff_lookup.mp hr)
  exact
    { outbox := by
        intro r hr
        obtain ⟨b, hb, hstate⟩ := haligned.outbox hinv.keyed hr
        have hiff := outboxState_iff r.state
        rw [← hstate] at hiff
        exact ⟨b, hb, hiff⟩
      entries := by
        intro b hb
        have hmem : (b.key, b.state) ∈ B.ledger.operations.map
            fun r => (r.key, outboxState r.state) := haligned ▸ List.mem_map_of_mem hb
        obtain ⟨r, hr, hpair⟩ := List.mem_map.mp hmem
        exact ⟨r, hr, congrArg Prod.fst hpair⟩
      payload := by
        intro p hp
        obtain ⟨r, hr, hkey, hstate⟩ := hprompts p hp
        exact ⟨r, hkey ▸ hinv.keyed.mem_iff_lookup.mp hr, hstate⟩
      resultId := fun r hr => (hrow r hr).resultId
      result := fun r hr => (hrow r hr).result
      cancel := fun r hr => (hrow r hr).cancel
      published := by
        intro e he
        have he : e ∈ B.ledger.history := (List.mem_append.mp he).elim id hlog.published
        refine (hlife e.key).2 e.snapshot (List.mem_map_of_mem ?_)
        exact List.mem_filter.mpr ⟨he, decide_eq_true rfl⟩
      shown := fun r hr t₁ t₂ => (hrow r hr).render t₁ t₂ }

theorem ledger_coherent_cancel :
    ∃ B : Process, Process.Reachable ⟨BrokerStore.default, fun _ => "", fun _ => none⟩ B ∧
      B.ledger.operations.map (fun r => r.state) = [.canceled] ∧ B.ledger.payloads = [] ∧
      B.ledger.Coherent := by
  let disp : BrokerDispatcher := ⟨BrokerStore.default, fun _ => "", fun _ => none⟩
  have hserve : ∃ reply s', disp.store.serve "laptop" (.accept (sampleRequest 1 2))
      ⟨Ledger.empty, fun _ => 5, fun _ => 0⟩ = .ok (reply, s') ∧ ∃ reply' s'',
        disp.store.serve "laptop" (.cancel 1) ⟨s'.ledger, fun _ => 6, fun _ => 3⟩ =
          .ok (reply', s'') ∧
        s''.ledger.operations.map (fun r => r.state) = [.canceled] ∧ s''.ledger.payloads = [] :=
    ⟨_, _, rfl, _, _, rfl, rfl, rfl⟩
  obtain ⟨reply, s', haccept, reply', s'', hcancel, hstates, hpayloads⟩ := hserve
  have hreach : Process.Reachable disp { Process.initial with ledger := s''.ledger } :=
    (Relation.ReflTransGen.single ⟨_, Process.Step.serve haccept⟩).tail
      ⟨_, Process.Step.serve (B := { Process.initial with ledger := s'.ledger }) hcancel⟩
  exact ⟨_, hreach, hstates, hpayloads, ledger_coherent hreach⟩

end Broker

end HermesGateway
