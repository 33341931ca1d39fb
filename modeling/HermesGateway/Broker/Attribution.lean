import HermesGateway.Broker.Runs

/-!
# Which step records what

A result, a completion and a handle get into an operation by the call of a coroutine that asks for
just that. Everything else a step does, requests, dispatch, cancellation and recovery included,
records outcomes without a result, and none of them is a completion.

## Main definitions

* `Act.Causes` — the edits a step makes: the store's own, and those a call asks for
* `Act.Makes` — what that says about results, completions and handles
* `Caused`, `Authored` — the moves of a step, with its edits attributed to it

## Main results

* `Process.Step.caused`, `Process.Step.authored` — the moves of a step are its own
* `Process.Step.of_call` — who waits for a call, and what it does to the ledger
* `result_of_authored`, `completed_of_authored` — where they come from
-/

namespace HermesGateway.Broker

open BrokerStore BrokerDispatcher

/-- The edits the store makes of its own accord: outcomes without a result, none of them a
completion, with codes of its own. -/
def Edit.Own : Edit → Prop
  | .finish state result code _ _ _ _ => state ≠ .completed ∧ result = none ∧ ∀ c, code = some c →
      c ∈ [ErrorCode.payloadExpired, .artifactExpired, .resultTooLarge, .restartUnknown]
  | .handle _ _ => False
  | .claim _ _ | .cancel _ => True

/-- The edits a call asks for. -/
def Act.Asks (act : Act) (r : OperationRow) : Edit → Prop
  | .finish state result code message _ _ _ =>
    ∃ next, act = .call r.key (.finish state result code message next)
  | .handle handle _ => ∃ next, act = .call r.key (.saveHandle handle next)
  | .claim _ _ | .cancel _ => False

/-- The edits a step makes. -/
def Act.Causes (act : Act) (r : OperationRow) (e : Edit) : Prop := e.Own ∨ act.Asks r e

/-- The edits a step may make: a result or a completion is recorded, and a handle is saved, by the
call that asks for it. -/
def Act.Makes (act : Act) (r : OperationRow) : Edit → Prop
  | .finish state result _ _ _ _ _ => state = .completed ∨ result ≠ none →
      ∃ code message next, act = .call r.key (.finish state result code message next)
  | .handle handle _ => ∃ next, act = .call r.key (.saveHandle handle next)
  | .claim _ _ | .cancel _ => True

/-- The moves of a step, whatever its clock does, with the edits it makes. -/
abbrev Caused (act : Act) (L : Ledger) (ks : List Key) (L' : Ledger) : Prop :=
  Trace (Move (fun _ _ => True) fun _ => act.Causes) L ks L'

/-- The moves of a step, whatever its clock does. -/
abbrev Authored (act : Act) (L : Ledger) (ks : List Key) (L' : Ledger) : Prop :=
  Trace (Move (fun _ _ => True) fun _ => act.Makes) L ks L'

section

variable {store : BrokerStore} {s s' : Session} {act : Act} {L L' : Ledger} {ks : List Key}

theorem Act.Causes.makes {r : OperationRow} {e : Edit} (h : act.Causes r e) : act.Makes r e := by
  cases e with
  | finish state result code message expires fresh now =>
    rcases h with ⟨hstate, hresult, -⟩ | ⟨next, hact⟩
    · rintro (hcompleted | hsome)
      · exact absurd hcompleted hstate
      · exact absurd hresult hsome
    · exact fun _ => ⟨code, message, next, hact⟩
  | handle handle now => exact h.resolve_left id
  | claim | cancel => trivial

theorem Caused.authored (h : Caused act L ks L') : Authored act L ks L' :=
  h.mono fun hmove => hmove.imp fun _ _ _ h => h.makes

theorem caused_of_publishes (h : Publishes (fun _ _ => True) (fun _ => act.Causes) ks s s') :
    ∃ ks', Caused act s.ledger ks' s'.ledger := by
  obtain ⟨-, ks', -, htrace⟩ := h fun _ _ _ => trivial
  exact ⟨ks', htrace⟩

/-- The moves of a handler. -/
theorem serve_caused {d : Device} {request : Request} {reply : Reply}
    (h : store.serve d request s = .ok (reply, s')) : ∃ ks, Caused act s.ledger ks s'.ledger := by
  cases request with
  | accept request =>
    obtain ⟨_, hm, -⟩ := Tx.map_eq_ok.mp h
    exact caused_of_publishes (accept_publishes hm)
  | get operation =>
    obtain ⟨_, hm, -⟩ := Tx.map_eq_ok.mp h
    exact caused_of_publishes (get_publishes hm)
  | cancel operation =>
    obtain ⟨_, hm, -⟩ := Tx.map_eq_ok.mp h
    refine caused_of_publishes (cancelIntent_publishes ?_ hm)
    exact fun L r now expires fresh _ _ =>
      ⟨fun _ => .inl ⟨by decide, rfl, fun _ h => (by cases h)⟩, fun _ => .inl trivial⟩
  | events after =>
    obtain ⟨_, hm, -⟩ := Tx.map_eq_ok.mp h
    exact caused_of_publishes (events_publishes hm)
  | receipt operation resultId status =>
    obtain ⟨_, hm, -⟩ := Tx.map_eq_ok.mp h
    exact caused_of_publishes (receipt_publishes hm)
  | upload content digest contentType =>
    obtain ⟨_, hm, -⟩ := Tx.map_eq_ok.mp h
    exact caused_of_publishes (putArtifact_publishes hm)
  | download artifact =>
    obtain ⟨_, t, hm, hret⟩ := Tx.bind_eq_ok.mp h
    obtain ⟨-, rfl⟩ := Prod.mk.inj (Tx.pure_eq_ok.mp hret)
    exact caused_of_publishes (artifact_advances hm).publishes

/-- An outcome the store records with one of its own codes. -/
theorem own_finish {state : OpState} {c : ErrorCode} {message : Option String}
    {expires : Option Time} {fresh : Uuid} {now : Time} (hstate : state ≠ .completed)
    (hc : c ∈ [ErrorCode.payloadExpired, .artifactExpired, .resultTooLarge, .restartUnknown]) :
    (Edit.finish state none (some c) message expires fresh now).Own :=
  ⟨hstate, rfl, by rintro _ ⟨⟩; exact hc⟩

/-- The moves of `claim`. -/
theorem claim_caused {c : Option Claim} (h : store.claim s = .ok (c, s')) :
    ∃ ks, Caused act s.ledger ks s'.ledger := by
  refine caused_of_publishes (claim_publishes ?_ h)
  exact fun L chosen r _ _ _ _ t t' expires fresh => ⟨.inl trivial,
    .inl (own_finish (by decide) (by decide)), .inl (own_finish (by decide) (by decide))⟩

/-- The moves of a call are those it asks for. -/
theorem call_caused {disp : BrokerDispatcher} {k : Key} {p p' : Prog} {tx : StoreTx Prog}
    (hcall : disp.call k p = some tx) (htx : tx s = .ok (p', s')) :
    ∃ ks, Caused (.call k p) s.ledger ks s'.ledger := by
  cases commits_of_call hcall htx with
  | saveHandle hm =>
    refine caused_of_publishes (saveHandle_publishes ?_ hm)
    intro L r now _ hr _
    rw [← key_of_operation? hr]
    exact .inr ⟨p', rfl⟩
  | get hm => exact caused_of_publishes (get_publishes hm)
  | putArtifact hm => exact caused_of_publishes (putArtifact_publishes hm)
  | finish hm =>
    refine caused_of_publishes (finish_publishes ?_ hm)
    intro L r expires fresh now _ hr _ _
    rw [← key_of_operation? hr]
    exact ⟨.inr ⟨p', rfl⟩, fun _ => .inl (own_finish (by decide) (by decide))⟩

theorem call_authored {disp : BrokerDispatcher} {k : Key} {p p' : Prog} {tx : StoreTx Prog}
    (hcall : disp.call k p = some tx) (htx : tx s = .ok (p', s')) :
    ∃ ks, Authored (.call k p) s.ledger ks s'.ledger :=
  (call_caused hcall htx).imp fun _ => Caused.authored

end

namespace Process

variable {disp : BrokerDispatcher} {B B' : Process} {act : Act}

/-- Someone waits for the call: a task or an orphan. -/
def Awaits (B : Process) (k : Key) (p : Prog) : Prop :=
  (∃ t ∈ B.tasks, t.key = k ∧
    ((∃ terminal, t.phase = .observing terminal p) ∨ t.phase = .ending p ∨ t.phase = .settling p)) ∨
  (k, p) ∈ B.orphans

/-- A step that commits a call: someone waits for it, and what it does to the ledger. -/
theorem Step.of_call {k : Key} {p : Prog} (h : Step disp B (.call k p) B') :
    B.Awaits k p ∧ ∃ tx clock uuids p' s', disp.call k p = some tx ∧
      tx ⟨B.ledger, clock, uuids⟩ = .ok (p', s') ∧ B'.ledger = s'.ledger := by
  generalize hact : Act.call k p = act at h
  cases h with
  | @task before after new t label L' orphans rpcs hmem h =>
    cases label with
    | none => cases hact
    | some q =>
      obtain ⟨rfl, rfl⟩ := Act.call.inj hact
      have ht : t ∈ B.tasks := by simp [hmem]
      cases h with
      | commit hphase hcall htx =>
        exact ⟨.inl ⟨t, ht, rfl, .inl ⟨_, hphase⟩⟩, _, _, _, _, _, hcall, htx, rfl⟩
      | commitEnding hphase hcall htx =>
        exact ⟨.inl ⟨t, ht, rfl, .inr (.inl hphase)⟩, _, _, _, _, _, hcall, htx, rfl⟩
      | settle hphase hcall htx =>
        exact ⟨.inl ⟨t, ht, rfl, .inr (.inr hphase)⟩, _, _, _, _, _, hcall, htx, rfl⟩
  | @orphan before after k' q p' tx clock uuids s' hmem hcall h =>
    obtain ⟨rfl, rfl⟩ := Act.call.inj hact
    exact ⟨.inr (by simp [hmem]), _, _, _, _, _, hcall, h, rfl⟩
  | _ => cases hact

/-- Who waits for a call may make it. -/
theorem Inv.ok {k : Key} {p : Prog} (hinv : B.Inv) (h : B.Awaits k p) : p.Ok B.ledger k := by
  rcases h with ⟨t, ht, rfl, hphase⟩ | horphan
  · have hok := (hinv.tasks t ht).phase
    rcases hphase with ⟨terminal, hphase⟩ | hphase | hphase
    · rw [hphase] at hok
      exact hok.prog
    · rw [hphase] at hok
      exact .inr (.inr hok)
    · rw [hphase] at hok
      exact hok.settling_prog
  · exact (hinv.orphans _ horphan).2

/-- Whose call is waited for is there. -/
theorem Inv.present {k : Key} {p : Prog} (hinv : B.Inv) (h : B.Awaits k p) :
    ∃ r, B.ledger.operation? k = some r := by
  have hsub : Submitted B.ledger k := by
    rcases h with ⟨t, ht, rfl, -⟩ | horphan
    · exact (hinv.tasks t ht).submitted
    · exact (hinv.orphans _ horphan).1
  obtain ⟨r, hr, -⟩ := hsub
  exact ⟨r, hr⟩

/-- A result that a call asks for is that of a definitive outcome. -/
theorem Inv.final {k : Key} {state : OpState} {body : ResultBody} {code : Option ErrorCode}
    {message : Option String} {next : Prog} (hinv : B.Inv)
    (h : B.Awaits k (.finish state (some body) code message next)) (hstate : state.Terminal) :
    state.Final := by
  have hknown : state ≠ .outcomeUnknown := by
    rcases hinv.ok h with ⟨-, hsafe, -⟩ | hopens | ⟨-, hnone, -⟩
    · exact fun hunknown => absurd (hsafe hunknown) (by simp)
    · exact hopens.elim
    · cases hnone
  revert hstate hknown
  cases state <;> decide

/-- **The moves of a step are its own.** -/
theorem Step.caused (hkeyed : Table.Keyed OperationRow.key B.ledger.operations)
    (h : Step disp B act B') : ∃ ks, Caused act B.ledger ks B'.ledger := by
  cases h with
  | serve h => exact serve_caused h
  | purge h => exact caused_of_publishes (purge_publishes h)
  | claimCancel _ _ h => exact caused_of_publishes (claimCancel_publishes hkeyed h).1
  | reconcile _ _ h => exact caused_of_publishes (reconcilable_publishes h).2
  | unclaimed _ h => exact claim_caused h
  | claim _ _ h => exact claim_caused h
  | task hmem h =>
    cases h with
    | commit _ hcall htx | commitEnding _ hcall htx | settle _ hcall htx =>
      exact call_caused hcall htx
    | _ => exact ⟨[], Trace.nil⟩
  | orphan hmem hcall h => exact call_caused hcall h
  | restart h =>
    refine caused_of_publishes (recover_publishes ?_ h)
    exact fun k _ ks L r _ _ _ expires fresh now => .inl (own_finish (by decide) (by decide))
  | reap | forget | shutdown | sweep => exact ⟨[], Trace.nil⟩

theorem Step.authored (hkeyed : Table.Keyed OperationRow.key B.ledger.operations)
    (h : Step disp B act B') : ∃ ks, Authored act B.ledger ks B'.ledger :=
  (h.caused hkeyed).imp fun _ => Caused.authored

end Process

/-! ### Where results, completions and handles come from -/

section

variable {act : Act} {k : Key} {L L' : Ledger} {ks : List Key} {r' : OperationRow}

/-- A property no insertion has, and that nothing but an edit can bring about, was there before
unless an edit the step may make brought it about. -/
theorem origin_of_authored {P : OperationRow → Prop}
    (hinsert : ∀ d request digest now, ¬ P (acceptedRow d request digest now))
    (hpoll : ∀ r now, P (polledRow now r) → P r) (hcancel : ∀ r, P (cancelClaimedRow r) → P r)
    (hpurge : ∀ r now, P (purgedRow now r) → P r)
    (hedit : ∀ r e, r.key = k → act.Makes r e → P (e.row r) → P r)
    (h : Authored act L ks L') (hr' : L'.operation? k = some r') (hP : P r') :
    ∃ r, L.operation? k = some r ∧ P r := by
  obtain ⟨ss, htrace, -, -⟩ := keyTrace_of_trace (Q := act.Makes) (fun _ _ _ h => h) h k
  refine htrace.invariant (I := fun o => ∀ r' ∈ o, P r' → ∃ r, L.operation? k = some r ∧ P r) ?_
    (fun r hr h => ⟨r, hr, h⟩) r' hr' hP
  intro o ss o' hold hstep
  cases hstep with
  | same => exact hold
  | insert =>
    rintro _ ⟨⟩ hnew
    exact absurd hnew (hinsert _ _ _ _)
  | @edit r e _ _ hkey _ hmakes =>
    rintro _ ⟨⟩ hnew
    exact hold r rfl (hedit r e hkey hmakes hnew)
  | @poll r now =>
    rintro _ ⟨⟩ hnew
    exact hold r rfl (hpoll r now hnew)
  | @cancelClaim r =>
    rintro _ ⟨⟩ hnew
    exact hold r rfl (hcancel r hnew)
  | @purge r now =>
    rintro _ ⟨⟩ hnew
    exact hold r rfl (hpurge r now hnew)

/-- A result that was not there is recorded by the call that asks for it. -/
theorem result_of_authored {body : ResultBody} (h : Authored act L ks L')
    (hr' : L'.operation? k = some r') (hbody : r'.result = some body)
    (hnot : ∀ state code message next,
      act ≠ .call k (.finish state (some body) code message next)) :
    ∃ r, L.operation? k = some r ∧ r.result = some body := by
  refine origin_of_authored (P := fun r => r.result = some body)
    (fun _ _ _ _ hsome => by cases hsome)
    (fun _ _ h => h) (fun _ h => h) (fun r now hsome => ?_) (fun r e hkey hmakes hsome => ?_) h hr'
    hbody
  · unfold purgedRow at hsome
    split at hsome
    · split_ifs at hsome
      exact hsome
    · exact hsome
  · cases e with
    | finish state result code message expires fresh now =>
      change result = some body at hsome
      obtain ⟨code, message, next, hact⟩ := hmakes (.inr (by rw [hsome]; simp))
      rw [hkey, hsome] at hact
      exact absurd hact (hnot _ _ _ _)
    | claim | handle | cancel => exact hsome

/-- An operation is completed by the call that asks for it. -/
theorem completed_of_authored (h : Authored act L ks L') (hr' : L'.operation? k = some r')
    (hcompleted : r'.state = .completed)
    (hnot : ∀ result code message next,
      act ≠ .call k (.finish .completed result code message next)) :
    ∃ r, L.operation? k = some r ∧ r.state = .completed := by
  refine origin_of_authored (P := fun r => r.state = .completed)
    (fun _ _ _ _ hstate => by cases hstate) (fun _ _ h => h) (fun _ h => h)
    (fun r now hstate => (state_purgedRow now r) ▸ hstate) (fun r e hkey hmakes hstate => ?_) h hr'
    hcompleted
  cases e with
  | finish state result code message expires fresh now =>
    change state = .completed at hstate
    obtain ⟨code, message, next, hact⟩ := hmakes (.inl hstate)
    rw [hkey, hstate] at hact
    exact absurd hact (hnot _ _ _ _)
  | claim => cases hstate
  | handle | cancel => exact hstate

end

end HermesGateway.Broker
