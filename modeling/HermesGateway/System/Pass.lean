import HermesGateway.Client.Pass
import HermesGateway.System.Marks

/-!
# What a pass without an error leaves

`last_transport_error` is set to `None` when a pass of the worker has come through, and a client
that reports no error is taken to have nothing left to send. Here the pass is put back into the
system: other coroutines, the broker and the network go on all the time, and responses are lost and
repeated. What the marks say, they say of the broker as it is at the end of the pass.

## Main definitions

* `Network.PassRun` — a run during which the worker stays in one pass

## Main results

* `Network.Run.untold` — nothing was heard of what is pending
* `pass_settles` — what a pass leaves
-/

namespace HermesGateway.System

open Broker BrokerStore Client ClientStore

/-- A run during which the worker does not leave its pass: it neither comes to the end of it nor is
thrown out by an error. -/
abbrev Network.PassRun (disp : BrokerDispatcher) (ingress : Ingress) (store : ClientStore)
    (d : Device) : Network → Network → Prop :=
  Relation.ReflTransGen fun N N' =>
    Network.Step disp ingress store d N N' ∧ N'.uplink.position ≠ .idle

section

variable {disp : BrokerDispatcher} {ingress : Ingress} {store : ClientStore} {d : Device}
  {N N' M : Network}

theorem Network.PassRun.run (h : Network.PassRun disp ingress store d N N') :
    Network.Run disp ingress store d N N' := by
  induction h with
  | refl => exact .refl
  | tail _ hstep ih => exact ih.tail hstep.1

/-- A pass goes on with a step of the client. -/
theorem Network.PassRun.moved (h : Network.PassRun disp ingress store d N N') {cs : List Command}
    {U' : Uplink} (hstep : Uplink.Step store N'.Answered (· ∈ N'.shown) N'.uplink cs U')
    (hactive : U'.position ≠ .idle) :
    Network.PassRun disp ingress store d N
      { N' with
        uplink := U'
        commands := N'.commands ++ cs } :=
  h.tail ⟨.client hstep, hactive⟩

/-- A pass goes on while a command is handled. -/
theorem Network.PassRun.handled (h : Network.PassRun disp ingress store d N N')
    (hactive : N'.uplink.position ≠ .idle) {c : Command} (hc : c ∈ N'.commands) {clock : ℕ → Time}
    {uuids : ℕ → Uuid} {a : Outcome}
    (ha : answerOf (BrokerStore.answer disp.store ingress d c ⟨N'.broker.ledger, clock, uuids⟩).1 =
      some a) :
    Network.PassRun disp ingress store d N
      { N' with
        broker := { N'.broker with
          ledger :=
            (BrokerStore.answer disp.store ingress d c ⟨N'.broker.ledger, clock, uuids⟩).2 }
        answers := N'.answers ++ [(c, a)]
        shown := N'.shown ++ snapshotsOf
          (BrokerStore.answer disp.store ingress d c ⟨N'.broker.ledger, clock, uuids⟩).1 } :=
  h.tail ⟨.handled hc ha, hactive⟩

/-- In every run, nothing was heard of what is pending. -/
theorem Network.Run.untold (h : Network.Run disp ingress store d Network.initial N) :
    N.tables.Untold := by
  induction h with
  | refl => rintro _ _ ⟨⟩
  | tail _ hstep ih =>
    cases hstep with
    | handle | outage | broker | claim => exact ih
    | client huplink => exact huplink.untold ih

/-- A receipt stays. -/
theorem Network.Run.hasReceipt (h : Network.Run disp ingress store d Network.initial N)
    (h' : Network.Run disp ingress store d N N') {x : Client.ReceiptRow}
    (hx : x ∈ N.tables.receipts) : N'.tables.HasReceipt x.key := by
  obtain ⟨ms, htrace⟩ := h'.exchange
  exact Exchange.hasReceipt_of_trace htrace h.honest.2 ⟨x, hx, rfl⟩

/-- **A pass**, from its first step on: what was pending when it began is done, or still to come. -/
theorem Network.PassRun.passed (h : Network.Run disp ingress store d Network.initial N)
    (hbegin : N.uplink.position = .idle) (hpass : Network.PassRun disp ingress store d N N') :
    N' = N ∨ N'.uplink.position ≠ .idle ∧ N'.uplink.Passed N.tables.Pending N.tables := by
  induction hpass with
  | refl => exact .inl rfl
  | @tail M M' hrun hlast ih =>
    right
    obtain ⟨hstep, hactive⟩ := hlast
    have hreach := h.trans (Network.PassRun.run hrun)
    refine ⟨hactive, ?_⟩
    rcases ih with rfl | ⟨hbefore, hpassed⟩
    · -- the step that begins the pass
      cases hstep with
      | handle | outage | broker | claim => exact absurd hbegin hactive
      | client huplink => exact huplink.begins (Network.Run.untold hreach) hbegin hactive
    · cases hstep with
      | handle | outage | broker | claim => exact hpassed
      | client huplink =>
        exact huplink.passed (Network.Run.untold hreach)
          (fun x hx => Network.Run.hasReceipt h (Network.PassRun.run hrun) hx) hbefore hactive
          hpassed

/-- **A pass without an error settles what there was.** When the worker has come through, each
operation that was pending at the start is accepted, and the broker has it; or rejected, and the
broker does not have it; or given up because there was nothing to post, after the broker said that
it did not have it. And each receipt that was there is in the ledger. -/
theorem pass_settles (h : Network.Run disp ingress store d Network.initial N)
    (hbegin : N.uplink.position = .idle) (hpass : Network.PassRun disp ingress store d N N')
    (hend : N'.uplink.position = .flushing []) :
    (∀ op, N.tables.Pending op → ∃ r, N'.tables.operation? op = some r ∧
      (r.submissionState = .accepted ∧ (∃ r₀, N'.broker.ledger.operation? (d, op) = some r₀) ∨
        r.submissionState = .rejected ∧ N'.broker.ledger.operation? (d, op) = none ∨
        (r.submissionState = .outcomeUnknown ∨ r.submissionState = .payloadKeyUnavailable) ∧
          N'.Answered (.get op) (.refused 404))) ∧
    ∀ x ∈ N.tables.receipts, N'.tables.Sent x.key ∧ ∃ id,
      ingress.parseUuid x.resultId = some id ∧
      Received N'.broker.ledger ((d, x.operationId), id, postedStatus x.status) := by
  have hreach : Network.Run disp ingress store d Network.initial N' :=
    h.trans (Network.PassRun.run hpass)
  obtain ⟨hinv, hmarked⟩ := hreach.sound
  have hpassed : N'.uplink.Passed N.tables.Pending N.tables := by
    rcases hpass.passed h hbegin with rfl | ⟨-, hpassed⟩
    · cases hbegin.symm.trans hend
    · exact hpassed
  constructor
  · intro op hpending
    obtain ⟨r, hr, hstate⟩ : N'.tables.Settled op := by
      rcases hpassed.operations op hpending with hleft | hsettled
      · rw [hend] at hleft
        exact absurd hleft List.not_mem_nil
      · exact hsettled
    refine ⟨r, hr, ?_⟩
    cases hmark : r.submissionState with
    | pending => exact absurd hmark hstate
    | accepted =>
      obtain ⟨s, hs, rfl⟩ := hmarked.accepted op r hr hmark
      obtain ⟨⟨ms, hhonest⟩, -⟩ := hreach.honest
      obtain ⟨r₀, hr₀, -⟩ := hhonest.shown s hs
      exact .inl ⟨rfl, r₀, hr₀⟩
    | rejected => exact .inr (.inl ⟨rfl, Network.Run.rejected hreach hr hmark⟩)
    | outcomeUnknown => exact .inr (.inr ⟨.inl rfl, hmarked.spent op r hr (.inl hmark)⟩)
    | payloadKeyUnavailable => exact .inr (.inr ⟨.inr rfl, hmarked.spent op r hr (.inr hmark)⟩)
  · intro x hx
    have hsent : N'.tables.Sent x.key := by
      rcases hpassed.receipts (by rw [hend]; trivial) x hx with hsent | ⟨y, hy, -⟩
      · exact hsent
      · rw [hend] at hy
        exact absurd hy List.not_mem_nil
    exact ⟨hsent, (hinv.answered _ _ (hmarked.sent x.key hsent)).2⟩

end

/-- A run in which a receipt is left, and another operation is pending, when a pass begins. -/
theorem pass_settles_two : ∃ (N N' : Network) (x : Client.ReceiptRow), SampleRun N ∧
    N.tables.Pending 3 ∧ x ∈ N.tables.receipts ∧ N'.tables.Sent x.key ∧
    ∃ r, N'.tables.operation? 3 = some r ∧ r.submissionState ≠ .pending := by
  let disp : BrokerDispatcher := ⟨BrokerStore.default, fun _ => "", fun _ => none⟩
  let store : ClientStore := ⟨ClientSettings.default, fun _ => ""⟩
  let ingress : Ingress := ⟨2097152, fun _ => 256, nativeUuid⟩
  let answer (c : Command) (L : Ledger) : Response × Ledger :=
    BrokerStore.answer disp.store ingress "laptop" c ⟨L, fun _ => 7, fun _ => 3⟩
  let on (T : Tables) : Client.Session := ⟨T, fun _ => 8, fun _ => 0⟩
  let asked := answer (.get 1) Ledger.empty
  let posted (p : Payload) := answer (.submit p) asked.2
  let canceled (p : Payload) := answer (.cancel 1) (posted p).2
  let asked' (p : Payload) := answer (.get 3) (canceled p).2
  let posted' (p p' : Payload) := answer (.submit p') (asked' p).2
  have hruns : (Tx.succeeds (store.perform (.create ⟨4, 5, "a"⟩ "hello" [] 0)
      ⟨Tables.empty, fun _ => 5, fun n => if n = 0 then 1 else 2⟩) fun _ σ₁ =>
    Tx.succeeds (ids true (on σ₁.tables)) fun todo _ =>
    Tx.succeeds (payload 1 (on σ₁.tables)) fun p _ => p.any fun p =>
      (snapshotsOf (posted p).1).head?.any fun s =>
    Tx.succeeds (store.ingest s.toJson none (some 1) (on σ₁.tables)) fun _ σ₂ =>
    Tx.succeeds (row 1 (some ⟨4, 5, "a"⟩) (on σ₂.tables)) fun r s₂ =>
    Tx.succeeds (cancelState 1 .sending s₂) fun _ σ₃ =>
      (snapshotsOf (canceled p).1).head?.any fun s' =>
    Tx.succeeds (store.ingest s'.toJson none (some 1) (on σ₃.tables)) fun _ σ₄ =>
    Tx.succeeds (cancelState 1 .requested (on σ₄.tables)) fun _ σ₅ =>
    Tx.succeeds (store.perform (.create ⟨4, 5, "b"⟩ "again" [] 0)
      ⟨σ₅.tables, fun _ => 8, fun _ => 3⟩) fun _ σ₆ =>
    Tx.succeeds (row 3 none (on σ₆.tables)) fun r₃ _ =>
    Tx.succeeds (ids true (on σ₆.tables)) fun todo' _ =>
    Tx.succeeds (payload 3 (on σ₆.tables)) fun p' _ => p'.any fun p' =>
      (snapshotsOf (posted' p p').1).head?.any fun s'' =>
    Tx.succeeds (store.ingest s''.toJson none (some 3) (on σ₆.tables)) fun _ σ₇ =>
      (σ₇.tables.receipts.filter fun x => x.sent = false).head?.any fun x =>
    Tx.succeeds (receiptSent x (on σ₇.tables)) fun _ _ =>
      decide (todo = [1] ∧ answerOf asked.1 = some (.refused 404) ∧
        answerOf (posted p).1 = some (.snapshot s) ∧ r.cancelState = none ∧
        answerOf (canceled p).1 = some (.snapshot s') ∧ r₃.submissionState = .pending ∧
        todo' = [3] ∧ answerOf (asked' p).1 = some (.refused 404) ∧
        answerOf (posted' p p').1 = some (.snapshot s'') ∧ x ∈ σ₆.tables.receipts ∧
        (σ₇.tables.receipts.filter fun x => x.sent = false) = [x] ∧
        answerOf (answer (.receipt x.operationId x.resultId x.status) (posted' p p').2).1 =
          some .ok)) = true := by decide +kernel
  obtain ⟨_, σ₁, k₁, hruns⟩ := Tx.exists_of_succeeds hruns
  obtain ⟨todo, _, k₂, hruns⟩ := Tx.exists_of_succeeds hruns
  obtain ⟨p, _, k₃, hruns⟩ := Tx.exists_of_succeeds hruns
  obtain ⟨p, rfl, hrest⟩ := (Option.any_eq_true _ _).mp hruns
  obtain ⟨s, hs, hruns⟩ := (Option.any_eq_true _ _).mp hrest
  obtain ⟨_, σ₂, k₄, hruns⟩ := Tx.exists_of_succeeds hruns
  obtain ⟨r, s₂, k₅, hruns⟩ := Tx.exists_of_succeeds hruns
  obtain ⟨_, σ₃, k₆, hruns⟩ := Tx.exists_of_succeeds hruns
  obtain ⟨s', hs', hruns⟩ := (Option.any_eq_true _ _).mp hruns
  obtain ⟨_, σ₄, k₇, hruns⟩ := Tx.exists_of_succeeds hruns
  obtain ⟨_, σ₅, k₈, hruns⟩ := Tx.exists_of_succeeds hruns
  obtain ⟨_, σ₆, k₉, hruns⟩ := Tx.exists_of_succeeds hruns
  obtain ⟨r₃, _, k₁₀, hruns⟩ := Tx.exists_of_succeeds hruns
  obtain ⟨todo', _, k₁₁, hruns⟩ := Tx.exists_of_succeeds hruns
  obtain ⟨p', _, k₁₂, hruns⟩ := Tx.exists_of_succeeds hruns
  obtain ⟨p', rfl, hrest'⟩ := (Option.any_eq_true _ _).mp hruns
  obtain ⟨s'', hs'', hruns⟩ := (Option.any_eq_true _ _).mp hrest'
  obtain ⟨_, σ₇, k₁₃, hruns⟩ := Tx.exists_of_succeeds hruns
  obtain ⟨x, hx, hruns⟩ := (Option.any_eq_true _ _).mp hruns
  obtain ⟨_, _, k₁₄, hruns⟩ := Tx.exists_of_succeeds hruns
  obtain ⟨rfl, a₁, a₂, hnone, a₃, hpending, rfl, a₄, a₅, hmem, hreceipts, a₆⟩ :=
    of_decide_eq_true hruns
  -- the first operation is accepted, and its cancellation requested
  have n₁ : SampleRun _ := .single (.client (.background (.call (c := .create ..) trivial k₁)))
  have n₂ := n₁.moved (.dispatch rfl k₂)
  have n₃ := n₂.moved (.ask rfl)
  have n₄ := n₃.handled (List.mem_singleton_self _) a₁
  have n₅ := n₄.moved (.post rfl (List.mem_singleton_self _) k₃)
  have n₆ := n₅.handled (c := .submit p) (by simp) a₂
  have n₇ := n₆.moved (.posted (s := s) rfl (by simp [Network.Answered])
    (List.mem_append_right _ (List.mem_of_head? hs)) k₄)
  have n₈ := n₇.moved (.cancel k₅ hnone k₆)
  have n₉ := n₈.handled (c := .cancel 1) (by simp) a₃
  have n₁₀ := n₉.moved (.canceled (s := s') (by simp) (by simp [Network.Answered])
    (List.mem_append_right _ (List.mem_of_head? hs')) k₇ k₈)
  have n₁₁ := n₁₀.moved .leave
  have n₁₂ := n₁₁.moved (.background (.call (c := .create ..) trivial k₉))
  -- the pass
  have begins : ∀ {N : Network}, SampleRun N → Network.PassRun disp ingress store "laptop" N N :=
    fun _ => .refl
  have m₁ := (begins n₁₂).moved (.dispatch rfl k₁₁) (by simp)
  have m₂ := m₁.moved (.ask rfl) (by simp)
  have m₃ := m₂.handled (by simp) (c := .get 3) (by simp) a₄
  have m₄ := m₃.moved (.post rfl (by simp [Network.Answered]) k₁₂) (by simp)
  have m₅ := m₄.handled (by simp) (c := .submit p') (by simp) a₅
  have m₆ := m₅.moved (.posted (s := s'') rfl (by simp [Network.Answered])
    (List.mem_append_right _ (List.mem_of_head? hs'')) k₁₃) (by simp)
  have m₇ := m₆.moved (.flush rfl) (by simp)
  have m₈ := m₇.moved (.sendReceipt (congrArg Position.flushing hreceipts)) (by simp)
  have m₉ := m₈.handled (by simp) (c := .receipt x.operationId x.resultId x.status) (by simp) a₆
  have m₁₀ := m₉.moved (.sent rfl (by simp [Network.Answered]) k₁₄) (by simp)
  obtain ⟨hr₃, -, -⟩ := row_eq_ok.mp k₁₀
  obtain ⟨hsettled, hsent⟩ := pass_settles n₁₂ rfl m₁₀ rfl
  obtain ⟨r', hr', hmarks⟩ := hsettled 3 ⟨r₃, hr₃, hpending⟩
  refine ⟨_, _, x, n₁₂, ⟨r₃, hr₃, hpending⟩, hmem, (hsent x hmem).1, r', hr', ?_⟩
  rcases hmarks with ⟨hmark, -⟩ | ⟨hmark, -⟩ | ⟨hmark | hmark, -⟩ <;> rw [hmark] <;> decide

end HermesGateway.System
