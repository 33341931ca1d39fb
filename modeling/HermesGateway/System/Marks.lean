import HermesGateway.Client.Marks
import HermesGateway.System.Answers

/-!
# Marks are right

What the client says of an operation after a restart is all it has: that the broker took it, that
the broker refused it, that its cancellation was requested, that a receipt was sent. Each of these
was read off an answer, and answers stay true.

## Main results

* `Network.Run.sound` — marks rest on answers, and answers are true
* `answers_true` — whatever was answered to a command holds at every later time
* `accepted_there` — an operation marked as accepted is in the ledger
* `rejected_never` — an operation marked as rejected is not, and never will be
* `cancellation_settled` — a cancellation is sent once, and its outcome is final
* `sent_once` — a receipt marked as sent is in the ledger once
-/

namespace HermesGateway.System

open Broker BrokerStore Client ClientStore

section

variable {disp : BrokerDispatcher} {ingress : Ingress} {store : ClientStore} {d : Device}
  {N N' : Network} {X Y : Exchange} {ms : List Meeting}

/-! ### Runs -/

/-- The client's rows have different identifiers. -/
theorem Network.Run.keyed (h : Network.Run disp ingress store d Network.initial N) :
    Table.Keyed ClientRow.operationId N.tables.operations :=
  h.honest.2.inbox.distinct.operations

/-- The marks, after one step of the system. -/
theorem Network.Step.marked (h : N.Inv disp ingress store d)
    (hkeyed : Table.Keyed ClientRow.operationId N.tables.operations)
    (hmarked : N.uplink.Marked N.Answered (· ∈ N.shown) N.commands)
    (hstep : Network.Step disp ingress store d N N') :
    N'.uplink.Marked N'.Answered (· ∈ N'.shown) N'.commands := by
  cases hstep with
  | handle =>
    exact hmarked.mono (fun _ _ => List.mem_append_left _) fun _ => List.mem_append_left _
  | outage => exact hmarked.mono (fun _ _ => List.mem_append_left _) fun _ => id
  | broker => exact hmarked.mono (fun _ _ => id) fun _ => List.mem_append_left _
  | claim => exact hmarked.mono (fun _ _ => id) fun _ => id
  | client huplink =>
    exact huplink.marked hmarked hkeyed fun op p todo hposition =>
      (h.posts.posting op p todo hposition).2

/-- **Marks rest on answers, and answers are true.** -/
theorem Network.Run.sound (h : Network.Run disp ingress store d Network.initial N) :
    N.Inv disp ingress store d ∧ N.uplink.Marked N.Answered (· ∈ N.shown) N.commands := by
  induction h with
  | refl => exact ⟨Network.inv_initial, Uplink.marked_initial⟩
  | tail hrun hstep ih => exact ⟨hstep.inv ih.1, hstep.marked ih.1 (Network.Run.keyed hrun) ih.2⟩

/-- The broker's row of an operation, at a later time. -/
theorem Exchange.row_of_trace (h : Trace (Exchange.Step disp store d) X ms Y) (hX : X.broker.Inv)
    {k : Key} {r : OperationRow} (hr : X.broker.ledger.operation? k = some r) :
    ∃ r', Y.broker.ledger.operation? k = some r' ∧ Descends r r' ∧ (Stopped r → Stopped r') := by
  refine (h.invariant (I := fun X => X.broker.Inv ∧ ∃ r', X.broker.ledger.operation? k = some r' ∧
    Descends r r' ∧ (Stopped r → Stopped r')) ?_ ⟨hX, r, hr, .refl r, id⟩).2
  rintro X l Y ⟨hinv, r', hr', hdesc, hstopped⟩ hstep
  cases hstep with
  | broker hbroker =>
    obtain ⟨⟨ks, hmoves⟩, hinv'⟩ := hbroker.disciplined hinv
    obtain ⟨r'', hr'', hdesc'⟩ := descends_of_trace hmoves hr'
    refine ⟨hinv', r'', hr'', hdesc.trans hdesc', fun h => ?_⟩
    obtain ⟨x, hx, hlater⟩ := stopped_of_trace hmoves hr' (hstopped h)
    exact Option.some.inj (hr''.symm.trans hx) ▸ hlater
  | client | ingest => exact ⟨hinv, r', hr', hdesc, hstopped⟩

/-- No receipt is stored twice. -/
theorem receiptsKeyed_of_move {R : Time → Time → Prop} {P : Ledger → OperationRow → Edit → Prop}
    {L L' : Ledger} {ks : List Key} (hmove : Move R P L ks L')
    (h : Table.Keyed Broker.ReceiptRow.key L.receipts) :
    Table.Keyed Broker.ReceiptRow.key L'.receipts := by
  cases hmove with
  | receipt _ _ hnew =>
    refine Table.keyed_insert h (Table.lookup_eq_none.mpr fun x hx => ?_)
    exact hnew x hx
  | @edit k e =>
    change Table.Keyed Broker.ReceiptRow.key (e.ledger k L).receipts
    rwa [receipts_ledger]
  | device | insert | poll | cancelClaim | purgeEvents | dropArtifacts | putArtifact | purge =>
    exact h

theorem Exchange.receipts_keyed (h : Trace (Exchange.Step disp store d) Exchange.initial ms X) :
    Table.Keyed Broker.ReceiptRow.key X.broker.ledger.receipts := by
  have hinitial : Table.Keyed Broker.ReceiptRow.key Exchange.initial.broker.ledger.receipts :=
    List.nodup_nil
  refine (h.invariant (I := fun X => X.broker.Inv ∧
    Table.Keyed Broker.ReceiptRow.key X.broker.ledger.receipts) ?_
    ⟨Process.inv_initial, hinitial⟩).2
  rintro X l Y ⟨hinv, hkeyed⟩ hstep
  cases hstep with
  | broker hbroker =>
    obtain ⟨⟨ks, hmoves⟩, hinv'⟩ := hbroker.disciplined hinv
    exact ⟨hinv', hmoves.invariant (I := fun L => Table.Keyed Broker.ReceiptRow.key L.receipts)
      (fun h hmove => receiptsKeyed_of_move hmove h) hkeyed⟩
  | client | ingest => exact ⟨hinv, hkeyed⟩

/-- A row of the client's, at a later time. -/
theorem Network.Run.rows (h : Network.Run disp ingress store d N N') {op : Uuid}
    {I : ClientRow → Prop} (hI : ∀ M M', Network.Run disp ingress store d N M →
      Network.Step disp ingress store d M M' → ∀ r, M.tables.operation? op = some r → I r →
      ∃ r', M'.tables.operation? op = some r' ∧ I r') {r : ClientRow}
    (hr : N.tables.operation? op = some r) (h₀ : I r) :
    ∃ r', N'.tables.operation? op = some r' ∧ I r' := by
  induction h with
  | refl => exact ⟨r, hr, h₀⟩
  | tail hrun hstep ih =>
    obtain ⟨r', hr', h'⟩ := ih
    exact hI _ _ hrun hstep r' hr' h'

/-- An operation the broker does not have was never shown. -/
theorem Network.Run.unseen (h : Network.Run disp ingress store d Network.initial N) {op : Uuid}
    (hnone : N.broker.ledger.operation? (d, op) = none) : ¬ Seen (· ∈ N.shown) op := by
  rintro ⟨s, hs, rfl⟩
  obtain ⟨⟨ms, hinv⟩, -⟩ := h.honest
  obtain ⟨r, hr, -⟩ := hinv.shown s hs
  cases hnone.symm.trans hr

/-- The broker does not have an operation it has refused. -/
theorem Network.Run.rejected (h : Network.Run disp ingress store d Network.initial N) {op : Uuid}
    {r : ClientRow} (hr : N.tables.operation? op = some r)
    (hrejected : r.submissionState = .rejected) : N.broker.ledger.operation? (d, op) = none := by
  obtain ⟨hinv, hmarked⟩ := h.sound
  obtain ⟨p, status, rfl, hanswer, hstatus⟩ := hmarked.rejected op r hr hrejected
  obtain ⟨hp, hattests⟩ := hinv.answered _ _ hanswer
  by_contra hsome
  obtain ⟨r₀, hr₀⟩ := Option.ne_none_iff_exists'.mp hsome
  -- what the broker has was read from the same payload, so it was admissible
  obtain ⟨request, ⟨p', hp', hop', hrequest⟩, hop, -, hadmits⟩ := hinv.accepted.operations _ r₀ hr₀
  obtain rfl := hinv.posts.single p' p hp' hp (hop'.trans hop)
  exact hattests hstatus request hrequest N.artifacts (fun _ => id) hinv.accepted.unambiguous
    hadmits

end

/-- A run of the tests below. -/
abbrev SampleRun : Network → Prop :=
  Network.Run ⟨BrokerStore.default, fun _ => "", fun _ => none⟩
    ⟨2097152, fun _ => 256, nativeUuid⟩ ⟨ClientSettings.default, fun _ => ""⟩ "laptop"
    Network.initial

/-- A run in which an operation is posted and accepted, its cancellation is requested, and its
receipt is sent. -/
theorem sampleRun_stored : ∃ N r x, SampleRun N ∧ N.tables.operation? 1 = some r ∧
    r.submissionState = .accepted ∧ r.cancelState = some .requested ∧ x ∈ N.tables.receipts ∧
    x.sent = true := by
  let disp : BrokerDispatcher := ⟨BrokerStore.default, fun _ => "", fun _ => none⟩
  let store : ClientStore := ⟨ClientSettings.default, fun _ => ""⟩
  let ingress : Ingress := ⟨2097152, fun _ => 256, nativeUuid⟩
  let answer (c : Command) (L : Ledger) : Response × Ledger :=
    BrokerStore.answer disp.store ingress "laptop" c ⟨L, fun _ => 7, fun _ => 3⟩
  let on (T : Tables) : Client.Session := ⟨T, fun _ => 8, fun _ => 0⟩
  let asked := answer (.get 1) Ledger.empty
  let posted (p : Payload) := answer (.submit p) asked.2
  let canceled (p : Payload) := answer (.cancel 1) (posted p).2
  have hruns : (Tx.succeeds (store.perform (.create ⟨4, 5, "a"⟩ "hello" [] 0)
      ⟨Tables.empty, fun _ => 5, fun n => if n = 0 then 1 else 2⟩) fun _ σ₁ =>
    Tx.succeeds (ids true (on σ₁.tables)) fun todo _ =>
    Tx.succeeds (payload 1 (on σ₁.tables)) fun p _ => p.any fun p =>
      (snapshotsOf (posted p).1).head?.any fun s =>
    Tx.succeeds (store.ingest s.toJson none (some 1) (on σ₁.tables)) fun _ σ₂ =>
    Tx.succeeds (row 1 (some ⟨4, 5, "a"⟩) (on σ₂.tables)) fun r s₂ =>
    Tx.succeeds (cancelState 1 .sending s₂) fun _ σ₃ =>
      (snapshotsOf (canceled p).1).head?.any fun s' =>
    Tx.succeeds (store.ingest s'.toJson none (some 1) (on σ₃.tables)) fun _ σ₄ =>
    Tx.succeeds (cancelState 1 .requested (on σ₄.tables)) fun _ σ₅ =>
      (σ₅.tables.receipts.filter fun x => x.sent = false).head?.any fun x =>
    Tx.succeeds (receiptSent x (on σ₅.tables)) fun _ σ₆ =>
    Tx.succeeds (row 1 none (on σ₆.tables)) fun r' _ =>
      decide (todo = [1] ∧ answerOf asked.1 = some (.refused 404) ∧
        answerOf (posted p).1 = some (.snapshot s) ∧ r.cancelState = none ∧
        answerOf (canceled p).1 = some (.snapshot s') ∧
        (σ₅.tables.receipts.filter fun x => x.sent = false) = [x] ∧
        answerOf (answer (.receipt x.operationId x.resultId x.status) (canceled p).2).1 = some .ok ∧
        r'.submissionState = .accepted ∧ r'.cancelState = some .requested ∧
        ∃ x ∈ σ₆.tables.receipts, x.sent = true)) = true := by decide +kernel
  obtain ⟨_, σ₁, k₁, hruns⟩ := Tx.exists_of_succeeds hruns
  obtain ⟨todo, _, k₂, hruns⟩ := Tx.exists_of_succeeds hruns
  obtain ⟨p, _, k₃, hruns⟩ := Tx.exists_of_succeeds hruns
  obtain ⟨p, rfl, hrest⟩ := (Option.any_eq_true _ _).mp hruns
  obtain ⟨s, hs, hruns⟩ := (Option.any_eq_true _ _).mp hrest
  obtain ⟨_, σ₂, k₄, hruns⟩ := Tx.exists_of_succeeds hruns
  obtain ⟨r, s₂, k₅, hruns⟩ := Tx.exists_of_succeeds hruns
  obtain ⟨_, σ₃, k₆, hruns⟩ := Tx.exists_of_succeeds hruns
  obtain ⟨s', hs', hruns⟩ := (Option.any_eq_true _ _).mp hruns
  obtain ⟨_, σ₄, k₇, hruns⟩ := Tx.exists_of_succeeds hruns
  obtain ⟨_, σ₅, k₈, hruns⟩ := Tx.exists_of_succeeds hruns
  obtain ⟨x, hx, hruns⟩ := (Option.any_eq_true _ _).mp hruns
  obtain ⟨_, σ₆, k₉, hruns⟩ := Tx.exists_of_succeeds hruns
  obtain ⟨r', _, k₁₀, hruns⟩ := Tx.exists_of_succeeds hruns
  obtain ⟨rfl, a₁, a₂, hnone, a₃, hreceipts, a₄, haccepted, hrequested, y, hy, hsent⟩ :=
    of_decide_eq_true hruns
  have n₁ : SampleRun _ := .single (.client (.background (.call (c := .create ..) trivial k₁)))
  have n₂ := n₁.moved (.dispatch rfl k₂)
  have n₃ := n₂.moved (.ask rfl)
  have n₄ := n₃.handled (List.mem_singleton_self _) a₁
  have n₅ := n₄.moved (.post rfl (List.mem_singleton_self _) k₃)
  have n₆ := n₅.handled (c := .submit p) (by simp) a₂
  have n₇ := n₆.moved (.posted (s := s) rfl (by simp [Network.Answered])
    (List.mem_append_right _ (List.mem_of_head? hs)) k₄)
  have n₈ := n₇.moved (.cancel k₅ hnone k₆)
  have n₉ := n₈.handled (c := .cancel 1) (by simp) a₃
  have n₁₀ := n₉.moved (.canceled (s := s') (by simp) (by simp [Network.Answered])
    (List.mem_append_right _ (List.mem_of_head? hs')) k₇ k₈)
  have n₁₁ := n₁₀.moved (.flush rfl)
  have n₁₂ := n₁₁.moved (.sendReceipt (congrArg Position.flushing hreceipts))
  have n₁₃ := n₁₂.handled (c := .receipt x.operationId x.resultId x.status) (by simp) a₄
  have n₁₄ := n₁₃.moved (.sent rfl (by simp [Network.Answered]) k₉)
  obtain ⟨hr, -, -⟩ := row_eq_ok.mp k₁₀
  exact ⟨_, r', y, n₁₄, hr, haccepted, hrequested, hy, hsent⟩

/-- A run in which an operation is posted and refused: the broker takes 16 artifacts at most. -/
theorem sampleRun_rejected : ∃ N r, SampleRun N ∧ N.tables.operation? 1 = some r ∧
    r.submissionState = .rejected := by
  let disp : BrokerDispatcher := ⟨BrokerStore.default, fun _ => "", fun _ => none⟩
  let store : ClientStore := ⟨ClientSettings.default, fun _ => ""⟩
  let ingress : Ingress := ⟨2097152, fun _ => 256, nativeUuid⟩
  let answer (c : Command) : Response × Ledger :=
    BrokerStore.answer disp.store ingress "laptop" c ⟨Ledger.empty, fun _ => 7, fun _ => 3⟩
  let on (T : Tables) : Client.Session := ⟨T, fun _ => 8, fun _ => 0⟩
  have hruns : (Tx.succeeds (store.perform
      (.create ⟨4, 5, "a"⟩ "hello" (List.replicate 17 (Uuid.text 9)) 0)
      ⟨Tables.empty, fun _ => 5, fun n => if n = 0 then 1 else 2⟩) fun _ σ₁ =>
    Tx.succeeds (ids true (on σ₁.tables)) fun todo _ =>
    Tx.succeeds (payload 1 (on σ₁.tables)) fun p _ => p.any fun p =>
    Tx.succeeds (markSubmission 1 .rejected (on σ₁.tables)) fun _ σ₂ =>
    Tx.succeeds (row 1 none (on σ₂.tables)) fun r _ =>
      decide (todo = [1] ∧ answerOf (answer (.get 1)).1 = some (.refused 404) ∧
        answerOf (answer (.submit p)).1 = some (.refused 400) ∧
        r.submissionState = .rejected)) = true := by decide +kernel
  obtain ⟨_, σ₁, k₁, hruns⟩ := Tx.exists_of_succeeds hruns
  obtain ⟨todo, _, k₂, hruns⟩ := Tx.exists_of_succeeds hruns
  obtain ⟨p, _, k₃, hruns⟩ := Tx.exists_of_succeeds hruns
  obtain ⟨p, rfl, hrest⟩ := (Option.any_eq_true _ _).mp hruns
  obtain ⟨_, σ₂, k₄, hruns⟩ := Tx.exists_of_succeeds hrest
  obtain ⟨r, _, k₅, hruns⟩ := Tx.exists_of_succeeds hruns
  obtain ⟨rfl, a₁, a₂, hrejected⟩ := of_decide_eq_true hruns
  have n₁ : SampleRun _ := .single (.client (.background (.call (c := .create ..) trivial k₁)))
  have n₂ := n₁.moved (.dispatch rfl k₂)
  have n₃ := n₂.moved (.ask rfl)
  have n₄ := n₃.handled (List.mem_singleton_self _) a₁
  have n₅ := n₄.moved (.post rfl (List.mem_singleton_self _) k₃)
  have n₆ := n₅.handled (c := .submit p) (by simp) a₂
  have hrefused : (Command.submit p, Outcome.refused 400) ∈ _ ++ [_] :=
    List.mem_append_right [(Command.get 1, Outcome.refused 404)] (List.mem_singleton_self _)
  have n₇ := n₆.moved (.reject rfl hrefused (by decide) k₄)
  obtain ⟨hr, -, -⟩ := row_eq_ok.mp k₅
  exact ⟨_, r, n₇, hr, hrejected⟩

section

variable {disp : BrokerDispatcher} {ingress : Ingress} {store : ClientStore} {d : Device}
  {N N' : Network}

/-! ### Main results -/

/-- **Answers stay true.** Whatever was answered to a command of the client, at any time of a run:
an operation that was accepted is in the ledger, a refusal for good is of a request that no
artifacts make admissible, an operation that was canceled is stopped, and a receipt that was
acknowledged is stored. -/
theorem answers_true (h : Network.Run disp ingress store d Network.initial N) {c : Command}
    {a : Outcome} (ha : N.Answered c a) : N.Attests disp ingress d c a :=
  (h.sound.1.answered c a ha).2

theorem answers_true_canceled : ∃ N s, SampleRun N ∧
    N.Attests ⟨BrokerStore.default, fun _ => "", fun _ => none⟩ ⟨2097152, fun _ => 256, nativeUuid⟩
      "laptop" (.cancel 1) (.snapshot s) := by
  obtain ⟨N, r, x, h, hr, -, hrequested, -⟩ := sampleRun_stored
  obtain ⟨s, hs⟩ := (Network.Run.sound h).2.requested 1 r hr hrequested
  exact ⟨N, s, h, answers_true h hs⟩

/-- **What is marked as accepted was accepted**: the broker has made the operation of the request
the client posted, with the prompt and the artifacts of the call, and keeps it. -/
theorem accepted_there (h : Network.Run disp ingress store d Network.initial N)
    (h' : Network.Run disp ingress store d N N') {op : Uuid} {r : ClientRow}
    (hr : N.tables.operation? op = some r) (haccepted : r.submissionState = .accepted) :
    ∃ p request r', .submit p ∈ N.commands ∧ p.operationId = op ∧ Bears store r p ∧
      ingress.request (.submit p) = .ok (.accept request) ∧
      N'.broker.ledger.operation? (d, op) = some r' ∧ r'.digest = disp.store.digest request := by
  obtain ⟨hinv, hmarked⟩ := h.sound
  obtain ⟨s, hs, rfl⟩ := hmarked.accepted op r hr haccepted
  obtain ⟨⟨ms, hhonest⟩, -⟩ := h.honest
  obtain ⟨r₀, hr₀, -⟩ := hhonest.shown s hs
  obtain ⟨request, ⟨p, hp, hop, hrequest⟩, hop', hdigest, -⟩ := hinv.accepted.operations _ r₀ hr₀
  obtain ⟨r₁, hr₁, hbears, -⟩ := hinv.posts.posted p hp
  rw [hop.trans hop', hr] at hr₁
  obtain rfl := Option.some.inj hr₁
  obtain ⟨ms', htrace⟩ := h'.exchange
  obtain ⟨r', hr', hdesc, -⟩ := Exchange.row_of_trace htrace hinv.broker hr₀
  exact ⟨p, request, r', hp, hop.trans hop', hbears, hrequest, hr', hdesc.digest.trans hdigest⟩

theorem accepted_there_stored : ∃ N p r', SampleRun N ∧ .submit p ∈ N.commands ∧
    N.broker.ledger.operation? ("laptop", p.operationId) = some r' := by
  obtain ⟨N, r, x, h, hr, haccepted, -⟩ := sampleRun_stored
  obtain ⟨p, request, r', hp, hop, -, -, hr', -⟩ := accepted_there h .refl hr haccepted
  exact ⟨N, p, r', h, hp, hop ▸ hr'⟩

/-- **What is marked as rejected is never accepted.** The broker does not have the operation, and at
no later time will it have it, whatever commands are still in flight; and the mark stays. -/
theorem rejected_never (h : Network.Run disp ingress store d Network.initial N)
    (h' : Network.Run disp ingress store d N N') {op : Uuid} {r : ClientRow}
    (hr : N.tables.operation? op = some r) (hrejected : r.submissionState = .rejected) :
    N'.broker.ledger.operation? (d, op) = none ∧
      ∃ r', N'.tables.operation? op = some r' ∧ r'.submissionState = .rejected := by
  have hstays : ∃ r', N'.tables.operation? op = some r' ∧ r'.submissionState = .rejected := by
    refine h'.rows (I := fun r => r.submissionState = .rejected) ?_ hr hrejected
    intro M M' hM hstep r hr hrejected
    have hrun := h.trans hM
    cases hstep with
    | handle | outage | broker | claim => exact ⟨r, hr, hrejected⟩
    | client huplink =>
      have hunseen := Network.Run.unseen hrun (Network.Run.rejected hrun hr hrejected)
      exact huplink.stays_rejected (Network.Run.sound hrun).2 hunseen hr hrejected
  obtain ⟨r', hr', hrejected'⟩ := hstays
  exact ⟨Network.Run.rejected (h.trans h') hr' hrejected', r', hr', hrejected'⟩

theorem rejected_never_crowded : ∃ N, SampleRun N ∧
    N.broker.ledger.operation? ("laptop", 1) = none ∧
      ∃ r, N.tables.operation? 1 = some r ∧ r.submissionState = .rejected := by
  obtain ⟨N, r, h, hr, hrejected⟩ := sampleRun_rejected
  exact ⟨N, h, rejected_never h .refl hr hrejected⟩

/-- **A cancellation is sent once**, over all calls and all restarts, and its outcome is decided
once. One that is marked as requested has stopped the operation for good. -/
theorem cancellation_settled (h : Network.Run disp ingress store d Network.initial N)
    (h' : Network.Run disp ingress store d N N') (op : Uuid) :
    N'.commands.count (.cancel op) ≤ 1 ∧
      ∀ r, N.tables.operation? op = some r → Decided r.cancelState →
        (∃ r', N'.tables.operation? op = some r' ∧ r'.cancelState = r.cancelState) ∧
        (r.cancelState = some .requested →
          ∃ r₀, N'.broker.ledger.operation? (d, op) = some r₀ ∧ Stopped r₀) := by
  refine ⟨(Network.Run.sound (h.trans h')).2.once op,
    fun r hr hdecided => ⟨?_, fun hrequested => ?_⟩⟩
  · refine h'.rows (I := fun r' => r'.cancelState = r.cancelState) ?_ hr rfl
    intro M M' hM hstep r' hr' hsame
    cases hstep with
    | handle | outage | broker | claim => exact ⟨r', hr', hsame⟩
    | client huplink =>
      obtain ⟨r'', hr'', hkept⟩ := huplink.stays_decided (Network.Run.sound (h.trans hM)).2 hr'
        (hsame ▸ hdecided)
      exact ⟨r'', hr'', hkept.trans hsame⟩
  · obtain ⟨hinv, hmarked⟩ := h.sound
    obtain ⟨s, hanswer⟩ := hmarked.requested op r hr hrequested
    obtain ⟨r₀, hr₀, hstopped⟩ := (hinv.answered _ _ hanswer).2
    obtain ⟨ms, htrace⟩ := h'.exchange
    obtain ⟨r₁, hr₁, -, hlater⟩ := Exchange.row_of_trace htrace hinv.broker hr₀
    exact ⟨r₁, hr₁, hlater hstopped⟩

theorem cancellation_settled_stored : ∃ N r, SampleRun N ∧ N.commands.count (.cancel 1) ≤ 1 ∧
    N.broker.ledger.operation? ("laptop", 1) = some r ∧ Stopped r := by
  obtain ⟨N, r, x, h, hr, -, hrequested, -⟩ := sampleRun_stored
  obtain ⟨honce, hsettled⟩ := cancellation_settled h .refl 1
  obtain ⟨r₀, hr₀, hstopped⟩ := (hsettled r hr (.inl hrequested)).2 hrequested
  exact ⟨N, r₀, h, honce, hr₀, hstopped⟩

/-- **What is marked as sent is stored, once**: the ledger has one row of the receipt, with the
operation's result, and keeps it. -/
theorem sent_once (hparse : ∀ u : Uuid, ingress.parseUuid u.text = some u)
    (h : Network.Run disp ingress store d Network.initial N)
    (h' : Network.Run disp ingress store d N N') {x : Client.ReceiptRow}
    (hx : x ∈ N.tables.receipts) (hsent : x.sent = true) :
    ∃ id r y, x.resultId = Uuid.text id ∧
      N'.broker.ledger.operation? (d, x.operationId) = some r ∧ r.resultId = some id ∧
      (N'.broker.ledger.receipts.filter fun y =>
        y.key = ((d, x.operationId), id, postedStatus x.status)) = [y] := by
  obtain ⟨hinv, hmarked⟩ := h.sound
  obtain ⟨id, hid, hreceived⟩ := (hinv.answered _ _ (hmarked.sent x.key ⟨x, hx, rfl, hsent⟩)).2
  obtain ⟨ms, htrace⟩ := h.exchange
  obtain ⟨ms', htrace'⟩ := h'.exchange
  have hthere : N'.tables.HasReceipt x.key :=
    Exchange.hasReceipt_of_trace htrace' h.honest.2 ⟨x, hx, rfl⟩
  obtain ⟨id', hid', r, hr, hresult⟩ := Exchange.result_of_receipt (htrace.trans htrace') hthere
  have hread : ingress.parseUuid x.resultId = some id' := by
    rw [show x.resultId = Uuid.text id' from hid', hparse]
  obtain rfl : id = id' := Option.some.inj (hid.symm.trans hread)
  obtain ⟨-, y, hy, hkey⟩ := Exchange.received_of_trace htrace' hinv.broker hreceived
  refine ⟨id, r, y, hid', hr, hresult, ?_⟩
  have hkeyed := Exchange.receipts_keyed (htrace.trans htrace')
  rw [← show y.key = ((d, x.operationId), id, postedStatus x.status) from hkey]
  exact hkeyed.filter_key hy

theorem sent_once_stored : ∃ N x id y, SampleRun N ∧ x ∈ N.tables.receipts ∧
    (N.broker.ledger.receipts.filter fun y =>
      y.key = (("laptop", x.operationId), id, postedStatus x.status)) = [y] := by
  obtain ⟨N, r, x, h, -, -, -, hx, hsent⟩ := sampleRun_stored
  have hparse : ∀ u : Uuid,
      (⟨2097152, fun _ => 256, nativeUuid⟩ : Ingress).parseUuid u.text = some u := by
    intro u
    dsimp only
    exact nativeUuid_text u
  obtain ⟨id, r, y, -, -, -, hstored⟩ := sent_once hparse h .refl hx hsent
  exact ⟨N, x, id, y, h, hx, hstored⟩

end

end HermesGateway.System
