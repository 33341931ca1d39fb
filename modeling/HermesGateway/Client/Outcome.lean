import HermesGateway.Client.Adapter

/-!
# How deliveries end

`enqueue` and `reconcile` end in few ways, and `deliver_ready` has a handler for each, except where
a request meets an exception that is on no list. In the list of a queue a member that cannot be
iterated over raises `TypeError`, and an identifier with a lone surrogate cannot be bound in the
statement that stores it. Nobody catches these, and the one worker that submits, delivers and
acknowledges ends.

## Main definitions

* `recorded`, `recordedFound` — what `deliver_ready` records of the ends
* `NativeQueueDelivery.Classified`, `Reconciled` — how `enqueue` and `reconcile` may end
* `NativeQueueDelivery.Unstorable`, `Derails` — what they meet otherwise

## Main results

* `NativeQueueDelivery.outcome_classified_iff` — they end so, and are recorded, exactly when they
  meet none of it
-/

namespace HermesGateway.Client

open ClientStore

/-! ### What is recorded -/

section

-- Whether a text can be bound in a statement: one with a lone surrogate has no bytes.
variable (encodable : String → Bool)

/-- What `deliver_ready` records of the end of `enqueue`; nothing where an exception leaves it, and
the worker with it. -/
def recorded : Except Exc String → Option (DeliveryState × Option String)
  | .ok queueId => if encodable queueId then some (.queued, some queueId) else none
  | .error .unsupported => some (.unsupported, none)
  | .error .outcomeUnknown => some (.deliveryOutcomeUnknown, none)
  | .error _ => none

/-- What it records of the end of `reconcile`, where it goes on: an identifier, or nothing; nothing
at all where an exception leaves it. -/
def recordedFound : Except Exc (Option String) → Option (Option String)
  | .ok (some queueId) =>
    if queueId = "" then some none else if encodable queueId then some (some queueId) else none
  | .ok none | .error .unsupported | .error .outcomeUnknown => some none
  | .error _ => none

end

/-! ### How they may end -/

namespace NativeQueueDelivery

variable {a : NativeQueueDelivery}

/-- The result of `thread/queue/add` acknowledges the delivery with a queue identifier. -/
def Acknowledges (deliveryId text : String) (result : Json) (queueId : String) : Prop :=
  ∃ item input, result.get? "queuedSubmission" = some item ∧ member "id" item = .str queueId ∧
    queueId ≠ "" ∧ member "clientUserMessageId" item = .str deliveryId ∧
    member "input" item = .arr [input] ∧ member "type" input = .str "text" ∧
    member "text" input = .str text

/-- The frame of `thread/queue/add`. -/
def addFrame (threadId deliveryId text : String) : Json :=
  requestFrame "thread/queue/add" (addParams threadId deliveryId text)

/-- The frame of `thread/queue/list`. -/
def listFrame (threadId : String) (cursor : Json) : Json :=
  requestFrame "thread/queue/list" (listParams threadId cursor)

/-- `enqueue` ends as it may: with the queue identifier of an acknowledgment, with
`NativeUnsupported` and no request to add written, or with `NativeOutcomeUnknown`. -/
def Classified (a : NativeQueueDelivery) (threadId deliveryId text : String) (server : AppServer) :
    Except Exc String × List Json → Prop
  | (.ok queueId, _) =>
    ∃ result, a.Yields server (addFrame threadId deliveryId text) result ∧
      Acknowledges deliveryId text result queueId
  | (.error .unsupported, written) => NeverAdded written
  | (.error .outcomeUnknown, _) => True
  | (.error (.listed _), _) | (.error (.escape _), _) => False

/-- `reconcile` ends as it may: it returns or raises `NativeUnsupported`. -/
def Reconciled : Except Exc (Option String) → Prop
  | .ok _ => True
  | .error e => e = .unsupported

/-- An acknowledgment has a queue identifier that cannot be stored. -/
def Unstorable (a : NativeQueueDelivery) (encodable : String → Bool)
    (threadId deliveryId text : String) (server : AppServer) : Prop :=
  ∃ result queueId, a.Yields server (addFrame threadId deliveryId text) result ∧
    Acknowledges deliveryId text result queueId ∧ encodable queueId = false

/-- One of the next `n` requests for a page, the first of `servers i` with the cursor, meets an
exception nobody has a handler for; or a page has items that cannot be gone through; or the last
page leaves an identifier that cannot be stored, where `ids` are those of the pages before. -/
inductive Derails (a : NativeQueueDelivery) (encodable : String → Bool)
    (threadId deliveryId text : String) (servers : ℕ → AppServer) :
    ℕ → ℕ → Json → List String → Prop
  | escapes {n i : ℕ} {cursor : Json} {ids : List String}
      (h : a.Escapes (servers i) (listFrame threadId cursor)) :
      Derails a encodable threadId deliveryId text servers (n + 1) i cursor ids
  | items {n i : ℕ} {cursor result : Json} {ids : List String}
      (h : a.Yields (servers i) (listFrame threadId cursor) result)
      (hitems : items result = none) :
      Derails a encodable threadId deliveryId text servers (n + 1) i cursor ids
  | last {n i : ℕ} {cursor result : Json} {ids : List String} {page : List Json}
      {queueId : String} (h : a.Yields (servers i) (listFrame threadId cursor) result)
      (hitems : items result = some page) (hcursor : a.falsy (member "nextCursor" result) = true)
      (hunique : unique (ids ++ page.filterMap (matched deliveryId text)) = some queueId)
      (hne : queueId ≠ "") (hstored : encodable queueId = false) :
      Derails a encodable threadId deliveryId text servers (n + 1) i cursor ids
  | next {n i : ℕ} {cursor result : Json} {ids : List String} {page : List Json}
      (h : a.Yields (servers i) (listFrame threadId cursor) result)
      (hitems : items result = some page) (hcursor : a.falsy (member "nextCursor" result) = false)
      (hnext : Derails a encodable threadId deliveryId text servers n (i + 1)
        (member "nextCursor" result) (ids ++ page.filterMap (matched deliveryId text))) :
      Derails a encodable threadId deliveryId text servers (n + 1) i cursor ids

/-! ### The end of `enqueue` -/

/-- A queue identifier comes from an acknowledgment. -/
theorem acknowledged_eq_ok {deliveryId text queueId : String} {result : Json}
    (h : acknowledged deliveryId text result = .ok queueId) :
    Acknowledges deliveryId text result queueId := by
  cases hitem : result.get? "queuedSubmission" with
  | none =>
    rw [acknowledged, hitem] at h
    cases h
  | some item =>
    rw [acknowledged, hitem] at h
    simp only [Option.getD_some] at h
    split at h
    · cases h
    next id hid =>
      split_ifs at h with hempty hother
      obtain rfl : id = queueId := Except.ok.inj h
      obtain ⟨-, hne⟩ := not_or.1 hempty
      obtain ⟨hdelivery, htext⟩ := not_or.1 hother
      obtain ⟨input, hinput, htype, hsame⟩ := sameText_eq_true (by simpa using htext)
      have hstr : member "id" item = .str id := by
        cases hv : member "id" item <;> rw [hv] at hid <;> cases hid
        rfl
      exact ⟨item, input, hitem, hstr, hne, not_not.1 hdelivery, hinput, htype, hsame⟩

theorem acknowledged_of_acknowledges {deliveryId text queueId : String} {result : Json}
    (h : Acknowledges deliveryId text result queueId) :
    acknowledged deliveryId text result = .ok queueId := by
  obtain ⟨item, input, hitem, hid, hne, hdelivery, hinput, htype, htext⟩ := h
  have hobj : item.isObj = true := isObj_of_member hid
  have hsame : sameText (member "input" item) text = true :=
    sameText_iff.mpr ⟨input, hinput, htype, htext⟩
  simp [acknowledged, hitem, hid, Json.str?, hobj, hne, hdelivery, hsame]

theorem acknowledged_eq_error {deliveryId text : String} {result : Json} {e : Exc}
    (h : acknowledged deliveryId text result = .error e) : e = .outcomeUnknown := by
  unfold acknowledged at h
  dsimp only at h
  split at h
  · exact (Except.error.inj h).symm
  · split_ifs at h
    · exact (Except.error.inj h).symm
    · exact (Except.error.inj h).symm

/-- `enqueue` ends as it may unless the request meets an exception nobody has a handler for. -/
theorem classified_iff (threadId deliveryId text : String) (server : AppServer) :
    a.Classified threadId deliveryId text server (a.enqueue threadId deliveryId text server) ↔
      ¬ a.Escapes server (addFrame threadId deliveryId text) := by
  have htells := rpc_tells (a := a) "thread/queue/add" (addParams threadId deliveryId text) server
  rw [enqueue]
  refine ⟨fun h hescapes => ?_, fun h => ?_⟩
  · obtain ⟨e, he⟩ := rpc_of_escapes hescapes
    match hrpc : a.rpc "thread/queue/add" (addParams threadId deliveryId text) server with
    | (result, written) =>
      obtain rfl : result = .error (.escape e) := by rw [← he, hrpc]
      rw [hrpc] at h
      exact h
  · match hrpc : a.rpc "thread/queue/add" (addParams threadId deliveryId text) server with
    | (.error .unsupported, written) =>
      rw [hrpc] at htells
      exact htells rfl
    | (.error .outcomeUnknown, written) => trivial
    | (.error (.listed t), written) =>
      rw [hrpc] at htells
      exact htells
    | (.error (.escape e), written) =>
      rw [hrpc] at htells
      exact h htells
    | (.ok result, written) =>
      rw [hrpc] at htells
      dsimp only
      cases hend : acknowledged deliveryId text result with
      | ok queueId => exact ⟨result, htells, acknowledged_eq_ok hend⟩
      | error e =>
        rw [acknowledged_eq_error hend]
        trivial

theorem Yields.unique {server : AppServer} {method : String} {params result result' : Json}
    (h : a.Yields server (requestFrame method params) result)
    (h' : a.Yields server (requestFrame method params) result') : result = result' :=
  Except.ok.inj <| (rpc_of_yields h).symm.trans (rpc_of_yields h')

theorem Yields.contained {server : AppServer} {method : String} {params result : Json}
    (h : a.Yields server (requestFrame method params) result) :
    ¬ a.Escapes server (requestFrame method params) := by
  intro hescapes
  obtain ⟨e, he⟩ := rpc_of_escapes hescapes
  cases (rpc_of_yields h).symm.trans he

/-- What ended as it may is recorded, unless it is an identifier that cannot be stored. -/
theorem recorded_iff {encodable : String → Bool} {threadId deliveryId text : String}
    {server : AppServer} : ∀ {end_ : Except Exc String × List Json},
      a.Classified threadId deliveryId text server end_ →
        ((recorded encodable end_.1).isSome ↔
          ∀ queueId, end_.1 = .ok queueId → encodable queueId = true)
  | (.ok queueId, _), _ => by
    dsimp only [recorded]
    cases hstored : encodable queueId <;> simp [hstored]
  | (.error .unsupported, _), _ | (.error .outcomeUnknown, _), _ =>
    ⟨fun _ _ h => (nomatch h), fun _ => rfl⟩

/-- Of a request that is answered, an identifier is returned exactly if the answer acknowledges
it. -/
theorem enqueue_eq_ok {threadId deliveryId text queueId : String} {server : AppServer}
    (h : ¬ a.Escapes server (addFrame threadId deliveryId text)) :
    (a.enqueue threadId deliveryId text server).1 = .ok queueId ↔
      ∃ result, a.Yields server (addFrame threadId deliveryId text) result ∧
        Acknowledges deliveryId text result queueId := by
  have hclassified := (classified_iff threadId deliveryId text server).2 h
  constructor
  · intro hok
    match hend : a.enqueue threadId deliveryId text server with
    | (end_, written) =>
      rw [hend] at hok hclassified
      obtain rfl : end_ = .ok queueId := hok
      exact hclassified
  · rintro ⟨result, hyields, hack⟩
    have hrpc := rpc_of_yields hyields
    match hend : a.rpc "thread/queue/add" (addParams threadId deliveryId text) server with
    | (end_, written) =>
      rw [hend] at hrpc
      obtain rfl : end_ = .ok result := hrpc
      rw [enqueue, hend]
      exact acknowledged_of_acknowledges hack

/-- `enqueue` ends as it may and `deliver_ready` records it, unless the request meets an exception
nobody has a handler for, or is acknowledged with an identifier that cannot be stored. -/
theorem enqueue_recorded_iff (encodable : String → Bool) (threadId deliveryId text : String)
    (server : AppServer) :
    (a.Classified threadId deliveryId text server (a.enqueue threadId deliveryId text server) ∧
        (recorded encodable (a.enqueue threadId deliveryId text server).1).isSome) ↔
      ¬ a.Escapes server (addFrame threadId deliveryId text) ∧
        ¬ a.Unstorable encodable threadId deliveryId text server := by
  rw [← classified_iff]
  refine and_congr_right fun hclassified => ?_
  have hcontained := (classified_iff threadId deliveryId text server).1 hclassified
  rw [recorded_iff hclassified]
  constructor
  · rintro h ⟨result, queueId, hyields, hack, hnot⟩
    rw [h queueId ((enqueue_eq_ok hcontained).2 ⟨result, hyields, hack⟩)] at hnot
    cases hnot
  · intro h queueId hok
    obtain ⟨result, hyields, hack⟩ := (enqueue_eq_ok hcontained).1 hok
    by_contra hnot
    exact h ⟨result, queueId, hyields, hack, by simpa using hnot⟩

/-! ### The loop of `reconcile` -/

variable {encodable : String → Bool} {threadId deliveryId text : String} {servers : ℕ → AppServer}
  {n i : ℕ} {cursor result : Json} {ids : List String}

/-- Once the page is there, what derails the loop is its items, the identifier it leaves, or a later
request. -/
theorem derails_of_yields (h : a.Yields (servers i) (listFrame threadId cursor) result) :
    a.Derails encodable threadId deliveryId text servers (n + 1) i cursor ids ↔
      items result = none ∨ ∃ page, items result = some page ∧
        if a.falsy (member "nextCursor" result) = true then
          ∃ queueId, unique (ids ++ page.filterMap (matched deliveryId text)) = some queueId ∧
            queueId ≠ "" ∧ encodable queueId = false
        else a.Derails encodable threadId deliveryId text servers n (i + 1)
          (member "nextCursor" result) (ids ++ page.filterMap (matched deliveryId text)) := by
  constructor
  · intro hderails
    cases hderails with
    | escapes hescapes => exact absurd hescapes h.contained
    | items h' hitems =>
      rw [h'.unique h] at hitems
      exact .inl hitems
    | last h' hitems hcursor hunique hne hstored =>
      rw [h'.unique h] at hitems hcursor
      exact .inr ⟨_, hitems, by rw [if_pos hcursor]; exact ⟨_, hunique, hne, hstored⟩⟩
    | next h' hitems hcursor hnext =>
      rw [h'.unique h] at hitems hcursor hnext
      exact .inr ⟨_, hitems, by rw [if_neg (by simp [hcursor])]; exact hnext⟩
  · rintro (hitems | ⟨page, hitems, hrest⟩)
    · exact .items h hitems
    · split_ifs at hrest with hcursor
      · obtain ⟨queueId, hunique, hne, hstored⟩ := hrest
        exact .last h hitems hcursor hunique hne hstored
      · exact .next h hitems (by simpa using hcursor) hrest

/-- What is recorded of an end that is no exception. -/
theorem recordedFound_ok {o : Option String} : (recordedFound encodable (.ok o)).isSome ↔
    ¬ ∃ queueId, o = some queueId ∧ queueId ≠ "" ∧ encodable queueId = false := by
  cases o with
  | none => simp [recordedFound]
  | some queueId =>
    rw [recordedFound]
    split_ifs with hempty hstored <;> simp_all

/-- The loop ends as it may, and what it finds is recorded, unless a request derails it. -/
theorem pages_recorded_iff (n i : ℕ) (cursor : Json) (ids : List String) :
    (Reconciled (a.pages threadId deliveryId text servers n i cursor ids).1 ∧
        (recordedFound encodable
          (a.pages threadId deliveryId text servers n i cursor ids).1).isSome) ↔
      ¬ a.Derails encodable threadId deliveryId text servers n i cursor ids := by
  induction n generalizing i cursor ids with
  | zero => exact ⟨fun _ h => (nomatch h), fun _ => ⟨trivial, rfl⟩⟩
  | succ n ih =>
    have htells :=
      rpc_tells (a := a) "thread/queue/list" (listParams threadId cursor) (servers i)
    rw [pages]
    match hrpc : a.rpc "thread/queue/list" (listParams threadId cursor) (servers i) with
    | (.error .unsupported, written) =>
      refine ⟨fun _ h => ?_, fun _ => ⟨rfl, rfl⟩⟩
      cases h with
      | escapes h =>
        obtain ⟨e, he⟩ := rpc_of_escapes h
        rw [hrpc] at he
        cases he
      | items h | last h | next h =>
        have hok := rpc_of_yields h
        rw [hrpc] at hok
        cases hok
    | (.error .outcomeUnknown, written) =>
      rw [hrpc] at htells
      exact absurd (show "thread/queue/list" = "thread/queue/add" from htells) (by decide)
    | (.error (.listed t), written) =>
      rw [hrpc] at htells
      exact htells.elim
    | (.error (.escape e), written) =>
      rw [hrpc] at htells
      exact ⟨fun h => (nomatch h.1), fun h => absurd (.escapes htells) h⟩
    | (.ok result, written) =>
      rw [hrpc] at htells
      rw [derails_of_yields htells]
      dsimp only
      cases items result with
      | none => simp [Reconciled]
      | some page =>
        cases hlast : a.falsy (member "nextCursor" result) with
        | true =>
          simp only [if_true, recordedFound_ok]
          simp [Reconciled]
        | false => simpa using ih (i + 1) (member "nextCursor" result) _

/-- `enqueue` ends as it may, and `deliver_ready` records it, unless the request meets an exception
nobody has a handler for, or is acknowledged with an identifier that cannot be stored; `reconcile`
ends as it may, and `deliver_ready` records what it finds, unless one of its hundred requests meets
such an exception, a page has items that cannot be gone through, or the identifier it finds cannot
be stored. -/
theorem outcome_classified_iff (a : NativeQueueDelivery) (encodable : String → Bool)
    (threadId deliveryId text : String) :
    (∀ server,
      (a.Classified threadId deliveryId text server (a.enqueue threadId deliveryId text server) ∧
        (recorded encodable (a.enqueue threadId deliveryId text server).1).isSome) ↔
      ¬ a.Escapes server (addFrame threadId deliveryId text) ∧
        ¬ a.Unstorable encodable threadId deliveryId text server) ∧
    ∀ servers : ℕ → AppServer,
      (Reconciled (a.reconcile threadId deliveryId text servers) ∧
        (recordedFound encodable (a.reconcile threadId deliveryId text servers)).isSome) ↔
      ¬ a.Derails encodable threadId deliveryId text servers 100 0 .null [] :=
  ⟨enqueue_recorded_iff encodable threadId deliveryId text,
    fun _ => pages_recorded_iff 100 0 .null []⟩

/-- An app server that answers `[]` to `initialize` ends the worker. -/
theorem stray_line_escapes :
    let a : NativeQueueDelivery :=
      ⟨"0", fun _ => .value (.arr []), fun _ => true, fun _ _ => false, fun _ _ => rfl⟩
    let server : AppServer := ⟨.available, none, [.ok "[]".toUTF8], [none]⟩
    (a.enqueue "t" "d" "x" server).1 = .error (.escape .attribute) ∧
      ¬ Classified a "t" "d" "x" server (a.enqueue "t" "d" "x" server) ∧
      recorded (fun _ => true) (a.enqueue "t" "d" "x" server).1 = none ∧
      ¬ Reconciled (a.reconcile "t" "d" "x" fun _ => server) := by
  intro a server
  have henqueue : (a.enqueue "t" "d" "x" server).1 = .error (.escape .attribute) := rfl
  exact ⟨henqueue, id, rfl, fun h => (nomatch h)⟩

end NativeQueueDelivery

end HermesGateway.Client
