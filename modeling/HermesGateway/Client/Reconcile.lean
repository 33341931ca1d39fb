import HermesGateway.Client.Adapter

/-!
# Looking a delivery up in the queue

`reconcile` scans the queue of a thread page by page, each page naming the cursor of the next one. A
listing is any sequence of pages and cursors: nothing makes the cursors end, and nothing keeps them
apart. The scan gives an identifier only when it has seen the whole of a listing that ends, and the
evidence in it is unique.

## Main definitions

* `Listing`, `Listing.EndsAt` — pages with a chain of cursors, and where the chain ends
* `NativeQueueDelivery.Lists` — the requests of a scan succeed with these pages
* `NativeQueueDelivery.Evidence` — an item that shows the delivery was queued

## Main results

* `NativeQueueDelivery.reconcile_iff` — the scan finds exactly unique evidence
-/

namespace HermesGateway.Client

/-- Pages of items, each with the cursor it names for the next one. -/
structure Listing where
  page : ℕ → List Json
  next : ℕ → Json

namespace Listing

variable (L : Listing)

/-- The cursor the page at `i` is asked for with. -/
def cursor : ℕ → Json
  | 0 => .null
  | i + 1 => L.next i

/-- The items of the first `n` pages. -/
def scanned (n : ℕ) : List Json := (List.range n).flatMap L.page

theorem scanned_succ (n : ℕ) : L.scanned (n + 1) = L.scanned n ++ L.page n := by
  rw [scanned, List.range_succ, List.flatMap_append, List.flatMap_singleton]
  rfl

end Listing

namespace NativeQueueDelivery

variable (a : NativeQueueDelivery)

/-- The chain of cursors ends with the page at `n`. -/
def EndsAt (L : Listing) (n : ℕ) : Prop :=
  a.falsy (L.next n) = true ∧ ∀ i < n, a.falsy (L.next i) = false

instance (L : Listing) (n : ℕ) : Decidable (a.EndsAt L n) := inferInstanceAs (Decidable (_ ∧ _))

/-- The requests of a scan succeed, as far as the chain goes, and the pages are lists of items. -/
def Lists (threadId : String) (servers : ℕ → AppServer) (L : Listing) : Prop :=
  ∀ n < 100, (∀ i < n, a.falsy (L.next i) = false) → ∃ result,
    (a.rpc "thread/queue/list" (listParams threadId (L.cursor n)) (servers n)).1 = .ok result ∧
      items result = some (L.page n) ∧ member "nextCursor" result = L.next n

/-- The item shows that the delivery is in the queue as `queueId`: it has this string as its
identifier, the identifier of the delivery, and as its input a single text, which is the given
one. -/
def Evidence (deliveryId text queueId : String) (item : Json) : Prop :=
  member "id" item = .str queueId ∧ member "clientUserMessageId" item = .str deliveryId ∧
    ∃ input, member "input" item = .arr [input] ∧ member "type" input = .str "text" ∧
      member "text" input = .str text

variable {a} in
theorem EndsAt.unique {L : Listing} {m n : ℕ} (hm : a.EndsAt L m) (hn : a.EndsAt L n) : m = n := by
  by_contra hne
  rcases Nat.lt_or_gt_of_ne hne with h | h
  · exact absurd (hn.2 m h) (by simp [hm.1])
  · exact absurd (hm.2 n h) (by simp [hn.1])

/-- A chain ends within `n` pages, or it goes on through all of them. -/
theorem endsAt_or_goes (L : Listing) (n : ℕ) :
    (∃ k < n, a.EndsAt L k) ∨ ∀ k < n, a.falsy (L.next k) = false := by
  induction n with
  | zero => exact .inr fun k hk => absurd hk (Nat.not_lt_zero k)
  | succ n ih =>
    rcases ih with ⟨k, hk, hend⟩ | hgoes
    · exact .inl ⟨k, Nat.lt_succ_of_lt hk, hend⟩
    · cases hn : a.falsy (L.next n) with
      | true => exact .inl ⟨n, Nat.lt_succ_self n, hn, hgoes⟩
      | false =>
        exact .inr fun k hk => (Nat.lt_succ_iff_lt_or_eq.mp hk).elim (hgoes k) fun h => h ▸ hn

/-! ### Evidence -/

variable {a} {threadId deliveryId text : String} {servers : ℕ → AppServer} {L : Listing}

theorem str?_eq_some {v : Json} {s : String} : v.str? = some s ↔ v = .str s := by
  cases v <;> simp [Json.str?]

theorem matched_eq_some {item : Json} {queueId : String} :
    matched deliveryId text item = some queueId ↔ Evidence deliveryId text queueId item := by
  rw [matched]
  refine ⟨fun h => ?_, fun h => ?_⟩
  · split_ifs at h with hmatch
    exact ⟨str?_eq_some.mp h, hmatch.2.1, sameText_iff.mp hmatch.2.2⟩
  · obtain ⟨hid, hdelivery, htext⟩ := h
    rw [if_pos ⟨isObj_of_member hid, hdelivery, sameText_iff.mpr htext⟩]
    exact str?_eq_some.mpr hid

theorem matched_eq_none {item : Json} :
    matched deliveryId text item = none ↔ ∀ q, ¬ Evidence deliveryId text q item := by
  simp only [Option.eq_none_iff_forall_ne_some, ne_eq, matched_eq_some]

/-- The scan keeps one identifier when exactly one item is evidence. -/
theorem filterMap_matched_iff {items : List Json} {queueId : String} :
    items.filterMap (matched deliveryId text) = [queueId] ↔
      ∃ before item after, items = before ++ item :: after ∧ Evidence deliveryId text queueId item ∧
        ∀ other ∈ before ++ after, ∀ q, ¬ Evidence deliveryId text q other := by
  rw [List.filterMap_eq_cons_iff]
  refine exists_congr fun before => exists_congr fun item => exists_congr fun after =>
    and_congr_right fun _ => ?_
  rw [matched_eq_some, List.filterMap_eq_nil_iff]
  simp only [matched_eq_none, List.forall_mem_append]
  exact and_left_comm

/-! ### The scan -/

theorem unique_eq_some {found : List String} {queueId : String} :
    unique found = some queueId ↔ found = [queueId] := by
  rw [unique]
  match found with
  | [] => simp
  | [q] => simp
  | q :: q' :: rest => simp

variable (deliveryId text) in
/-- One page of the scan. -/
theorem pages_succ (hlists : a.Lists threadId servers L) {i : ℕ} (hi : i < 100)
    (hgoes : ∀ j < i, a.falsy (L.next j) = false) (n : ℕ) (ids : List String) :
    a.pages threadId deliveryId text servers (n + 1) i (L.cursor i) ids =
      if a.falsy (L.next i) then
        (.ok (unique (ids ++ (L.page i).filterMap (matched deliveryId text))), 1)
      else
        let rest := a.pages threadId deliveryId text servers n (i + 1) (L.cursor (i + 1))
          (ids ++ (L.page i).filterMap (matched deliveryId text))
        (rest.1, rest.2 + 1) := by
  obtain ⟨result, hrpc, hitems, hnext⟩ := hlists i hi hgoes
  rw [pages, hrpc]
  simp only [hitems, hnext]
  rfl

variable (deliveryId text) in
/-- The rest of a scan, from a page the chain comes to. -/
theorem pages_eq (hlists : a.Lists threadId servers L) (n : ℕ) {i : ℕ} (hi : i + n ≤ 100)
    (hgoes : ∀ j < i, a.falsy (L.next j) = false) :
    (∀ k < n, a.EndsAt L (i + k) →
      a.pages threadId deliveryId text servers n i (L.cursor i)
          ((L.scanned i).filterMap (matched deliveryId text)) =
        (.ok (unique ((L.scanned (i + k + 1)).filterMap (matched deliveryId text))), k + 1)) ∧
    ((∀ k < n, a.falsy (L.next (i + k)) = false) →
      a.pages threadId deliveryId text servers n i (L.cursor i)
          ((L.scanned i).filterMap (matched deliveryId text)) = (.ok none, n)) := by
  induction n generalizing i with
  | zero => exact ⟨fun k hk => absurd hk (Nat.not_lt_zero k), fun _ => rfl⟩
  | succ n ih =>
    have hpages := pages_succ deliveryId text hlists (by omega : i < 100) hgoes n
      ((L.scanned i).filterMap (matched deliveryId text))
    rw [← List.filterMap_append, ← L.scanned_succ] at hpages
    cases hend : a.falsy (L.next i) with
    | true =>
      rw [hend, if_pos rfl] at hpages
      refine ⟨fun k _ hk => ?_, fun hall => absurd (hall 0 (Nat.succ_pos n)) (by simp [hend])⟩
      -- the chain ends with this page, and with no later one
      have hk0 : k = 0 := by
        by_contra hne
        exact absurd (hk.2 i (by omega)) (by simp [hend])
      subst hk0
      exact hpages
    | false =>
      rw [hend, if_neg Bool.false_ne_true] at hpages
      have hgoes' : ∀ j < i + 1, a.falsy (L.next j) = false := fun j hj =>
        (Nat.lt_succ_iff_lt_or_eq.mp hj).elim (hgoes j) fun h => h ▸ hend
      obtain ⟨hends, hgoesOn⟩ := ih (i := i + 1) (by omega) hgoes'
      rw [hpages]
      refine ⟨fun k hk hk' => ?_, fun hall => ?_⟩
      · obtain ⟨k, rfl⟩ : ∃ m, k = m + 1 := Nat.exists_eq_succ_of_ne_zero (by
          rintro rfl
          exact absurd hk'.1 (by simp [hend]))
        rw [show i + (k + 1) = i + 1 + k by omega] at hk' ⊢
        rw [hends k (by omega) hk']
      · have hall' : ∀ k < n, a.falsy (L.next (i + 1 + k)) = false := fun k hk => by
          rw [show i + 1 + k = i + (k + 1) by omega]
          exact hall (k + 1) (by omega)
        rw [hgoesOn hall']

/-- The scan finds exactly unique evidence: it gives `queueId` when the chain ends within a hundred
pages and exactly one item of all of them is evidence, of `queueId`; it gives nothing otherwise; and
it asks for a hundred pages at most. -/
theorem reconcile_iff (a : NativeQueueDelivery) (threadId deliveryId text : String)
    (servers : ℕ → AppServer) (L : Listing) (hlists : a.Lists threadId servers L) :
    (∀ queueId, a.reconcile threadId deliveryId text servers = .ok (some queueId) ↔
      ∃ n < 100, a.EndsAt L n ∧ ∃ before item after, L.scanned (n + 1) = before ++ item :: after ∧
        Evidence deliveryId text queueId item ∧
        ∀ other ∈ before ++ after, ∀ q, ¬ Evidence deliveryId text q other) ∧
    ((∀ queueId, a.reconcile threadId deliveryId text servers ≠ .ok (some queueId)) →
      a.reconcile threadId deliveryId text servers = .ok none) ∧
    a.requests threadId deliveryId text servers ≤ 100 := by
  obtain ⟨hends, hgoes⟩ := pages_eq deliveryId text hlists 100 (i := 0) le_rfl
    (fun j hj => absurd hj (Nat.not_lt_zero j))
  simp only [Nat.zero_add] at hends hgoes
  rcases endsAt_or_goes a L 100 with ⟨n, hn, hend⟩ | hall
  · have hscan : a.pages threadId deliveryId text servers 100 0 .null [] =
        (.ok (unique ((L.scanned (n + 1)).filterMap (matched deliveryId text))), n + 1) :=
      hends n hn hend
    rw [reconcile, requests, hscan]
    refine ⟨fun queueId => ?_, fun hnone => ?_, hn⟩
    · rw [Except.ok.injEq, unique_eq_some, filterMap_matched_iff]
      refine ⟨fun h => ⟨n, hn, hend, h⟩, ?_⟩
      rintro ⟨n', -, hend', h⟩
      rwa [EndsAt.unique hend hend']
    · cases hu : unique ((L.scanned (n + 1)).filterMap (matched deliveryId text)) with
      | none => rfl
      | some q => exact absurd (by rw [hu]) (hnone q)
  · have hscan : a.pages threadId deliveryId text servers 100 0 .null [] = (.ok none, 100) :=
      hgoes hall
    rw [reconcile, requests, hscan]
    refine ⟨fun queueId => ?_, fun _ => rfl, le_rfl⟩
    exact ⟨fun h => (nomatch h), fun ⟨n, hn, hend, _⟩ => absurd hend.1 (by simp [hall n hn])⟩

/-- A queue of two pages: the first has an item of another delivery, and the second the one that is
looked for. -/
theorem reconcile_finds_single :
    let other : Json := .obj [("id", .str "p"), ("clientUserMessageId", .str "e"),
      ("input", .arr [])]
    let item : Json := .obj [("id", .str "q"), ("clientUserMessageId", .str "d"),
      ("input", .arr [.obj [("type", .str "text"), ("text", .str "x")]])]
    let opened := "\x7b\"id\":1,\"result\":\x7b\x7d\x7d\n".toUTF8
    let first := ("\x7b\"id\":2,\"result\":\x7b\"data\":[" ++
      "\x7b\"id\":\"p\",\"clientUserMessageId\":\"e\",\"input\":[]\x7d]," ++
      "\"nextCursor\":\"c\"\x7d\x7d\n").toUTF8
    let second := ("\x7b\"id\":2,\"result\":\x7b\"data\":[" ++
      "\x7b\"id\":\"q\",\"clientUserMessageId\":\"d\"," ++
      "\"input\":[\x7b\"type\":\"text\",\"text\":\"x\"\x7d]\x7d]\x7d\x7d\n").toUTF8
    let loads (line : ByteArray) : Loaded :=
      if line = opened then .value (.obj [("id", .int 1), ("result", .obj [])])
      else if line = first then
        .value (.obj [("id", .int 2),
          ("result", .obj [("data", .arr [other]), ("nextCursor", .str "c")])])
      else if line = second then
        .value (.obj [("id", .int 2), ("result", .obj [("data", .arr [item])])])
      else .malformed
    let a : NativeQueueDelivery := ⟨"0", loads, fun _ => true, fun _ _ => false, fun _ _ => rfl⟩
    let server (line : ByteArray) : AppServer :=
      ⟨.available, none, [.ok opened, .ok line], [none, none, none]⟩
    a.reconcile "t" "d" "x" (fun i => if i = 0 then server first else server second) =
      .ok (some "q") := by
  intro other item opened first second loads a server
  let L : Listing := ⟨fun i => if i = 0 then [other] else [item],
    fun i => if i = 0 then .str "c" else .null⟩
  have hlists : a.Lists "t" (fun i => if i = 0 then server first else server second) L := by
    rintro (_ | _ | n) - hgoes
    · exact ⟨.obj [("data", .arr [other]), ("nextCursor", .str "c")], rfl, rfl, rfl⟩
    · exact ⟨.obj [("data", .arr [item])], rfl, rfl, rfl⟩
    · exact absurd (hgoes 1 (by omega)) (by decide)
  have hend : a.EndsAt L 1 := ⟨rfl, by decide⟩
  refine ((reconcile_iff a "t" "d" "x" _ _ hlists).1 "q").mpr
    ⟨1, by decide, hend, [other], item, [], rfl, ⟨rfl, rfl, _, rfl, rfl, rfl⟩, ?_⟩
  intro x hx q hevidence
  obtain rfl : x = other := by simpa using hx
  exact absurd hevidence.2.1 (by decide)

end NativeQueueDelivery

end HermesGateway.Client
