import HermesGateway.Broker.Frame
import HermesGateway.Broker.Runs
import Mathlib.Algebra.Order.BigOperators.Group.List

/-!
# Admission and quota

Two limits hold for each device: how many of its operations may be accepted, running or of unknown
outcome, and how many bytes its artifacts may take. Each is checked at one place, `accept` and
`put_artifact`, in the transaction that inserts the row. Every other transaction inserts neither
an operation nor an artifact, and no transaction takes an operation back from a definitive state.

## Main definitions

* `Quiet` — no operation was inserted, and artifacts were at most deleted
* `Bounded` — the limits

## Main results

* `pending_of_trace` — moves make an operation pending only by inserting it
* `perform_bounded` — one transaction keeps the limits
* `ledger_bounded` — every ledger the broker reaches keeps them
-/

namespace HermesGateway.Broker

open BrokerStore

/-! ### What most transactions leave alone -/

/-- No operation was inserted, and artifacts were at most deleted. -/
def Quiet (s s' : Session) : Prop :=
  s'.ledger.operations.map OperationRow.deviceId = s.ledger.operations.map OperationRow.deviceId ∧
    s'.ledger.artifacts.Sublist s.ledger.artifacts

instance : Frame Quiet where
  refl _ := ⟨rfl, List.Sublist.refl _⟩
  trans _ _ _ h h' := ⟨h'.1.trans h.1, h'.2.trans h.2⟩
  map hf hops harts := by
    refine ⟨?_, harts.sublist⟩
    rw [hops, List.map_map]
    exact List.map_congr_left fun r _ => congrArg Prod.fst (hf r).1

variable {store : BrokerStore}

/-- Marking operations as polled inserts none. -/
theorem reconcilable_quiet : Tx.Keeps Quiet reconcilable := by
  refine Frame.readLedger_keeps.bind fun L => (Tx.Keeps.forM (fun k => ?_) _).bind fun _ =>
    Tx.Keeps.pure _
  refine Frame.utcnow_keeps.bind fun now => Tx.Keeps.modifyGet fun s => ?_
  refine ⟨?_, List.Sublist.refl _⟩
  change (Table.modify OperationRow.key s.ledger.operations k (polledRow now)).map _ = _
  rw [Table.modify, List.map_map]
  refine List.map_congr_left fun r _ => ?_
  rw [Function.comp_apply]
  split_ifs <;> rfl

/-- **Every transaction but two is quiet.** -/
theorem perform_quiet {x : Transaction} (haccept : ∀ d request, x ≠ .accept d request)
    (hput : ∀ d content digest contentType, x ≠ .putArtifact d content digest contentType) :
    Tx.Keeps Quiet (store.perform x) := by
  by_cases hpoll : x = .reconcilable
  · subst hpoll
    exact reconcilable_quiet.bind fun _ => Tx.Keeps.pure ()
  · exact Frame.perform_keeps haccept hput hpoll

/-! ### Pending operations -/

/-- An edit is made of an operation that is not settled. -/
theorem Edit.live {e : Edit} {r : OperationRow} (h : e.Allowed r) : ¬ r.state.Final := by
  cases e with
  | claim =>
    rw [show r.state = .accepted from h]
    decide
  | finish => exact h.1
  | handle => exact h.1
  | cancel => rcases h.1 with hs | hs <;> rw [hs] <;> decide

/-- The operations of a device. -/
def Ledger.operationsOf (L : Ledger) (d : Device) : ℕ := L.operations.countP fun r => r.deviceId = d

section

variable {R : Time → Time → Prop} {P : Ledger → OperationRow → Edit → Prop} {L L' : Ledger}
  {ks : List Key}

/-- An update that keeps the devices and makes nothing pending. -/
theorem pending_map {f : OperationRow → OperationRow} (hdevice : ∀ r, (f r).deviceId = r.deviceId)
    (hpending : ∀ r ∈ L.operations, (f r).state = .accepted ∨ (f r).Active →
      r.state = .accepted ∨ r.Active) (d : Device) :
    pending { L with operations := L.operations.map f } d + L.operationsOf d ≤
      pending L d + Ledger.operationsOf { L with operations := L.operations.map f } d := by
  have hcount : Ledger.operationsOf { L with operations := L.operations.map f } d =
      L.operationsOf d := by
    simp only [Ledger.operationsOf, List.countP_map, Function.comp_def, hdevice]
  have hle : pending { L with operations := L.operations.map f } d ≤ pending L d := by
    simp only [pending, List.countP_map]
    refine List.countP_mono_left fun r hr h => ?_
    obtain ⟨hd, hp⟩ := of_decide_eq_true h
    rw [hdevice] at hd
    exact decide_eq_true ⟨hd, hpending r hr hp⟩
  omega

/-- A move makes an operation pending only by inserting it: operations that are over never become
fewer. -/
theorem Move.pending (hmove : Move R P L ks L')
    (hkeyed : Table.Keyed OperationRow.key L.operations) (d : Device) :
    pending L' d + L.operationsOf d ≤ pending L d + L'.operationsOf d := by
  have same : ∀ {f : OperationRow → OperationRow} {k : Key}, (∀ r, (f r).deviceId = r.deviceId) →
      (∀ r, (f r).state = r.state) →
      BrokerStore.pending (L.updateOperation k f) d + L.operationsOf d ≤
        BrokerStore.pending L d + (L.updateOperation k f).operationsOf d := by
    intro f k hdevice hstate
    refine pending_map (fun r => ?_) (fun r _ h => ?_) d
    · split_ifs
      · exact hdevice r
      · rfl
    · split_ifs at h
      · rw [OperationRow.Active, hstate] at h
        exact h
      · exact h
  cases hmove with
  | device | purgeEvents | receipt | dropArtifacts | putArtifact => exact le_rfl
  | @insert d' request digest now =>
    change (L.operations ++ [acceptedRow d' request digest now]).countP _ + _ ≤
      _ + (L.operations ++ [acceptedRow d' request digest now]).countP _
    rw [List.countP_append, List.countP_append]
    by_cases hd : d' = d
    · simp [acceptedRow, hd, BrokerStore.pending, Ledger.operationsOf]
      omega
    · simp [acceptedRow, hd, BrokerStore.pending, Ledger.operationsOf]
  | @edit k e r dev expires t₁ t₂ hrow hdev hallowed =>
    have hops : ((e.ledger k L).appendEvent k.1 (dev.sequence + 1) (render (e.row r) t₁ t₂)
        expires).operations = L.operations.map fun a => if a.key = k then e.row a else a :=
      Edit.operations_ledger e k L
    have hmap := pending_map (L := L) (f := fun a => if a.key = k then e.row a else a)
      (fun a => ?_) (fun a ha _ => ?_) d
    · rw [BrokerStore.pending, Ledger.operationsOf.eq_1 (Ledger.appendEvent _ _ _ _ _), hops]
      exact hmap
    · split_ifs
      · cases e <;> rfl
      · rfl
    · by_cases hk : a.key = k
      · have hself : a = r := hkeyed.eq_of_key_eq ha (Table.mem_of_lookup hrow)
          (hk.trans (Table.key_of_lookup hrow).symm)
        have hlive := Edit.live hallowed
        have hcases : ∀ st : OpState, ¬ st.Final → st = .accepted ∨ st = .running ∨
            st = .outcomeUnknown := by
          intro st
          cases st <;> decide
        rw [hself]
        exact hcases _ hlive
      · rwa [if_neg hk] at *
  | poll => exact same (fun _ => rfl) fun _ => rfl
  | cancelClaim => exact same (fun _ => rfl) fun _ => rfl
  | @purge now =>
    refine pending_map (fun r => congrArg Prod.fst (key_purgedRow now r)) (fun r _ h => ?_) d
    rw [OperationRow.Active, state_purgedRow] at h
    exact h

theorem pending_of_trace (hmoves : Trace (Move R P) L ks L')
    (hkeyed : Table.Keyed OperationRow.key L.operations) (d : Device) :
    pending L' d + L.operationsOf d ≤ pending L d + L'.operationsOf d := by
  induction hmoves with
  | nil => exact le_rfl
  | snoc htrace hmove ih =>
    have hstep := hmove.pending (keyed_of_trace htrace hkeyed) d
    omega

end

/-! ### The limits -/

/-- The limits of the settings hold of every device. -/
structure Bounded (settings : BrokerSettings) (L : Ledger) : Prop where
  pending : ∀ d, pending L d ≤ settings.maxPendingPerDevice
  stored : ∀ d, storedBytes L d ≤ settings.deviceQuotaBytes
  artifact : ∀ a ∈ L.artifacts, a.size.val ≤ settings.maxArtifactBytes ∧ a.content.size = a.size.val

section

variable {s s' : Session}

theorem bounded_empty (settings : BrokerSettings) : Bounded settings Ledger.empty :=
  ⟨fun _ => Nat.zero_le _, fun _ => Nat.zero_le _, fun _ h => absurd h List.not_mem_nil⟩

/-- Deleting artifacts frees bytes. -/
theorem storedBytes_le {L L' : Ledger} (h : L'.artifacts.Sublist L.artifacts) (d : Device) :
    storedBytes L' d ≤ storedBytes L d :=
  ((h.filter _).map _).sum_le_sum fun _ _ => Nat.zero_le _

/-- Operations that were not inserted are as many as before. -/
theorem Quiet.operationsOf (h : Quiet s s') (d : Device) :
    s'.ledger.operationsOf d = s.ledger.operationsOf d := by
  have hcount := congrArg (List.countP fun x => x = d) h.1
  rwa [List.countP_map, List.countP_map] at hcount

/-- **One transaction keeps the limits.** -/
theorem perform_bounded {x : Transaction}
    (hkeyed : Table.Keyed OperationRow.key s.ledger.operations)
    (hbounded : Bounded store.settings s.ledger) (h : store.perform x s = .ok ((), s')) :
    Bounded store.settings s'.ledger := by
  obtain ⟨ks, hmoves⟩ := moves_of_publishes (perform_publishes hkeyed h)
  have hpending := pending_of_trace hmoves hkeyed
  cases x with
  | accept d request =>
    obtain ⟨r, hr, -⟩ := Tx.map_eq_ok.mp h
    obtain ⟨devices, hdevices⟩ := s.ledger.withDevice_eq d
    rcases accept_eq_ok hr with ⟨_, -, -, -, hledger⟩ | ⟨-, hfull, -, _, _, _, _, _, -, -, hledger⟩
    · rw [hledger, hdevices]
      exact ⟨hbounded.pending, hbounded.stored, hbounded.artifact⟩
    · -- one operation of this device more, and none of the others
      refine ⟨fun d' => ?_, ?_, ?_⟩
      · have hle := hpending d'
        have hcount : s'.ledger.operationsOf d' =
            s.ledger.operationsOf d' + if d = d' then 1 else 0 := by
          rw [hledger, hdevices]
          change (s.ledger.operations ++ [acceptedRow _ _ _ _]).countP _ = _
          rw [List.countP_append, List.countP_singleton]
          by_cases hd : d = d' <;> simp [acceptedRow, Ledger.operationsOf, hd]
        have hold := hbounded.pending d'
        by_cases hd : d = d'
        · subst hd
          rw [hcount, if_pos rfl] at hle
          omega
        · rw [hcount, if_neg hd] at hle
          omega
      · rw [hledger, hdevices]
        exact hbounded.stored
      · rw [hledger, hdevices]
        exact hbounded.artifact
  | putArtifact d content digest contentType =>
    obtain ⟨r, hr, -⟩ := Tx.map_eq_ok.mp h
    obtain ⟨devices, hdevices⟩ := s.ledger.withDevice_eq d
    obtain ⟨hsize, -, row, now, -, hdev, hcontent, hlen, -, -, -, hquota, -, hledger⟩ :=
      putArtifact_eq_ok hr
    rw [hledger, hdevices]
    refine ⟨hbounded.pending, fun d' => ?_, fun a ha => ?_⟩
    · have hsum : ∀ rows : List ArtifactRow, storedBytes { s.ledger with
          devices := devices, artifacts := rows ++ [row] } d' =
          storedBytes { s.ledger with artifacts := rows } d' +
            if d = d' then content.size else 0 := by
        intro rows
        by_cases hd : d = d'
        · simp [storedBytes, hdev, hd, hlen]
        · simp [storedBytes, hdev, hd]
      rw [hsum]
      by_cases hd : d = d'
      · subst hd
        rw [if_pos rfl]
        exact hquota
      · rw [if_neg hd]
        have hle := @storedBytes_le s.ledger { s.ledger with
          artifacts := s.ledger.artifacts.filter fun a =>
            ¬ (a.deviceId = d ∧ a.expiresAt ≤ now) } List.filter_sublist d'
        exact hle.trans (hbounded.stored d')
    · rcases List.mem_append.mp ha with ha | ha
      · exact hbounded.artifact a (List.mem_of_mem_filter ha)
      · rw [List.mem_singleton.mp ha, hlen, hcontent]
        exact ⟨hsize, rfl⟩
  | _ =>
    have hquiet := perform_quiet (by simp) (by simp) s () s' h
    refine ⟨fun d => ?_, fun d => (storedBytes_le hquiet.2 d).trans (hbounded.stored d),
      fun a ha => hbounded.artifact a (hquiet.2.subset ha)⟩
    have hle := hpending d
    have hold := hbounded.pending d
    rw [hquiet.operationsOf d] at hle
    omega

end

/-- Every ledger the store reaches keeps the limits. -/
theorem bounded_of_run {L : Ledger} (h : Reachable store L) :
    Table.Keyed OperationRow.key L.operations ∧ Bounded store.settings L := by
  induction h with
  | refl => exact ⟨keyed_empty, bounded_empty _⟩
  | tail _ hlast ih =>
    obtain ⟨x, clock, uuids, s', hx, rfl⟩ := hlast
    obtain ⟨ks, hmoves⟩ := moves_of_publishes (perform_publishes ih.1 hx)
    exact ⟨keyed_of_trace hmoves ih.1, perform_bounded ih.1 ih.2 hx⟩

/-- **Admission and quota hold** in every state the broker reaches, whatever the devices ask for,
the dispatcher does, expires or restarts: no device has more pending operations than allowed, its
artifacts, expired ones that are not yet deleted included, take no more bytes than its quota, and
none of them is larger than an artifact may be. -/
theorem ledger_bounded {disp : BrokerDispatcher} {B : Process} (h : Process.Reachable disp B) :
    Bounded disp.store.settings B.ledger :=
  (bounded_of_run (Process.storeRun_of_run h)).2

theorem ledger_bounded_upload :
    ∃ B : Process, Process.Reachable ⟨BrokerStore.default, fun _ => "", fun _ => none⟩ B ∧
      pending B.ledger "laptop" = 1 ∧ storedBytes B.ledger "laptop" = 3 ∧
      Bounded BrokerSettings.default B.ledger := by
  let disp : BrokerDispatcher := ⟨BrokerStore.default, fun _ => "", fun _ => none⟩
  have hserve : ∃ reply s', disp.store.serve "laptop" (.accept (sampleRequest 1 2))
      ⟨Ledger.empty, fun _ => 5, fun _ => 0⟩ = .ok (reply, s') ∧ ∃ reply' s'',
        disp.store.serve "laptop" (.upload ⟨#[1, 2, 3]⟩ "" "text/plain")
          ⟨s'.ledger, fun _ => 6, fun _ => 3⟩ = .ok (reply', s'') ∧
        pending s''.ledger "laptop" = 1 ∧ storedBytes s''.ledger "laptop" = 3 :=
    ⟨_, _, rfl, _, _, rfl, rfl, rfl⟩
  obtain ⟨reply, s', haccept, reply', s'', hput, hpending, hstored⟩ := hserve
  have hreach : Process.Reachable disp { Process.initial with ledger := s''.ledger } :=
    (Relation.ReflTransGen.single ⟨_, Process.Step.serve haccept⟩).tail
      ⟨_, Process.Step.serve (B := { Process.initial with ledger := s'.ledger }) hput⟩
  exact ⟨_, hreach, hpending, hstored, ledger_bounded hreach⟩

end HermesGateway.Broker
