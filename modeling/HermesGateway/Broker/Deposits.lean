import HermesGateway.Broker.Attribution
import HermesGateway.Broker.Inputs
import Mathlib.Algebra.Order.BigOperators.Group.List

/-!
# What is put into the table of artifacts

A row gets into the table by `put_artifact`: a device uploads it, or an observation stores it for
its operation. It gets out once it has expired: `put_artifact` deletes the expired rows of its
device, and `purge` those of every device.

A ghost keeps everything that was ever put in, with the operation it was put in for, and whether it
is still there.

## Main definitions

* `Act.Handles` — what a step does to the table
* `Deposit`, `Deposit.after` — the ghost
* `Shelved` — the table is what was put in and is still there

## Main results

* `Process.Step.handles` — every step of the broker
* `Act.Handles.shelved` — a step keeps the ghost true of the table
* `Shelved.storedBytes_le` — the bytes of a device, by the operations they were put in for
-/

namespace HermesGateway.Broker

open BrokerStore BrokerDispatcher

/-! ### Steps -/

/-- The device a step puts a row in for, and the operation if it is an observation that does. -/
def Act.depositor : Act → Option (Device × Option Key)
  | .call k (.putArtifact _ _ _ _) => some (k.1, some k)
  | .serve d (.upload _ _ _) _ => some (d, none)
  | _ => none

/-- What a step does to the table of artifacts, by what it reads on the clock. -/
inductive Act.Handles (act : Act) (clock : ℕ → Time) (rows : List ArtifactRow) :
    List ArtifactRow → Prop
  /-- The rows of the device that have expired at a reading leave, and one is put in, under a key
  that is not in use. -/
  | put {d : Device} {owner : Option Key} {now : Time} {row : ArtifactRow}
      (hact : act.depositor = some (d, owner)) (hread : ∃ i, clock i = now)
      (hdevice : row.deviceId = d)
      (hfree : ∀ a ∈ rows.filter fun a => ¬ (a.deviceId = d ∧ a.expiresAt ≤ now), a.key ≠ row.key) :
      act.Handles clock rows
        ((rows.filter fun a => ¬ (a.deviceId = d ∧ a.expiresAt ≤ now)) ++ [row])
  /-- What has expired at one of some readings leaves. -/
  | lapse {times : List Time} (hact : act.depositor = none)
      (hread : ∀ t ∈ times, ∃ i, clock i = t) :
      act.Handles clock rows (rows.filter fun a => ∀ t ∈ times, t < a.expiresAt)

section

variable {disp : BrokerDispatcher} {act : Act} {s s' : Session}

/-- Only `put_artifact` puts a row in for an operation, and for its device. -/
theorem Act.put_of_depositor {d : Device} {k : Key} (h : act.depositor = some (d, some k)) :
    d = k.1 ∧ ∃ content digest contentType next,
      act = .call k (.putArtifact content digest contentType next) := by
  unfold Act.depositor at h
  split at h
  · obtain ⟨rfl, howner⟩ := Prod.mk.inj (Option.some.inj h)
    obtain rfl := Option.some.inj howner
    exact ⟨rfl, _, _, _, _, rfl⟩
  · cases h
  · cases h

theorem reconcilable_lapses : Tx.Keeps Lapses reconcilable := by
  refine Frame.readLedger_keeps.bind fun L => (Tx.Keeps.forM (fun k => ?_) _).bind fun _ =>
    Tx.Keeps.pure _
  exact Frame.utcnow_keeps.bind fun now => Tx.Keeps.modifyGet fun s => .of_artifacts ⟨0, rfl⟩ rfl

/-- The table stays as it is. -/
theorem Act.Handles.refl (hact : act.depositor = none) (clock : ℕ → Time)
    (rows : List ArtifactRow) : act.Handles clock rows rows := by
  have hnone : act.Handles clock rows
      (rows.filter fun a => ∀ t ∈ ([] : List Time), t < a.expiresAt) :=
    .lapse hact fun t ht => absurd ht List.not_mem_nil
  simpa using hnone

/-- A transaction that only deletes. -/
theorem Act.Handles.of_lapses (hact : act.depositor = none) (h : Lapses s s') :
    act.Handles s.clock s.ledger.artifacts s'.ledger.artifacts := by
  obtain ⟨-, times, hread, hartifacts⟩ := h
  rw [hartifacts]
  exact .lapse hact hread

/-- `put_artifact` puts one row in. -/
theorem putArtifact_handles {d : Device} {owner : Option Key} {content : ByteArray}
    {digest contentType : String} {x : Descriptor} (hact : act.depositor = some (d, owner))
    (h : disp.store.putArtifact d content digest contentType s = .ok (x, s')) :
    act.Handles s.clock s.ledger.artifacts s'.ledger.artifacts := by
  obtain ⟨-, -, row, now, hread, hdevice, -, -, -, -, -, -, hfree, hledger⟩ := putArtifact_eq_ok h
  rw [hledger]
  exact .put hact hread hdevice hfree

/-- A call puts a row in, or none. -/
theorem call_handles {k : Key} {p p' : Prog} {tx : StoreTx Prog} (hcall : disp.call k p = some tx)
    (htx : tx s = .ok (p', s')) :
    (Act.call k p).Handles s.clock s.ledger.artifacts s'.ledger.artifacts := by
  cases commits_of_call hcall htx with
  | saveHandle h => exact .of_lapses rfl (Frame.saveHandle_keeps _ _ _ _ _ h)
  | get h => exact .of_lapses rfl ((Frame.row_keeps k).bind Frame.snapshot_keeps _ _ _ h)
  | putArtifact h => exact putArtifact_handles rfl h
  | finish h => exact .of_lapses rfl (Frame.finish_keeps _ _ _ _ _ _ _ _ h)

/-- **What every step of the broker does** to the table: it runs one method of the store under a
clock, or none, and the clock says what has expired. -/
theorem Process.Step.handles {B B' : Process} (h : Process.Step disp B act B') :
    ∃ clock, (B'.ledger = B.ledger ∨
        ∃ x, Process.Performs disp.store clock x B.ledger B'.ledger) ∧
      act.Handles clock B.ledger.artifacts B'.ledger.artifacts := by
  have hsame (hact : act.depositor = none) (hledger : B'.ledger = B.ledger) :
      ∃ clock, (B'.ledger = B.ledger ∨
          ∃ x, Process.Performs disp.store clock x B.ledger B'.ledger) ∧
        act.Handles clock B.ledger.artifacts B'.ledger.artifacts := by
    refine ⟨fun _ => 0, .inl hledger, ?_⟩
    rw [hledger]
    exact .refl hact _ _
  have called {k : Key} {p p' : Prog} {tx : StoreTx Prog} {s s' : Session}
      (hcall : disp.call k p = some tx) (htx : tx s = .ok (p', s')) :
      ∃ clock, (s'.ledger = s.ledger ∨
          ∃ x, Process.Performs disp.store clock x s.ledger s'.ledger) ∧
        (Act.call k p).Handles clock s.ledger.artifacts s'.ledger.artifacts := by
    obtain ⟨x, hx, -⟩ := Process.performs_of_call hcall htx
    exact ⟨s.clock, .inr ⟨x, hx⟩, call_handles hcall htx⟩
  cases h with
  | @serve d request reply clock uuids s' h =>
    obtain ⟨x, hx, -⟩ := Process.performs_of_serve h
    refine ⟨clock, .inr ⟨x, hx⟩, ?_⟩
    by_cases hupload : ∃ content digest contentType, request = .upload content digest contentType
    · obtain ⟨content, digest, contentType, rfl⟩ := hupload
      obtain ⟨_, hput, -⟩ := Tx.map_eq_ok.mp h
      exact putArtifact_handles (s := ⟨B.ledger, clock, uuids⟩) rfl hput
    · have hrequest : ∀ content digest contentType,
          request ≠ .upload content digest contentType :=
        fun content digest contentType heq => hupload ⟨content, digest, contentType, heq⟩
      refine .of_lapses (s := ⟨B.ledger, clock, uuids⟩) ?_ (serve_lapses hrequest h)
      cases request with
      | upload content digest contentType => exact absurd rfl (hrequest _ _ _)
      | _ => rfl
  | purge h =>
    exact ⟨_, .inr ⟨.purge, _, _, h, rfl⟩, .of_lapses rfl (Frame.purge_keeps _ _ _ h)⟩
  | claimCancel hopen hlimit h =>
    exact ⟨_, .inr ⟨.claimCancel, Process.performs_of_ok rfl h⟩,
      .of_lapses rfl (Frame.claimCancel_keeps _ _ _ h)⟩
  | reconcile hopen hlimit h =>
    exact ⟨_, .inr ⟨.reconcilable, Process.performs_of_ok rfl h⟩,
      .of_lapses rfl (reconcilable_lapses _ _ _ h)⟩
  | unclaimed hlimit h | claim hopen hlimit h =>
    exact ⟨_, .inr ⟨.claim, Process.performs_of_ok rfl h⟩,
      .of_lapses rfl (Frame.claim_keeps _ _ _ h)⟩
  | restart h =>
    exact ⟨_, .inr ⟨.recover, _, _, h, rfl⟩, .of_lapses rfl (Frame.recover_keeps _ _ _ h)⟩
  | orphan hmem hcall h => exact called hcall h
  | task hmem h =>
    cases h with
    | commit _ hcall htx | commitEnding _ hcall htx | settle _ hcall htx => exact called hcall htx
    | _ => exact hsame rfl rfl
  | reap | forget | shutdown | sweep => exact hsame rfl rfl

end

/-! ### The ghost -/

/-- A row that was put in: the operation it was put in for, none if the device uploaded it, and
whether it is still there. -/
structure Deposit where
  owner : Option Key
  row : ArtifactRow
  held : Bool

namespace Deposit

/-- A row that is not among `rows` any more is not there. -/
def keep (rows : List ArtifactRow) (x : Deposit) : Deposit :=
  { x with held := x.held && decide (x.row ∈ rows) }

/-- The deposits after a step that leaves `rows`, the last of them the one it put in. -/
def after (xs : List Deposit) (act : Act) (rows : List ArtifactRow) : List Deposit :=
  match act.depositor with
  | some (_, owner) =>
    xs.map (keep rows.dropLast) ++ (rows.getLast?.map fun row => ⟨owner, row, true⟩).toList
  | none => xs.map (keep rows)

end Deposit

/-- The rows that are still there of those put in for an operation. -/
def heldFor (xs : List Deposit) (k : Key) : List ArtifactRow :=
  (xs.filter fun x => x.owner = some k ∧ x.held = true).map Deposit.row

/-- The bytes of the artifacts that are described. -/
def bytesOf (ds : List Descriptor) : ℕ := (ds.map fun d => d.size.val).sum

/-- The bytes of what a device has uploaded and is still there. -/
def uploadedBytes (xs : List Deposit) (d : Device) : ℕ :=
  ((xs.filter fun x => x.owner = none ∧ x.held = true ∧ x.row.deviceId = d).map fun x =>
    x.row.size.val).sum

/-- The table is what was put in and is still there, under keys that occur once; and what was put in
for an operation was put in for its device. -/
structure Shelved (xs : List Deposit) (rows : List ArtifactRow) : Prop where
  table : (xs.filter Deposit.held).map Deposit.row = rows
  keyed : Table.Keyed ArtifactRow.key rows
  device : ∀ x ∈ xs, ∀ k, x.owner = some k → x.row.deviceId = k.1

section

variable {xs : List Deposit} {rows rows' : List ArtifactRow} {act : Act}

theorem shelved_nil : Shelved [] [] := ⟨rfl, List.nodup_nil, fun _ hx => absurd hx List.not_mem_nil⟩

theorem held_keep (xs : List Deposit) (rows : List ArtifactRow) :
    ((xs.map (Deposit.keep rows)).filter Deposit.held).map Deposit.row =
      ((xs.filter Deposit.held).map Deposit.row).filter fun a => a ∈ rows := by
  rw [List.filter_map, List.map_map, List.filter_map, List.filter_filter]
  refine congrArg₂ List.map rfl (List.filter_congr fun x _ => ?_)
  simp [Deposit.keep, Bool.and_comm]

/-- What is left of the table after some rows have left. -/
theorem Shelved.filter {p : ArtifactRow → Bool} (h : Shelved xs rows) :
    Shelved (xs.map (Deposit.keep (rows.filter p))) (rows.filter p) where
  table := by
    rw [held_keep, h.table]
    exact List.filter_congr fun a ha => by simp [ha]
  keyed := h.keyed.sublist (List.filter_sublist.map _)
  device x hx k hk := by
    obtain ⟨y, hy, rfl⟩ := List.mem_map.mp hx
    exact h.device y hy k hk

/-- **A step keeps the ghost true of the table.** -/
theorem Act.Handles.shelved {clock : ℕ → Time} (hstep : act.Handles clock rows rows')
    (h : Shelved xs rows) : Shelved (Deposit.after xs act rows') rows' := by
  cases hstep with
  | lapse hact hread =>
    rw [Deposit.after, hact]
    exact h.filter
  | @put d owner now row hact hread hdevice hfree =>
    rw [Deposit.after, hact]
    simp only [List.dropLast_concat, List.getLast?_concat, Option.map_some, Option.toList_some]
    have hleft := h.filter (p := fun a => ¬ (a.deviceId = d ∧ a.expiresAt ≤ now))
    refine ⟨?_, ?_, ?_⟩
    · rw [List.filter_append, List.map_append, hleft.table]
      rfl
    · exact Table.keyed_insert hleft.keyed (Table.lookup_eq_none.mpr hfree)
    · intro x hx k hk
      rcases List.mem_append.mp hx with hx | hx
      · exact hleft.device x hx k hk
      · rw [List.mem_singleton.mp hx] at hk ⊢
        obtain rfl : owner = some k := hk
        exact hdevice.trans (Act.put_of_depositor hact).1

end

/-! ### What was put in for an operation -/

/-- The descriptors of what was put in for an operation, in the order in which it was. -/
def storedFor (xs : List Deposit) (k : Key) : List Descriptor :=
  (xs.filter fun x => x.owner = some k).map fun x => x.row.descriptor

section

variable {xs : List Deposit} {rows rows' : List ArtifactRow} {act : Act} {k : Key}

theorem storedFor_append (xs ys : List Deposit) :
    storedFor (xs ++ ys) k = storedFor xs k ++ storedFor ys k := by
  simp [storedFor]

theorem storedFor_keep : storedFor (xs.map (Deposit.keep rows)) k = storedFor xs k := by
  rw [storedFor, List.filter_map, List.map_map]
  rfl

/-- A step that puts nothing in for the operation. -/
theorem storedFor_after (h : ∀ d, act.depositor ≠ some (d, some k)) :
    storedFor (Deposit.after xs act rows') k = storedFor xs k := by
  cases hact : act.depositor with
  | none => rw [Deposit.after, hact, storedFor_keep]
  | some x =>
    obtain ⟨d, owner⟩ := x
    have hother : owner ≠ some k := fun howner => h d (by rw [hact, howner])
    rw [Deposit.after, hact]
    dsimp only
    rw [storedFor_append, storedFor_keep]
    cases rows'.getLast? with
    | none => simp [storedFor]
    | some row => simp [storedFor, hother]

/-- A step that puts a row in for it. -/
theorem storedFor_put {d : Device} {row : ArtifactRow} (h : act.depositor = some (d, some k)) :
    storedFor (Deposit.after xs act (rows ++ [row])) k = storedFor xs k ++ [row.descriptor] := by
  rw [Deposit.after, h]
  dsimp only
  rw [storedFor_append, storedFor_keep]
  simp [storedFor]

/-- What is still there is part of what was put in. -/
theorem heldFor_sublist (xs : List Deposit) (k : Key) :
    ((heldFor xs k).map ArtifactRow.descriptor).Sublist (storedFor xs k) := by
  rw [heldFor, List.map_map]
  refine List.Sublist.map _ ?_
  rw [show (fun x : Deposit => decide (x.owner = some k ∧ x.held = true)) =
    fun x => x.held && decide (x.owner = some k) from
      funext fun x => by simp [Bool.and_comm], ← List.filter_filter]
  exact List.filter_sublist

/-- The bytes of what is still there are bytes of what was put in. -/
theorem bytes_heldFor_le (xs : List Deposit) (k : Key) :
    ((heldFor xs k).map fun a => a.size.val).sum ≤ bytesOf (storedFor xs k) := by
  have hbytes := (List.Sublist.map (fun d : Descriptor => d.size.val)
    (heldFor_sublist xs k)).sum_le_sum fun _ _ => Nat.zero_le _
  rwa [List.map_map] at hbytes

/-- Who things were put in for, after a step. -/
theorem owner_of_after {x : Deposit} (hx : x ∈ Deposit.after xs act rows')
    (howner : x.owner = some k) :
    (∃ y ∈ xs, y.owner = some k) ∨ ∃ d, act.depositor = some (d, some k) := by
  have hold : ∀ {rows : List ArtifactRow}, x ∈ xs.map (Deposit.keep rows) →
      ∃ y ∈ xs, y.owner = some k := by
    intro rows hx
    obtain ⟨y, hy, rfl⟩ := List.mem_map.mp hx
    exact ⟨y, hy, howner⟩
  unfold Deposit.after at hx
  split at hx
  next d owner hact =>
    rcases List.mem_append.mp hx with hx | hx
    · exact .inl (hold hx)
    · obtain ⟨row, -, rfl⟩ := Option.map_eq_some_iff.mp (Option.mem_toList.mp hx)
      obtain rfl : owner = some k := howner
      exact .inr ⟨d, hact⟩
  · exact .inl (hold hx)

/-- Sums over deposits, by owner. -/
theorem sum_le_of_owned (ks : List Key) (f : Deposit → ℕ) (ys : List Deposit)
    (h : ∀ y ∈ ys, ∀ k, y.owner = some k → k ∈ ks) :
    (ys.map f).sum ≤ ((ys.filter fun y => y.owner = none).map f).sum +
      (ks.map fun k => ((ys.filter fun y => y.owner = some k).map f).sum).sum := by
  induction ys with
  | nil => exact Nat.zero_le _
  | cons y ys ih =>
    have hrest := ih fun z hz => h z (List.mem_cons_of_mem y hz)
    cases howner : y.owner with
    | none =>
      simp only [howner, List.map_cons, List.sum_cons, List.filter_cons, decide_true, if_true,
        reduceCtorEq, decide_false, Bool.false_eq_true, if_false]
      omega
    | some k =>
      have hk := h y List.mem_cons_self k howner
      have hsplit : ∀ k', (((y :: ys).filter fun y => y.owner = some k').map f).sum =
          (if k = k' then f y else 0) + ((ys.filter fun y => y.owner = some k').map f).sum := by
        intro k'
        by_cases hkk : k = k' <;> simp [howner, hkk]
      have hone : f y ≤ (ks.map fun k' => if k = k' then f y else 0).sum :=
        List.single_le_sum (fun _ _ => Nat.zero_le _) _ (List.mem_map.mpr ⟨k, hk, if_pos rfl⟩)
      simp only [hsplit, List.sum_map_add]
      simp [howner]
      omega

/-- **The bytes of a device**: those of its uploads, and of what was put in for its operations. -/
theorem Shelved.storedBytes_le {L : Ledger} (h : Shelved xs L.artifacts) {ks : List Key}
    (howned : ∀ x ∈ xs, ∀ k, x.owner = some k → k ∈ ks) (d : Device) :
    storedBytes L d ≤ uploadedBytes xs d +
      ((ks.filter fun k => k.1 = d).map fun k =>
        ((heldFor xs k).map fun a => a.size.val).sum).sum := by
  let ys := xs.filter fun x => x.held = true ∧ x.row.deviceId = d
  have hbytes : storedBytes L d = (ys.map fun x => x.row.size.val).sum := by
    rw [storedBytes, ← h.table, List.filter_map, List.filter_filter, List.map_map]
    refine congrArg List.sum (congrArg₂ List.map rfl (List.filter_congr fun x _ => ?_))
    simp [Bool.and_comm]
  have hle := sum_le_of_owned (ks.filter fun k => k.1 = d) (fun x => x.row.size.val) ys ?_
  · rw [hbytes]
    refine hle.trans (Nat.add_le_add (le_of_eq ?_) (List.sum_le_sum fun k hk => le_of_eq ?_))
    · rw [uploadedBytes, List.filter_filter]
      refine congrArg List.sum (congrArg₂ List.map rfl (List.filter_congr fun x _ => ?_))
      simp
    · -- what was put in for an operation of the device was put in for the device
      rw [heldFor, List.map_map, List.filter_filter]
      refine congrArg List.sum (congrArg₂ List.map rfl (List.filter_congr fun x hx => ?_))
      have hdevice : x.owner = some k → x.row.deviceId = d := fun howner =>
        (h.device x hx k howner).trans (of_decide_eq_true (List.mem_filter.mp hk).2)
      simp only [decide_eq_decide, ← Bool.decide_and]
      tauto
  · intro y hy k hk
    obtain ⟨hy, -, hdevice⟩ : y ∈ xs ∧ y.held = true ∧ y.row.deviceId = d := by
      simpa [ys] using hy
    rw [List.mem_filter]
    exact ⟨howned y hy k hk, decide_eq_true ((h.device y hy k hk).symm.trans hdevice)⟩

end

end HermesGateway.Broker
