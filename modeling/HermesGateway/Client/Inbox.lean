import HermesGateway.Client.Receipts

/-!
# The inbox against any broker

What `accept_snapshot` protects when nothing is known of the broker: the snapshots may contradict
each other and come in any order. A snapshot is a `dict` that passes the checks; which value each of
its other members has is open.

What a stored snapshot may become is a preorder, `Guards`, so it is enough to look at one step. An
operation that is expired takes no snapshot any more; its flow is not looked at either, and the
cursor moves past the snapshot as it does for an operation that is not known.

## Main definitions

* `Resolves`, `Emptied` — the two ways in which a terminal snapshot changes
* `Guards` — what a stored snapshot may become
* `Inbox.Step` — a snapshot comes in, or anything else happens

## Main results

* `Inbox.Step.guards` — one step
* `inbox_protected` — every run
-/

namespace HermesGateway.Client

open ClientStore

/-! ### What a stored snapshot may become -/

/-- The snapshot names a definitive state. -/
def FinalSnapshot (v : Json) : Prop := ∃ state, stateOf v = some state ∧ state.Final

/-- A definitive snapshot under the same handle, which is not empty, and result identifier. -/
structure Resolves (v w : Json) : Prop where
  final : FinalSnapshot w
  named : truthy (member "remote_task_id" v) = true
  handle : same (member "remote_task_id" v) (member "remote_task_id" w) = true
  resultId : same (member "result_id" v) (member "result_id" w) = true

/-- The result and the error are gone, and nothing else. -/
structure Emptied (v w : Json) : Prop where
  result : member "result" w = .null
  error : member "error" w = .null
  rest : ∀ key, key ≠ "result" → key ≠ "error" → member key w = member key v

/-- What a stored snapshot, of an operation that is expired or not, may become. -/
structure Guards (v : Json) (expired : Bool) (w : Json) (expired' : Bool) : Prop where
  final : FinalSnapshot v →
    w = v ∧ expired' = expired ∨ expired = false ∧ expired' = true ∧ Emptied v w
  gone : expired = true → w = v ∧ expired' = true
  unknown : stateOf v = some .outcomeUnknown → w = v ∨ Resolves v w
  terminal : TerminalSnapshot v → TerminalSnapshot w

section

variable {v w x : Json} {b c d : Bool}

theorem Emptied.state (h : Emptied v w) : stateOf w = stateOf v := by
  rw [stateOf, h.rest "state" (by decide) (by decide)]
  rfl

theorem FinalSnapshot.terminal (h : FinalSnapshot v) : TerminalSnapshot v := by
  obtain ⟨state, hstate, hfinal⟩ := h
  exact ⟨state, hstate, .inl hfinal⟩

theorem FinalSnapshot.emptied (h : FinalSnapshot v) (hw : Emptied v w) : FinalSnapshot w := by
  rwa [FinalSnapshot, hw.state]

theorem not_final_of_unknown (h : stateOf v = some .outcomeUnknown) : ¬ FinalSnapshot v := by
  rintro ⟨state, hstate, hfinal⟩
  rw [← Option.some.inj (h.symm.trans hstate)] at hfinal
  exact absurd hfinal (by decide)

theorem Resolves.emptied (h : Resolves v w) (hx : Emptied w x) : Resolves v x where
  final := h.final.emptied hx
  named := h.named
  handle := by
    rw [hx.rest "remote_task_id" (by decide) (by decide)]
    exact h.handle
  resultId := by
    rw [hx.rest "result_id" (by decide) (by decide)]
    exact h.resultId

theorem Guards.refl (v : Json) (b : Bool) : Guards v b v b :=
  ⟨fun _ => .inl ⟨rfl, rfl⟩, fun hb => ⟨rfl, hb⟩, fun _ => .inl rfl, id⟩

theorem Guards.trans (h : Guards v b w c) (h' : Guards w c x d) : Guards v b x d where
  final hv := by
    obtain ⟨rfl, rfl⟩ | ⟨hb, hc, hempty⟩ := h.final hv
    · exact h'.final hv
    · obtain ⟨rfl, hd⟩ := h'.gone hc
      exact .inr ⟨hb, hd, hempty⟩
  gone hb := by
    obtain ⟨rfl, hc⟩ := h.gone hb
    exact h'.gone hc
  unknown hv := by
    obtain rfl | hresolves := h.unknown hv
    · exact h'.unknown hv
    · obtain ⟨rfl, -⟩ | ⟨-, -, hempty⟩ := h'.final hresolves.final
      · exact .inr hresolves
      · exact .inr (hresolves.emptied hempty)
  terminal hv := h'.terminal (h.terminal hv)

end

/-! ### One step -/

/-- A snapshot as it is stored. -/
structure Filed (v : Json) : Prop where
  sorted : v.sortKeys = v
  keyed : v.Keyed
  state : ∃ state, stateOf v = some state
  resultId : ResultIdOk v

section

variable {v w : Json} {key : String}

theorem member_sortKeys (h : v.Keyed) (key : String) :
    member key v.sortKeys = (member key v).sortKeys := by
  rw [member, h.get?_sortKeys, member]
  cases v.get? key <;> rfl

theorem stateOf_sortKeys (h : v.Keyed) : stateOf v.sortKeys = stateOf v := by
  rw [stateOf, member_sortKeys h, stateOf]
  cases member "state" v <;> rfl

theorem same_sortKeys (v w : Json) : same v w.sortKeys = same v w := by
  rw [same, Json.equals_sortKeys, same]

theorem filed_sortKeys (h : v.Keyed) (hstate : ∃ state, stateOf v = some state)
    (hid : ResultIdOk v) : Filed v.sortKeys where
  sorted := Json.sortKeys_sortKeys v
  keyed := h.sortKeys
  state := by rwa [stateOf_sortKeys h]
  resultId := by
    rw [ResultIdOk, member_sortKeys h]
    obtain hnull | ⟨id, heq, hid⟩ := hid
    · exact .inl (by rw [hnull, Json.sortKeys])
    · exact .inr ⟨id, by rw [heq, Json.sortKeys], hid⟩

theorem Filed.member_fixed (h : Filed v) (key : String) :
    (member key v).sortKeys = member key v := by
  rw [← member_sortKeys h.keyed, h.sorted]

/-- A snapshot that was stored is an object. -/
theorem Filed.isObj (h : Filed v) : ∃ kvs, v = .obj kvs := by
  obtain ⟨state, hstate⟩ := h.state
  cases v with
  | obj kvs => exact ⟨kvs, rfl⟩
  | null | bool | int | float | str | arr => cases hstate

theorem keyed_blank (h : v.Keyed) : (blank key v).Keyed := by
  cases v with
  | obj ms =>
    intro kvs hkvs
    obtain rfl := Json.obj.inj hkvs
    exact Json.nodup_setKey (h ms rfl)
  | null | bool | int | float | str | arr => exact h

theorem member_blank {kvs : List (String × Json)} (key' : String) :
    member key' (blank key (.obj kvs)) = if key' = key then .null else member key' (.obj kvs) := by
  rw [member, blank, Json.get?, Json.lookup_setKey]
  split_ifs <;> rfl

/-- What `prune` leaves of a snapshot. -/
theorem Filed.emptied (h : Filed v) : Emptied v (blank "error" (blank "result" v)).sortKeys := by
  have hmember : ∀ key, member key (blank "error" (blank "result" v)) =
      if key = "error" then .null else if key = "result" then .null else member key v := by
    intro key
    obtain ⟨kvs, rfl⟩ := h.isObj
    rw [blank, member_blank]
    split_ifs with herror hresult
    · rfl
    · exact (member_blank key).trans (if_pos hresult)
    · exact (member_blank key).trans (if_neg hresult)
  have hkeyed := @keyed_blank _ "error" (@keyed_blank _ "result" h.keyed)
  constructor
  · rw [member_sortKeys hkeyed, hmember]
    rfl
  · rw [member_sortKeys hkeyed, hmember]
    rfl
  · intro key hresult herror
    rw [member_sortKeys hkeyed, hmember, if_neg herror, if_neg hresult, h.member_fixed]

theorem Filed.of_emptied (h : Filed v) : Filed (blank "error" (blank "result" v)).sortKeys := by
  have hempty := h.emptied
  refine ⟨Json.sortKeys_sortKeys _, (keyed_blank (keyed_blank h.keyed)).sortKeys, ?_, ?_⟩
  · rw [hempty.state]
    exact h.state
  · rw [ResultIdOk, hempty.rest "result_id" (by decide) (by decide)]
    exact h.resultId

theorem snapshot_prunedRow_of_none {r : ClientRow} (hv : r.snapshot = none) (now : Time) :
    (prunedRow now r).snapshot = none := by
  unfold prunedRow
  dsimp only
  split_ifs <;> simp [hv]

/-- `prune` keeps a snapshot, or empties a definitive one. -/
theorem prunedRow_cases {r : ClientRow} (hv : r.snapshot = some v) (now : Time) :
    ((prunedRow now r).snapshot = some v ∧ (prunedRow now r).expired = r.expired) ∨
      FinalSnapshot v ∧ r.expired = false ∧ (prunedRow now r).expired = true ∧
        (prunedRow now r).snapshot = some (blank "error" (blank "result" v)).sortKeys := by
  unfold prunedRow
  by_cases hpayload : r.payloadExpires ≤ now
  · simp only [if_pos hpayload, hv]
    split_ifs with hdue
    · exact .inr ⟨hdue.2.2, hdue.2.1, rfl, rfl⟩
    · exact .inl ⟨rfl, rfl⟩
  · simp only [if_neg hpayload, hv]
    split_ifs with hdue
    · exact .inr ⟨hdue.2.2, hdue.2.1, rfl, rfl⟩
    · exact .inl ⟨hv, rfl⟩

end

/-! ### The run -/

/-- One step: a snapshot is accepted, or something else happens. A snapshot that is refused changes
nothing and is no step. -/
inductive Inbox.Step (store : ClientStore) : Daemon → Daemon → Prop
  | quiet {D D' : Daemon} (h : Daemon.Quiet store D D') : Inbox.Step store D D'
  | accept {D : Daemon} {v : Json} {seq : Option ℤ} {clock : ℕ → Time} {uuids : ℕ → Uuid}
      {s' : Session} (hv : v.Keyed)
      (h : store.acceptSnapshot v seq ⟨D.tables, clock, uuids⟩ = .ok ((), s')) :
      Inbox.Step store D { D with tables := s'.tables }

/-- Any number of steps. -/
abbrev Inbox.Run (store : ClientStore) : Daemon → Daemon → Prop :=
  Relation.ReflTransGen (Inbox.Step store)

/-- What holds of the tables in every state. -/
structure Inbox.Inv (T : Tables) : Prop where
  distinct : T.Distinct
  filed : ∀ op r, T.operation? op = some r → ∀ v, r.snapshot = some v → Filed v
  receipts : ∀ op r, T.operation? op = some r → ∀ v, r.snapshot = some v → ∀ id,
    member "result_id" v = .str id → T.HasReceipt (op, id, .stored)

/-- What a row with a snapshot may become. -/
def Guarded (v : Json) (b : Bool) (o : Option ClientRow) : Prop :=
  ∃ r w, o = some r ∧ r.snapshot = some w ∧ Guards v b w r.expired

section

variable {store : ClientStore} {D D' : Daemon} {T T' : Tables} {op : Uuid} {r : ClientRow}
  {v w : Json}

theorem Rests.guarded {o o' : Option ClientRow} (h : Rests store o o') (hr : o = some r)
    (hv : r.snapshot = some v) (hfiled : Filed v) : Guarded v r.expired o' := by
  cases h with
  | absent | create => cases hr
  | keep hinbox =>
    obtain rfl := Option.some.inj hr
    simp only [ClientRow.inbox, Prod.mk.injEq] at hinbox
    obtain ⟨-, -, -, hsnapshot, -, hexpired⟩ := hinbox
    refine ⟨_, v, rfl, hsnapshot.trans hv, ?_⟩
    rw [hexpired]
    exact .refl v _
  | prune r₀ now =>
    obtain rfl := Option.some.inj hr
    obtain ⟨hsnapshot, hexpired⟩ | ⟨hfinal, hlive, hexpired, hsnapshot⟩ := prunedRow_cases hv now
    · refine ⟨_, v, rfl, hsnapshot, ?_⟩
      rw [hexpired]
      exact .refl v _
    · refine ⟨_, _, rfl, hsnapshot, ?_⟩
      rw [hexpired, hlive]
      exact
        { final := fun _ => .inr ⟨rfl, rfl, hfiled.emptied⟩
          gone := fun h => by cases h
          unknown := fun hunknown => absurd hfinal (not_final_of_unknown hunknown)
          terminal := fun _ => (hfinal.emptied hfiled.emptied).terminal }

/-- A snapshot is merged into a row that is not expired. -/
theorem guards_merged {u e : Time} (hw : w.Keyed) (hv : r.snapshot = some v)
    (hlive : r.expired = false) : Guarded v false (some (merged r w u e)) := by
  have hkeep : ∀ r' : ClientRow, r'.snapshot = r.snapshot → r'.expired = r.expired →
      Guarded v false (some r') := by
    intro r' hsnapshot hexpired
    refine ⟨r', v, rfl, hsnapshot.trans hv, ?_⟩
    rw [hexpired, hlive]
    exact .refl v _
  unfold merged
  split_ifs with hconflict hreplace
  · exact hkeep _ rfl rfl
  · refine ⟨_, w.sortKeys, rfl, rfl, ?_⟩
    change Guards v false w.sortKeys r.expired
    rw [hlive]
    obtain hfresh | ⟨p, hp, hunknown, hfinal, hnamed, hhandle, hid⟩ := hreplace
    · -- a snapshot that is not terminal is replaced by any
      have hnot : ¬ TerminalSnapshot v := fun h => hfresh ⟨v, hv, h⟩
      exact
        { final := fun h => absurd h.terminal hnot
          gone := fun h => by cases h
          unknown := fun h => absurd ⟨_, h, .inr rfl⟩ hnot
          terminal := fun h => absurd h hnot }
    · obtain rfl := Option.some.inj (hv.symm.trans hp)
      have hfinal' : FinalSnapshot w.sortKeys := by rwa [FinalSnapshot, stateOf_sortKeys hw]
      exact
        { final := fun h => absurd h (not_final_of_unknown hunknown)
          gone := fun h => by cases h
          unknown := fun _ => .inr
            ⟨hfinal', hnamed, by rwa [member_sortKeys hw, same_sortKeys],
              by rwa [member_sortKeys hw, same_sortKeys]⟩
          terminal := fun _ => hfinal'.terminal }
  · exact hkeep _ rfl rfl

/-- **One step** guards every stored snapshot. -/
theorem Inbox.Step.guards (hstep : Inbox.Step store D D') (hD : Inbox.Inv D.tables)
    (hr : D.tables.operation? op = some r) (hv : r.snapshot = some v) :
    Guarded v r.expired (D'.tables.operation? op) := by
  cases hstep with
  | quiet hquiet => exact (hquiet.rests op).guarded hr hv (hD.filed op r hr v hv)
  | @accept w _ _ _ _ hw haccept =>
    obtain ⟨op', -, -, -, -, -, u, e, hrows⟩ := acceptSnapshot_eq_ok haccept
    rw [hrows op]
    split_ifs with hop
    · subst hop
      rw [hr, Option.map_some]
      cases hexpired : r.expired with
      | false => exact guards_merged hw hv hexpired
      | true => exact ⟨r, v, rfl, hv, hexpired ▸ .refl v true⟩
    · exact ⟨r, v, hr, hv, .refl v _⟩

theorem Inbox.inv_empty : Inbox.Inv Tables.empty where
  distinct := Tables.distinct_empty
  filed _ _ h := by cases h
  receipts _ _ h := by cases h

/-- A step that ingests nothing files nothing new. -/
theorem Inbox.Inv.quiet (h : Inbox.Inv D.tables) (hquiet : Daemon.Quiet store D D') :
    Inbox.Inv D'.tables := by
  -- the snapshot of a row is that of the row before, or what `prune` has left of it
  have hrow : ∀ op r', D'.tables.operation? op = some r' → ∀ w, r'.snapshot = some w →
      ∃ r v, D.tables.operation? op = some r ∧ r.snapshot = some v ∧ Filed v ∧
        (w = v ∨ w = (blank "error" (blank "result" v)).sortKeys) := by
    intro op r' hr' w hw
    have hrests := hquiet.rests op
    rw [hr'] at hrests
    generalize hr : D.tables.operation? op = o at hrests
    cases hrests with
    | create => cases hw
    | keep hinbox =>
      simp only [ClientRow.inbox, Prod.mk.injEq] at hinbox
      have hv := hinbox.2.2.2.1.symm.trans hw
      exact ⟨_, w, rfl, hv, h.filed op _ hr w hv, .inl rfl⟩
    | prune r now =>
      cases hv : r.snapshot with
      | none =>
        rw [snapshot_prunedRow_of_none hv] at hw
        cases hw
      | some v =>
        refine ⟨r, v, rfl, hv, h.filed op r hr v hv, ?_⟩
        obtain ⟨hsnapshot, -⟩ | ⟨-, -, -, hsnapshot⟩ := prunedRow_cases hv now
        · exact .inl (Option.some.inj (hw.symm.trans hsnapshot))
        · exact .inr (Option.some.inj (hw.symm.trans hsnapshot))
  refine ⟨hquiet.grows.distinct h.distinct, fun op r' hr' w hw => ?_,
    fun op r' hr' w hw id hid => ?_⟩
  · obtain ⟨r, v, -, -, hfiled, rfl | rfl⟩ := hrow op r' hr' w hw
    · exact hfiled
    · exact hfiled.of_emptied
  · obtain ⟨r, v, hr, hv, hfiled, hwv⟩ := hrow op r' hr' w hw
    have hid' : member "result_id" v = .str id := by
      obtain rfl | rfl := hwv
      · exact hid
      · rwa [hfiled.emptied.rest "result_id" (by decide) (by decide)] at hid
    exact (hquiet.receives h.distinct).kept _ (h.receipts op r hr v hv id hid')

/-- A snapshot that is stored is filed, with its receipt. -/
theorem Inbox.Inv.merges {flow : Uuid} (h : Inbox.Inv T) (hv : v.Keyed)
    (hstate : ∃ state, stateOf v = some state) (hid : ResultIdOk v)
    (hmerges : Merges store v op flow T T') : Inbox.Inv T' := by
  have hgrows : Grows T.identities T'.identities := .inl hmerges.rows.2.1
  obtain ⟨hreceipts, hrows⟩ | ⟨hreceipts, ⟨r₀, hr₀, hstored⟩, hothers⟩ := hmerges.receipts
  · have hrow : ∀ op' r', T'.operation? op' = some r' → ∃ r, T.operation? op' = some r ∧
        r.snapshot = r'.snapshot := by
      intro op' r' hr'
      have hsnapshot := hrows op'
      rw [hr', Option.map_some] at hsnapshot
      exact Option.map_eq_some_iff.mp hsnapshot.symm
    refine ⟨hgrows.distinct h.distinct, fun op' r' hr' w hw => ?_, fun op' r' hr' w hw id hid => ?_⟩
    · obtain ⟨r, hr, hsnapshot⟩ := hrow op' r' hr'
      exact h.filed op' r hr w (hsnapshot.trans hw)
    · obtain ⟨r, hr, hsnapshot⟩ := hrow op' r' hr'
      exact (hasReceipt_congr hreceipts).mpr (h.receipts op' r hr w (hsnapshot.trans hw) id hid)
  · have hfiled := filed_sortKeys hv hstate hid
    refine ⟨hgrows.distinct h.distinct, fun op' r' hr' w hw => ?_, fun op' r' hr' w hw id hid => ?_⟩
    · by_cases hop : op' = op
      · subst hop
        obtain rfl := Option.some.inj (hr₀.symm.trans hr')
        rw [← Option.some.inj (hstored.symm.trans hw)]
        exact hfiled
      · exact h.filed op' r' (hothers op' hop ▸ hr') w hw
    · by_cases hop : op' = op
      · subst hop
        obtain rfl := Option.some.inj (hr₀.symm.trans hr')
        obtain rfl := Option.some.inj (hstored.symm.trans hw)
        rw [member_sortKeys hv] at hid
        obtain hnull | ⟨id', heq, hnative⟩ := ‹ResultIdOk v›
        · rw [hnull] at hid
          cases hid
        · rw [heq] at hid
          obtain rfl := Json.str.inj hid
          refine (hreceipts _).mpr (.inr ⟨id', ?_, heq, rfl⟩)
          rintro rfl
          exact hnative (by decide)
      · exact (hreceipts _).mpr (.inl (h.receipts op' r' (hothers op' hop ▸ hr') w hw id hid))

theorem Inbox.Step.inv (hstep : Inbox.Step store D D') (h : Inbox.Inv D.tables) :
    Inbox.Inv D'.tables := by
  cases hstep with
  | quiet hquiet => exact h.quiet hquiet
  | accept hv haccept =>
    obtain ⟨op, flow, hpasses, T, hmerges, htables⟩ := acceptSnapshot_merges haccept
    have hT := Inbox.Inv.merges h hv hpasses.state hpasses.resultId hmerges
    change Inbox.Inv _
    rw [htables]
    refine ⟨?_, fun op r hr => hT.filed op r (by simpa using hr),
      fun op r hr v hv id hid => ?_⟩
    · exact ⟨by rw [operations_reach]; exact hT.distinct.operations,
        by rw [operations_reach]; exact hT.distinct.origins⟩
    · exact (hasReceipt_congr (receipts_reach ..)).mpr
        (hT.receipts op r (by simpa using hr) v hv id hid)

theorem Inbox.Run.inv (hrun : Inbox.Run store D D') (h : Inbox.Inv D.tables) :
    Inbox.Inv D'.tables := by
  induction hrun with
  | refl => exact h
  | tail _ hstep ih => exact hstep.inv ih

theorem Inbox.Run.guards (hrun : Inbox.Run store D D') (hD : Inbox.Inv D.tables)
    (hr : D.tables.operation? op = some r) (hv : r.snapshot = some v) :
    Guarded v r.expired (D'.tables.operation? op) := by
  induction hrun with
  | refl => exact ⟨r, v, hr, hv, .refl v _⟩
  | tail hrun hstep ih =>
    obtain ⟨r₁, w, hr₁, hw, hguards⟩ := ih
    obtain ⟨r₂, x, hr₂, hx, hguards'⟩ := hstep.guards (Inbox.Run.inv hrun hD) hr₁ hw
    exact ⟨r₂, x, hr₂, hx, hguards.trans hguards'⟩

/-- A snapshot of another flow is refused. -/
theorem acceptSnapshot_refuses {s : Session} (hr : s.tables.operation? op = some r)
    (hlive : r.expired = false) (hop : operationOf v = some op) (hflow : flowIdOf v ≠ some r.flowId)
    (seq : Option ℤ) : ∃ e, store.acceptSnapshot v seq s = .error e := by
  cases h : store.acceptSnapshot v seq s with
  | error e => exact ⟨e, rfl⟩
  | ok x =>
    obtain ⟨op', flow, hpasses, T, hmerges, -⟩ := acceptSnapshot_merges h
    obtain rfl := Option.some.inj (hop.symm.trans hpasses.operationId)
    rw [hpasses.flowId, hmerges.agrees r hr hlive] at hflow
    exact absurd rfl hflow

/-- A snapshot of an operation that is expired moves the cursor only. -/
theorem acceptSnapshot_expired {s s' : Session} {seq : Option ℤ}
    (hr : s.tables.operation? op = some r) (hexpired : r.expired = true)
    (hop : operationOf v = some op) (h : store.acceptSnapshot v seq s = .ok ((), s')) :
    s'.tables = s.tables.reach seq := by
  obtain ⟨op', flow, hpasses, T, hmerges, htables⟩ := acceptSnapshot_merges h
  obtain rfl := Option.some.inj (hop.symm.trans hpasses.operationId)
  have hlive : ∀ r', s.tables.operation? op = some r' → r'.expired = false → False := by
    intro r' hr' hfalse
    rw [← Option.some.inj (hr.symm.trans hr'), hexpired] at hfalse
    cases hfalse
  cases hmerges with
  | absent | expired => exact htables
  | conflict hr' hfalse | replace hr' hfalse | keep hr' hfalse => exact (hlive _ hr' hfalse).elim

end

/-- **The inbox is protected against any broker.** After every run and every continuation of it: a
stored snapshot that is definitive stays as it is, or was emptied by `prune` together with the flag,
and is then never changed again; an unknown outcome is replaced by what resolves it only; what is
terminal stays terminal. Every stored result identifier has its receipt. A snapshot of another flow
is refused while its operation is known and unexpired; once it is expired, no snapshot changes
anything but the cursor. -/
theorem inbox_protected {store : ClientStore} {D D' : Daemon}
    (hrun : Inbox.Run store Daemon.initial D) (hrun' : Inbox.Run store D D') {op : Uuid}
    {r : ClientRow} (hr : D.tables.operation? op = some r) :
    (∀ v, r.snapshot = some v → Guarded v r.expired (D'.tables.operation? op)) ∧
      (∀ v, r.snapshot = some v → member "result_id" v ≠ .null →
        ∃ id, member "result_id" v = .str id ∧ D.tables.HasReceipt (op, id, .stored)) ∧
      ∀ v seq clock uuids, operationOf v = some op →
        (r.expired = false → flowIdOf v ≠ some r.flowId →
          ∃ e, store.acceptSnapshot v seq ⟨D.tables, clock, uuids⟩ = .error e) ∧
        ∀ s', r.expired = true →
          store.acceptSnapshot v seq ⟨D.tables, clock, uuids⟩ = .ok ((), s') →
          s'.tables = D.tables.reach seq := by
  have hinv := hrun.inv Inbox.inv_empty
  refine ⟨fun v hv => hrun'.guards hinv hr hv, fun v hv hne => ?_, fun v seq clock uuids hop =>
    ⟨fun hlive hflow => ?_, fun s' hexpired haccept => ?_⟩⟩
  · obtain hnull | ⟨id, hid, -⟩ := (hinv.filed op r hr v hv).resultId
    · exact absurd hnull hne
    · exact ⟨id, hid, hinv.receipts op r hr v hv id hid⟩
  · exact acceptSnapshot_refuses hr hlive hop hflow seq
  · exact acceptSnapshot_expired hr hexpired hop haccept

/-- A result is stored, expires, and comes again with another flow. -/
theorem expired_run :
    ∃ D₁ D₂ r₁ r₂ s, Inbox.Run ⟨ClientSettings.default, fun _ => ""⟩ Daemon.initial D₁ ∧
      Inbox.Run ⟨ClientSettings.default, fun _ => ""⟩ D₁ D₂ ∧
      D₁.tables.operation? 1 = some r₁ ∧
      r₁.snapshot = some (completedSnapshot 1 2 9).toJson.sortKeys ∧
      D₂.tables.operation? 1 = some r₂ ∧ r₂.flowId = 2 ∧
      ClientStore.acceptSnapshot ⟨ClientSettings.default, fun _ => ""⟩
        (completedSnapshot 1 3 9).toJson
        (some 7) ⟨D₂.tables, fun _ => 0, fun _ => 0⟩ = .ok ((), s) ∧
      D₂.tables.cursor = 0 ∧ s.tables.cursor = 7 := by
  let store : ClientStore := ⟨ClientSettings.default, fun _ => ""⟩
  have hruns : (Tx.succeeds (store.perform (.create ⟨4, 5, "a"⟩ "hello" [] 0)
      ⟨Tables.empty, fun _ => 5, fun n => if n = 0 then 1 else 2⟩) fun _ σ₁ =>
    Tx.succeeds (store.acceptSnapshot (completedSnapshot 1 2 9).toJson none
        ⟨σ₁.tables, fun _ => 6, fun _ => 0⟩) fun _ σ₂ =>
      ((σ₂.tables.operation? 1).any fun r =>
        r.snapshot = some (completedSnapshot 1 2 9).toJson.sortKeys) &&
    Tx.succeeds (store.perform .prune ⟨σ₂.tables, fun _ => seconds (8 * 86400), fun _ => 0⟩)
        fun _ σ₃ =>
      ((σ₃.tables.operation? 1).any fun r => r.flowId = 2) &&
    Tx.succeeds (store.acceptSnapshot (completedSnapshot 1 3 9).toJson (some 7)
        ⟨σ₃.tables, fun _ => 0, fun _ => 0⟩) fun _ σ₄ =>
      σ₃.tables.cursor = 0 ∧ σ₄.tables.cursor = 7) = true := by decide +kernel
  obtain ⟨_, σ₁, h₁, hruns⟩ := Tx.exists_of_succeeds hruns
  obtain ⟨_, σ₂, h₂, hruns⟩ := Tx.exists_of_succeeds hruns
  obtain ⟨hstored, hruns⟩ := Bool.and_eq_true_iff.mp hruns
  obtain ⟨r₁, hr₁, hstored⟩ := (Option.any_eq_true _ _).mp hstored
  obtain ⟨_, σ₃, h₃, hruns⟩ := Tx.exists_of_succeeds hruns
  obtain ⟨hflow, hruns⟩ := Bool.and_eq_true_iff.mp hruns
  obtain ⟨r₂, hr₂, hflow⟩ := (Option.any_eq_true _ _).mp hflow
  obtain ⟨_, σ₄, h₄, hcursors⟩ := Tx.exists_of_succeeds hruns
  obtain ⟨hcursor, hcursor'⟩ := of_decide_eq_true hcursors
  let daemon (T : Tables) : Daemon := { Daemon.initial with tables := T }
  have hcreated : Inbox.Step store Daemon.initial (daemon σ₁.tables) := .quiet (.work (.call h₁))
  have haccepted : Inbox.Step store (daemon σ₁.tables) (daemon σ₂.tables) :=
    .accept (Snapshot.tidy_toJson _).keyed h₂
  have hpruned : Inbox.Step store (daemon σ₂.tables) (daemon σ₃.tables) := .quiet (.work (.call h₃))
  exact ⟨daemon σ₂.tables, daemon σ₃.tables, r₁, r₂, σ₄,
    (Relation.ReflTransGen.single hcreated).tail
    haccepted, .single hpruned, hr₁, of_decide_eq_true hstored, hr₂, of_decide_eq_true hflow, h₄,
    hcursor, hcursor'⟩

theorem inbox_protected_expired :
    ∃ D D' r v, Inbox.Run ⟨ClientSettings.default, fun _ => ""⟩ Daemon.initial D ∧
      Inbox.Run ⟨ClientSettings.default, fun _ => ""⟩ D D' ∧ D.tables.operation? 1 = some r ∧
      r.snapshot = some v ∧ Guarded v r.expired (D'.tables.operation? 1) := by
  obtain ⟨D₁, D₂, r₁, r₂, s, hrun, hrun', hr, hsnapshot, -⟩ := expired_run
  exact ⟨D₁, D₂, r₁, _, hrun, hrun', hr, hsnapshot, (inbox_protected hrun hrun' hr).1 _ hsnapshot⟩

/-- The cursor moves past a snapshot of another flow. -/
theorem wrong_flow_moves_cursor :
    ¬ ∀ D op r v seq clock uuids s', Inbox.Run ⟨ClientSettings.default, fun _ => ""⟩
        Daemon.initial D → D.tables.operation? op = some r → operationOf v = some op →
      flowIdOf v ≠ some r.flowId →
      ClientStore.acceptSnapshot ⟨ClientSettings.default, fun _ => ""⟩ v seq
        ⟨D.tables, clock, uuids⟩ = .ok ((), s') →
      s'.tables = D.tables := by
  intro h
  obtain ⟨D₁, D₂, r₁, r₂, s, hrun, hrun', -, -, hr, hflow, haccept, hcursor, hcursor'⟩ :=
    expired_run
  have hother : flowIdOf (completedSnapshot 1 3 9).toJson ≠ some r₂.flowId := by
    rw [hflow]
    decide +kernel
  have hsame := h D₂ 1 r₂ _ _ _ _ s (hrun.trans hrun') hr (by decide +kernel) hother haccept
  rw [hsame, hcursor] at hcursor'
  cases hcursor'

end HermesGateway.Client
