import HermesGateway.Client.Uplink

/-!
# What the marks rest on

The client marks an operation when the broker has taken it or has refused it for good, and it marks
a cancellation and a receipt when they were answered. A mark is read long after it was made, by
another process after a restart, so each of them has to stand on an answer that was given.

A cancellation is sent by the one call that finds no mark of an earlier one. The mark is there
before the command is, and it never goes away again, so there is no second command: not from
another call, and not after a restart.

## Main definitions

* `Uplink.Marked` — what the marks of the client rest on

## Main results

* `Uplink.Fate.of_rejected`, `Uplink.Fate.of_requested` — what makes a mark
* `Uplink.Step.marked` — one step of the client
* `Uplink.Step.stays_rejected`, `Uplink.Step.stays_decided` — marks that are final
-/

namespace HermesGateway.Client

open ClientStore

/-- What the marks of the client rest on: the answers it was given, and the commands it has sent. -/
structure Uplink.Marked (answered : Command → Outcome → Prop) (shown : Snapshot → Prop)
    (commands : List Command) (U : Uplink) : Prop where
  accepted : ∀ op r, U.tables.operation? op = some r → r.submissionState = .accepted →
    Seen shown op
  rejected : ∀ op r, U.tables.operation? op = some r → r.submissionState = .rejected →
    ∃ p status, p.operationId = op ∧ answered (.submit p) (.refused status) ∧ status ∈ rejections
  /-- What was given up was asked for, and the broker did not have it. -/
  spent : ∀ op r, U.tables.operation? op = some r →
    r.submissionState = .outcomeUnknown ∨ r.submissionState = .payloadKeyUnavailable →
    answered (.get op) (.refused 404)
  /-- What is left of a pass is not refused. -/
  remaining : ∀ op ∈ U.position.todo, ∀ r, U.tables.operation? op = some r →
    r.submissionState ≠ .rejected
  todo : U.position.todo.Nodup
  requested : ∀ op r, U.tables.operation? op = some r → r.cancelState = some .requested →
    ∃ s, answered (.cancel op) (.snapshot s)
  /-- The mark is there before the command is. -/
  asked : ∀ op, .cancel op ∈ commands → ∃ r, U.tables.operation? op = some r ∧ r.cancelState ≠ none
  once : ∀ op, commands.count (.cancel op) ≤ 1
  waiting : ∀ op ∈ U.canceling, ∃ r, U.tables.operation? op = some r ∧
    r.cancelState = some .sending
  canceling : U.canceling.Nodup
  sent : ∀ k, U.tables.Sent k → answered (.receipt k.1 k.2.1 k.2.2) .ok

section

variable {store : ClientStore} {answered answered' : Command → Outcome → Prop}
  {shown shown' : Snapshot → Prop} {U U' : Uplink} {cs commands : List Command} {op : Uuid}
  {x x' : SubmissionState × Option CancelState}

/-! ### One mark -/

/-- An operation is accepted when a snapshot of it was shown. -/
theorem Uplink.Fate.of_accepted (h : Uplink.Fate answered shown U cs U' op x x')
    (hx' : x'.1 = .accepted) : x.1 = .accepted ∨ Seen shown op := by
  cases h with
  | same | sending | unanswered | repaired => exact .inl hx'
  | accepted hseen => exact .inr hseen
  | spent hstate => rcases hstate with rfl | rfl <;> cases hx'
  | rejected => cases hx'
  | requested hstate =>
    rcases hstate with rfl | ⟨-, hseen⟩
    · exact .inl hx'
    · exact .inr hseen

/-- An operation is rejected when its payload was refused, and the pass goes on without it. -/
theorem Uplink.Fate.of_rejected (h : Uplink.Fate answered shown U cs U' op x x')
    (hx' : x'.1 = .rejected) : x.1 = .rejected ∨ ∃ p todo status,
      U.position = .posting op p todo ∧ U'.position = .dispatching todo ∧
      answered (.submit p) (.refused status) ∧ status ∈ rejections := by
  cases h with
  | same | sending | unanswered | repaired => exact .inl hx'
  | accepted => cases hx'
  | spent hstate => rcases hstate with rfl | rfl <;> cases hx'
  | rejected hposition hposition' hanswer hstatus =>
    exact .inr ⟨_, _, _, hposition, hposition', hanswer, hstatus⟩
  | requested hstate =>
    rcases hstate with rfl | ⟨rfl, -⟩
    · exact .inl hx'
    · cases hx'

/-- An operation is given up when the broker does not have it. -/
theorem Uplink.Fate.of_spent (h : Uplink.Fate answered shown U cs U' op x x')
    (hx' : x'.1 = .outcomeUnknown ∨ x'.1 = .payloadKeyUnavailable) :
    (x.1 = .outcomeUnknown ∨ x.1 = .payloadKeyUnavailable) ∨ answered (.get op) (.refused 404) := by
  cases h with
  | same | sending | unanswered | repaired => exact .inl hx'
  | accepted | rejected => rcases hx' with hx' | hx' <;> cases hx'
  | spent _ _ _ hanswer => exact .inr hanswer
  | requested hstate =>
    rcases hstate with rfl | ⟨rfl, -⟩
    · exact .inl hx'
    · rcases hx' with hx' | hx' <;> cases hx'

/-- A rejected operation stays so, unless the broker has shown it or it is asked for again. -/
theorem Uplink.Fate.unrejected (h : Uplink.Fate answered shown U cs U' op x x')
    (hx : x.1 = .rejected) :
    x'.1 = .rejected ∨ Seen shown op ∨ ∃ todo, U.position = .asking op todo := by
  cases h with
  | same | sending | unanswered | repaired => exact .inl hx
  | accepted hseen => exact .inr (.inl hseen)
  | spent _ hposition => exact .inr (.inr ⟨_, hposition⟩)
  | rejected => exact .inl rfl
  | requested hstate =>
    rcases hstate with rfl | ⟨-, hseen⟩
    · exact .inl hx
    · exact .inr (.inl hseen)

/-- A cancellation is requested when its command was answered. -/
theorem Uplink.Fate.of_requested (h : Uplink.Fate answered shown U cs U' op x x')
    (hx' : x'.2 = some .requested) :
    x.2 = some .requested ∨ ∃ s, answered (.cancel op) (.snapshot s) := by
  cases h with
  | same | accepted | spent | rejected => exact .inl hx'
  | sending | unanswered | repaired => cases hx'
  | requested _ _ _ hanswer => exact .inr ⟨_, hanswer⟩

/-- A mark of a cancellation does not go away. -/
theorem Uplink.Fate.asked (h : Uplink.Fate answered shown U cs U' op x x') (hx : x.2 ≠ none) :
    x'.2 ≠ none := by
  cases h with
  | same | accepted | spent | rejected => exact hx
  | sending | requested | unanswered | repaired => exact Option.some_ne_none _

/-- The mark that it is sent changes when the call that made it goes on, or is gone. -/
theorem Uplink.Fate.waiting (h : Uplink.Fate answered shown U cs U' op x x')
    (hx : x.2 = some .sending) : x'.2 = some .sending ∨ U'.canceling = U.canceling.erase op ∨
      U'.canceling = [] := by
  cases h with
  | same | accepted | spent | rejected => exact .inl hx
  | sending => cases hx
  | requested _ _ hwaits' | unanswered _ hwaits' => exact .inr (.inl hwaits')
  | repaired hwaits' => exact .inr (.inr hwaits')

/-- Whether the outcome of a cancellation is settled. -/
def Decided (c : Option CancelState) : Prop := c = some .requested ∨ c = some .outcomeUnknown

/-- A settled outcome changes by a call that still waits only. -/
theorem Uplink.Fate.decided (h : Uplink.Fate answered shown U cs U' op x x') (hx : Decided x.2) :
    x'.2 = x.2 ∨ op ∈ U.canceling := by
  cases h with
  | same | accepted | spent | rejected => exact .inl rfl
  | sending | repaired => rcases hx with hx | hx <;> cases hx
  | requested _ hwaits | unanswered hwaits => exact .inr hwaits

/-! ### One step -/

/-- Where a row comes from. -/
theorem Uplink.Step.origin (h : Uplink.Step store answered shown U cs U') {r' : ClientRow}
    (hr' : U'.tables.operation? op = some r') :
    (r'.submissionState = .pending ∧ r'.cancelState = none) ∨
      ∃ r, U.tables.operation? op = some r ∧ Resumes r r' ∧
        Uplink.Fate answered shown U cs U' op r.outbound r'.outbound := by
  have hrow := h.row op
  rw [hr'] at hrow
  generalize U.tables.operation? op = o at hrow
  cases hrow with
  | create => exact .inl ⟨rfl, rfl⟩
  | keep hres hfate => exact .inr ⟨_, rfl, hres, hfate⟩

/-- A rejected operation is not in what is left of the pass. -/
theorem Uplink.Step.remaining (h : U.Marked answered shown commands)
    (hkeyed : Table.Keyed ClientRow.operationId U.tables.operations)
    (hstep : Uplink.Step store answered shown U cs U') (hop : op ∈ U'.position.todo)
    {r' : ClientRow} (hr' : U'.tables.operation? op = some r') :
    r'.submissionState ≠ .rejected := by
  intro hrejected
  rcases hstep.todo with hsub | ⟨htables, htodo⟩
  · rcases hstep.origin hr' with ⟨hpending, -⟩ | ⟨r, hr, -, hfate⟩
    · cases hrejected.symm.trans hpending
    · rcases hfate.of_rejected hrejected with hold | ⟨p, todo, status, hposition, hposition', -⟩
      · exact h.remaining op (hsub.subset hop) r hr hold
      · -- the pass goes on without the operation
        have hnodup := h.todo
        rw [hposition] at hnodup
        rw [hposition'] at hop
        exact (List.nodup_cons.mp hnodup).1 hop
  · rw [htodo] at hop
    obtain ⟨r, hr, rfl⟩ := List.mem_map.mp hop
    obtain ⟨hmem, hpending⟩ := List.mem_filter.mp hr
    obtain rfl := Option.some.inj ((hkeyed.mem_iff_lookup.mp hmem).symm.trans (htables ▸ hr'))
    cases hrejected.symm.trans (of_decide_eq_true hpending).2

/-- The operations of a pass are distinct. -/
theorem Uplink.Step.nodup (h : U.Marked answered shown commands)
    (hkeyed : Table.Keyed ClientRow.operationId U.tables.operations)
    (hstep : Uplink.Step store answered shown U cs U') : U'.position.todo.Nodup := by
  rcases hstep.todo with hsub | ⟨-, htodo⟩
  · exact hsub.nodup h.todo
  · rw [htodo]
    exact (List.filter_sublist.map _).nodup hkeyed

/-- A step sends one command at most. -/
theorem Uplink.Step.alone (hstep : Uplink.Step store answered shown U cs U') {c : Command}
    (hc : c ∈ cs) : cs = [c] := by
  cases hstep with
  | ask | post | sendReceipt | cancel => rw [List.mem_singleton.mp hc]
  | _ => exact absurd hc List.not_mem_nil

/-- No cancellation was sent before, when one is sent. -/
theorem Uplink.Step.first (h : U.Marked answered shown commands)
    (hstep : Uplink.Step store answered shown U cs U') (hop : .cancel op ∈ cs) :
    .cancel op ∉ commands ∧ op ∉ U.canceling := by
  cases hstep.sends hop with
  | cancel hr hfirst =>
    constructor
    · intro hmem
      obtain ⟨r', hr', hasked⟩ := h.asked op hmem
      obtain rfl := Option.some.inj (hr.symm.trans hr')
      exact hasked hfirst
    · intro hmem
      obtain ⟨r', hr', hsending⟩ := h.waiting op hmem
      obtain rfl := Option.some.inj (hr.symm.trans hr')
      cases hfirst.symm.trans hsending

/-- The calls that wait are those of operations marked as such. -/
theorem Uplink.Step.waiting (h : U.Marked answered shown commands)
    (hstep : Uplink.Step store answered shown U cs U') :
    U'.canceling.Nodup ∧ ∀ op ∈ U'.canceling, ∃ r, U'.tables.operation? op = some r ∧
      r.cancelState = some .sending := by
  -- a call that still waits after the step finds its mark
  have hstill : ∀ op ∈ U.canceling, op ∈ U'.canceling →
      (U'.canceling = U.canceling.erase op → False) → ∃ r, U'.tables.operation? op = some r ∧
        r.cancelState = some .sending := by
    intro op hop hop' herased
    obtain ⟨r, hr, hsending⟩ := h.waiting op hop
    obtain ⟨r', hr', -, hfate⟩ := hstep.kept hr
    rcases hfate.waiting hsending with hsame | herase | hnil
    · exact ⟨r', hr', hsame⟩
    · exact absurd herase herased
    · exact absurd (hnil ▸ hop') List.not_mem_nil
  rcases hstep.waits with ⟨-, hsub⟩ | ⟨op, rfl, hcons, hmarked⟩
  · refine ⟨hsub.nodup h.canceling, fun op hop => hstill op (hsub.subset hop) hop fun herase => ?_⟩
    rw [herase] at hop
    exact h.canceling.not_mem_erase hop
  · have hnew : op ∉ U.canceling := (hstep.first h (List.mem_singleton_self _)).2
    rw [hcons]
    refine ⟨List.nodup_cons.mpr ⟨hnew, h.canceling⟩, fun op' hop' => ?_⟩
    rcases List.mem_cons.mp hop' with rfl | hold
    · exact hmarked
    · refine hstill op' hold (hcons ▸ hop') fun herase => ?_
      rw [hcons] at herase
      have hlength := congrArg List.length herase
      rw [List.length_cons, List.length_erase_of_mem hold] at hlength
      omega

/-- **One step of the client.** -/
theorem Uplink.Step.marked (h : U.Marked answered shown commands)
    (hkeyed : Table.Keyed ClientRow.operationId U.tables.operations)
    (hposting : ∀ op p todo, U.position = .posting op p todo → p.operationId = op)
    (hstep : Uplink.Step store answered shown U cs U') :
    U'.Marked answered shown (commands ++ cs) where
  accepted op r' hr' haccepted := by
    rcases hstep.origin hr' with ⟨hpending, -⟩ | ⟨r, hr, -, hfate⟩
    · cases haccepted.symm.trans hpending
    · exact (hfate.of_accepted haccepted).elim (h.accepted op r hr) id
  rejected op r' hr' hrejected := by
    rcases hstep.origin hr' with ⟨hpending, -⟩ | ⟨r, hr, -, hfate⟩
    · cases hrejected.symm.trans hpending
    · rcases hfate.of_rejected hrejected with hold |
        ⟨p, todo, status, hposition, -, hanswer, hstatus⟩
      · exact h.rejected op r hr hold
      · exact ⟨p, status, hposting op p todo hposition, hanswer, hstatus⟩
  spent op r' hr' hspent := by
    rcases hstep.origin hr' with ⟨hpending, -⟩ | ⟨r, hr, -, hfate⟩
    · rw [hpending] at hspent
      rcases hspent with hspent | hspent <;> cases hspent
    · exact (hfate.of_spent hspent).elim (h.spent op r hr) id
  remaining op hop r' hr' := Uplink.Step.remaining h hkeyed hstep hop hr'
  todo := Uplink.Step.nodup h hkeyed hstep
  requested op r' hr' hrequested := by
    rcases hstep.origin hr' with ⟨-, hnone⟩ | ⟨r, hr, -, hfate⟩
    · cases hrequested.symm.trans hnone
    · exact (hfate.of_requested hrequested).elim (h.requested op r hr) id
  asked op hop := by
    rcases List.mem_append.mp hop with hold | hnew
    · obtain ⟨r, hr, hasked⟩ := h.asked op hold
      obtain ⟨r', hr', -, hfate⟩ := hstep.kept hr
      exact ⟨r', hr', hfate.asked hasked⟩
    · rcases hstep.waits with ⟨hnone, -⟩ | ⟨op', rfl, -, r, hr, hsending⟩
      · exact absurd hnew (hnone op)
      · obtain rfl := Command.cancel.inj (List.mem_singleton.mp hnew)
        exact ⟨r, hr, by rw [hsending]; exact Option.some_ne_none _⟩
  once op := by
    rw [List.count_append]
    by_cases hnew : .cancel op ∈ cs
    · rw [List.count_eq_zero.mpr (hstep.first h hnew).1, hstep.alone hnew,
        List.count_singleton_self]
    · rw [List.count_eq_zero.mpr hnew]
      exact h.once op
  waiting := (hstep.waiting h).2
  canceling := (hstep.waiting h).1
  sent k hk := ((hstep.sent_iff k).2 hk).elim (h.sent k) id

/-- An operation the broker has never shown stays rejected. -/
theorem Uplink.Step.stays_rejected (h : U.Marked answered shown commands)
    (hstep : Uplink.Step store answered shown U cs U') (hunseen : ¬ Seen shown op) {r : ClientRow}
    (hr : U.tables.operation? op = some r) (hrejected : r.submissionState = .rejected) :
    ∃ r', U'.tables.operation? op = some r' ∧ r'.submissionState = .rejected := by
  obtain ⟨r', hr', -, hfate⟩ := hstep.kept hr
  rcases hfate.unrejected hrejected with hstays | hseen | ⟨todo, hposition⟩
  · exact ⟨r', hr', hstays⟩
  · exact absurd hseen hunseen
  · refine absurd hrejected (h.remaining op ?_ r hr)
    rw [hposition]
    exact List.mem_cons_self

/-- The outcome of a cancellation is final. -/
theorem Uplink.Step.stays_decided (h : U.Marked answered shown commands)
    (hstep : Uplink.Step store answered shown U cs U') {r : ClientRow}
    (hr : U.tables.operation? op = some r) (hdecided : Decided r.cancelState) :
    ∃ r', U'.tables.operation? op = some r' ∧ r'.cancelState = r.cancelState := by
  obtain ⟨r', hr', -, hfate⟩ := hstep.kept hr
  refine ⟨r', hr', (hfate.decided hdecided).resolve_right fun hop => ?_⟩
  obtain ⟨r'', hr'', hsending⟩ := h.waiting op hop
  obtain rfl := Option.some.inj (hr.symm.trans hr'')
  rcases hdecided with hdecided | hdecided <;> cases hsending.symm.trans hdecided

/-- More answers, and more that was shown. -/
theorem Uplink.Marked.mono (h : U.Marked answered shown commands)
    (hanswered : ∀ c a, answered c a → answered' c a) (hshown : ∀ s, shown s → shown' s) :
    U.Marked answered' shown' commands where
  accepted op r hr haccepted := by
    obtain ⟨s, hs, hop⟩ := h.accepted op r hr haccepted
    exact ⟨s, hshown s hs, hop⟩
  rejected op r hr hrejected := by
    obtain ⟨p, status, hop, hanswer, hstatus⟩ := h.rejected op r hr hrejected
    exact ⟨p, status, hop, hanswered _ _ hanswer, hstatus⟩
  spent op r hr hspent := hanswered _ _ (h.spent op r hr hspent)
  remaining := h.remaining
  todo := h.todo
  requested op r hr hrequested := by
    obtain ⟨s, hanswer⟩ := h.requested op r hr hrequested
    exact ⟨s, hanswered _ _ hanswer⟩
  asked := h.asked
  once := h.once
  waiting := h.waiting
  canceling := h.canceling
  sent k hk := hanswered _ _ (h.sent k hk)

theorem Uplink.marked_initial : Uplink.initial.Marked answered shown [] where
  accepted := by rintro _ _ ⟨⟩
  rejected := by rintro _ _ ⟨⟩
  spent := by rintro _ _ ⟨⟩
  remaining := by rintro _ ⟨⟩
  todo := List.nodup_nil
  requested := by rintro _ _ ⟨⟩
  asked := by rintro _ ⟨⟩
  once _ := Nat.zero_le 1
  waiting := by rintro _ ⟨⟩
  canceling := List.nodup_nil
  sent := by rintro _ ⟨_, ⟨⟩, -⟩

end

end HermesGateway.Client
