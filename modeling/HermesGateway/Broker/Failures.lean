import HermesGateway.Broker.EventLog

/-!
# How the methods of the store fail

An operation that is there can be read and finished, and its handle can be saved if it has no
other: nothing but the database can fail then. What can be wrong with an artifact is its size, its
content type and the quota of the device.

## Main definitions

* `OperationRow.Dated` — a result has an expiry
* `ValidType` — a content type `put_artifact` accepts
* `handleFault`, `contentFault`, `resultFault` — what a method refuses of its argument as such

## Main results

* `finish_eq_error`, `saveHandle_eq_error`, `get_ne_error` — only the database fails
* `putArtifact_eq_error` — the three refusals of `put_artifact`
* `saveHandle_of_fault_none`, `putArtifact_of_fault`, `finish_of_fault` — the faults are refused,
  and without one nothing about the argument is
-/

namespace HermesGateway.Broker

open BrokerStore

/-- A result has an expiry. -/
def OperationRow.Dated (r : OperationRow) : Prop := r.result.isSome → r.resultExpiresAt ≠ none

/-- A content type `put_artifact` accepts. -/
def ValidType (contentType : String) : Prop :=
  contentType.length ≤ 128 ∧ ∀ c ∈ contentType.toList, Json.Printable c

instance (contentType : String) : Decidable (ValidType contentType) :=
  inferInstanceAs (Decidable (_ ∧ _))

section

variable {R : Time → Time → Prop} {Q : OperationRow → Edit → Prop} {k : Key}

/-- A step of an operation keeps its result dated. -/
theorem KeyStep.dated {o o' : Option OperationRow} {ss : List Snapshot} (h : KeyStep R Q k o ss o')
    (hdated : ∀ r ∈ o, r.Dated) : ∀ r ∈ o', r.Dated := by
  cases h with
  | same => exact hdated
  | insert =>
    rintro r ⟨⟩ hsome
    cases hsome
  | @edit r e _ _ hkey hallowed =>
    have hr := hdated r rfl
    rintro r' ⟨⟩
    cases e with
    | finish state result code message expires fresh now =>
      intro hsome hnone
      have hexpires : expires.isSome = result.isSome := hallowed.2.2
      change result.isSome = true at hsome
      change expires = none at hnone
      rw [hnone, hsome] at hexpires
      cases hexpires
    | _ => exact hr
  | @poll r now =>
    have hr := hdated r rfl
    rintro r' ⟨⟩
    exact hr
  | @cancelClaim r =>
    have hr := hdated r rfl
    rintro r' ⟨⟩
    exact hr
  | @purge r now =>
    have hr := hdated r rfl
    rintro r' ⟨⟩
    unfold purgedRow
    split
    · split_ifs
      · exact fun hsome => absurd hsome (by simp)
      · exact hr
    · exact hr

/-- The results in a ledger the store reaches are dated. -/
theorem dated_of_reachable {store : BrokerStore} {L : Ledger} (h : Reachable store L)
    {r : OperationRow} (hr : L.operation? k = some r) : r.Dated := by
  obtain ⟨ks, hmoves⟩ := moves_of_run h keyed_empty
  have hlife := life_of_trace (Q := fun _ _ => True) (fun _ _ _ _ => trivial) hmoves k
  exact hlife.invariant (I := fun o => ∀ r ∈ o, r.Dated) (fun hI hstep => hstep.dated hI)
    (fun _ h => by cases h) r hr

end

section

variable {store : BrokerStore} {s : Session} {e : Failure} {k : Key} {r : OperationRow}

theorem utcnow_ne_error : utcnow s ≠ .error e := fun h => Tx.modifyGet_eq_error.mp h

theorem uuid4_ne_error : uuid4 s ≠ .error e := fun h => Tx.modifyGet_eq_error.mp h

theorem readLedger_ne_error : readLedger s ≠ .error e := fun h => Tx.modifyGet_eq_error.mp h

theorem writeLedger_ne_error {f : Ledger → Ledger} : writeLedger f s ≠ .error e :=
  fun h => Tx.modifyGet_eq_error.mp h

theorem device_ne_error {d : Device} : device d s ≠ .error e := writeLedger_ne_error

theorem row_ne_error (hr : s.ledger.operation? k = some r) : row k s ≠ .error e := by
  rw [row_eq_ok.mpr ⟨hr, rfl⟩]
  simp

theorem snapshot_ne_error (hdated : r.Dated) : snapshot r s ≠ .error e := by
  intro h
  rcases Tx.bind_eq_error.mp h with h | ⟨_, _, -, h⟩
  · obtain ⟨⟨hsome, hnone⟩, -⟩ := Tx.refuse_eq_error.mp h
    exact hdated hsome hnone
  · obtain ⟨_, _, -, h⟩ := Tx.error_of_bind (fun _ => utcnow_ne_error) h
    obtain ⟨_, _, -, h⟩ := Tx.error_of_bind (fun _ => utcnow_ne_error) h
    exact Tx.pure_eq_error.mp h

/-- `get` of an operation that is there succeeds. -/
theorem get_ne_error (hr : s.ledger.operation? k = some r) (hdated : r.Dated) :
    BrokerStore.get k s ≠ .error e := by
  intro h
  obtain ⟨r', _, hrow, h⟩ := Tx.error_of_bind (fun _ => row_ne_error hr) h
  obtain ⟨hr', -⟩ := row_eq_ok.mp hrow
  obtain rfl := Option.some.inj (hr.symm.trans hr')
  exact snapshot_ne_error hdated h

/-- `_event` fails where the numbers run out. -/
theorem event_eq_error (hr : s.ledger.operation? k = some r) (hdated : r.Dated) {dev : DeviceRow}
    (hdev : s.ledger.device? k.1 = some dev) (h : store.event k s = .error e) :
    e = .database ∧ bigintLimit ≤ s.ledger.sequence k.1 + 1 := by
  obtain ⟨r', _, hrow, h⟩ := Tx.error_of_bind (fun _ => row_ne_error hr) h
  obtain ⟨hr', rfl⟩ := row_eq_ok.mp hrow
  obtain rfl := Option.some.inj (hr.symm.trans hr')
  obtain ⟨snap, t, hsnap, h⟩ := Tx.error_of_bind (fun _ => snapshot_ne_error hdated) h
  obtain ⟨-, rfl⟩ := snapshot_eq_ok hsnap
  obtain ⟨_, _, hread, h⟩ := Tx.error_of_bind (fun _ => readLedger_ne_error) h
  obtain ⟨rfl, rfl⟩ := readLedger_eq_ok.mp hread
  simp only [Session.ledger_tick, hdev] at h
  rcases Tx.bind_eq_error.mp h with h | ⟨_, _, -, h⟩
  · obtain ⟨hlimit, rfl⟩ := Tx.refuse_eq_error.mp h
    rw [Ledger.sequence, hdev]
    exact ⟨rfl, hlimit⟩
  · obtain ⟨_, _, -, h⟩ := Tx.error_of_bind (fun _ => utcnow_ne_error) h
    obtain ⟨_, _, -, h⟩ := Tx.error_of_bind (fun _ => writeLedger_ne_error) h
    exact (Tx.pure_eq_error.mp h).elim

/-- The device is there once `_device` has seen to it. -/
theorem device?_withDevice (L : Ledger) (d : Device) :
    ∃ dev, (L.withDevice d).device? d = some dev ∧ dev.sequence = L.sequence d := by
  rw [Ledger.withDevice, Ledger.sequence]
  cases h : L.device? d with
  | some dev => exact ⟨dev, h, rfl⟩
  | none => exact ⟨⟨d, 0, 0⟩, Table.lookup_insert_self h, rfl⟩

/-- `_finish` of an operation that is there. -/
theorem finishOperation_eq_error (hr : s.ledger.operation? k = some r) (hdated : r.Dated)
    {dev : DeviceRow} (hdev : s.ledger.device? k.1 = some dev) {state : OpState}
    {result : Option ResultBody} {code : Option ErrorCode} {message : Option String}
    (h : store.finishOperation k state result code message s = .error e) :
    e = .database ∧ bigintLimit ≤ s.ledger.sequence k.1 + 1 := by
  obtain ⟨r', _, hrow, h⟩ := Tx.error_of_bind (fun _ => row_ne_error hr) h
  obtain ⟨hr', rfl⟩ := row_eq_ok.mp hrow
  obtain rfl := Option.some.inj (hr.symm.trans hr')
  split_ifs at h with hfinal
  · exact absurd h (snapshot_ne_error hdated)
  obtain ⟨stored, _, hnow, h⟩ := Tx.error_of_bind (fun _ => utcnow_ne_error) h
  obtain ⟨-, rfl⟩ := utcnow_eq_ok.mp hnow
  obtain ⟨fresh, _, hfresh, h⟩ := Tx.error_of_bind (fun _ => uuid4_ne_error) h
  obtain ⟨-, rfl⟩ := uuid4_eq_ok.mp hfresh
  obtain ⟨now, _, hnow, h⟩ := Tx.error_of_bind (fun _ => utcnow_ne_error) h
  obtain ⟨-, rfl⟩ := utcnow_eq_ok.mp hnow
  obtain ⟨_, _, hwrite, h⟩ := Tx.error_of_bind (fun _ => writeLedger_ne_error) h
  obtain rfl := writeLedger_eq_ok.mp hwrite
  let edit := Edit.finish state result code message
    (result.map fun _ => stored + seconds store.settings.resultTtlSeconds) fresh now
  have hrow' : (edit.ledger k s.ledger).operation? k = some (edit.row r) := by
    rw [Edit.operation?_ledger, if_pos rfl, hr]
    rfl
  have hdated' : (edit.row r).Dated := by
    intro hsome hnone
    change result.isSome = true at hsome
    change result.map _ = none at hnone
    rw [Option.map_eq_none_iff.mp hnone] at hsome
    cases hsome
  exact event_eq_error (s := { s.tick.draw.tick with ledger := edit.ledger k s.ledger }) hrow'
    hdated' hdev h

/-- `finish` of an operation that is there fails only where its result cannot be encoded, or the
numbers run out. -/
theorem finish_eq_error (hr : s.ledger.operation? k = some r) (hdated : r.Dated)
    {state : OpState} {result : Option ResultBody} {code : Option ErrorCode}
    {message : Option String} (hstate : state.Terminal)
    (hencodes : ∀ body ∈ result, store.encodes body = true)
    (h : store.finish k state result code message s = .error e) :
    e = .database ∧ bigintLimit ≤ s.ledger.sequence k.1 + 1 := by
  have hfine : ¬ result.any (fun body => !store.encodes body) = true := by
    rintro hany
    obtain ⟨body, hbody, hnot⟩ := (Option.any_eq_true _ _).mp hany
    simp [hencodes body hbody] at hnot
  rcases Tx.bind_eq_error.mp h with h | ⟨_, _, hpass, h⟩
  · exact absurd hstate (Tx.refuse_eq_error.mp h).1
  obtain ⟨-, hsame⟩ := Tx.refuse_eq_ok.mp hpass
  obtain ⟨-, rfl⟩ := Prod.mk.inj hsame
  rw [Tx.bind_of_ok (Tx.refuse_of_not hfine)] at h
  obtain ⟨_, t, hdev, h⟩ := Tx.error_of_bind (fun _ => device_ne_error) h
  obtain ⟨-, rfl⟩ := Prod.mk.inj (Except.ok.inj ((device_ok k.1 s).symm.trans hdev))
  obtain ⟨dev, hdev, hseq⟩ := device?_withDevice s.ledger k.1
  have hr' : (s.ledger.withDevice k.1).operation? k = some r := by
    rw [Ledger.operation?_withDevice]
    exact hr
  have hseq' : (s.ledger.withDevice k.1).sequence k.1 = s.ledger.sequence k.1 := by
    rw [Ledger.sequence, hdev]
    exact hseq
  rw [← hseq']
  split_ifs at h
  · exact finishOperation_eq_error hr' hdated hdev h
  · exact finishOperation_eq_error hr' hdated hdev h

/-- `finish` with a result that cannot be encoded raises. -/
theorem finish_of_not_encodes {state : OpState} {body : ResultBody} {code : Option ErrorCode}
    {message : Option String} (hstate : state.Terminal) (hbody : store.encodes body = false) :
    store.finish k state (some body) code message s = .error .other := by
  rw [finish, Tx.bind_of_ok (Tx.refuse_of_not (not_not.mpr hstate))]
  exact Tx.bind_eq_error.mpr (.inl (Tx.refuse_eq_error.mpr ⟨by simp [hbody], rfl⟩))

/-- `save_handle` of an operation that is there and has no other handle. -/
theorem saveHandle_eq_error (hr : s.ledger.operation? k = some r) (hdated : r.Dated)
    {handle : String} (hhandle : handle ≠ "" ∧ handle.length ≤ 512)
    (hbinds : Storable handle ∧ store.encodable handle = true)
    (hagrees : r.remoteTaskId = none ∨ r.remoteTaskId = some "" ∨ r.remoteTaskId = some handle)
    (h : store.saveHandle k handle s = .error e) :
    e = .database ∧ bigintLimit ≤ s.ledger.sequence k.1 + 1 := by
  rcases Tx.bind_eq_error.mp h with h | ⟨_, _, hpass, h⟩
  · rcases (Tx.refuse_eq_error.mp h).1 with hempty | hlong
    · exact absurd hempty hhandle.1
    · exact absurd hlong (not_lt_of_ge hhandle.2)
  obtain ⟨-, hsame⟩ := Tx.refuse_eq_ok.mp hpass
  obtain ⟨-, rfl⟩ := Prod.mk.inj hsame
  obtain ⟨_, t, hdev, h⟩ := Tx.error_of_bind (fun _ => device_ne_error) h
  obtain ⟨-, rfl⟩ := Prod.mk.inj (Except.ok.inj ((device_ok k.1 s).symm.trans hdev))
  obtain ⟨dev, hdev, hseq⟩ := device?_withDevice s.ledger k.1
  have hr' : (s.ledger.withDevice k.1).operation? k = some r := by
    rw [Ledger.operation?_withDevice]
    exact hr
  have hseq' : (s.ledger.withDevice k.1).sequence k.1 = s.ledger.sequence k.1 := by
    rw [Ledger.sequence, hdev]
    exact hseq
  obtain ⟨r', _, hrow, h⟩ := Tx.error_of_bind (fun _ => row_ne_error hr') h
  obtain ⟨hr'', rfl⟩ := row_eq_ok.mp hrow
  obtain rfl := Option.some.inj (hr'.symm.trans hr'')
  rcases Tx.bind_eq_error.mp h with h | ⟨_, _, hpass, h⟩
  · obtain ⟨⟨hnone, hempty, hother⟩, -⟩ := Tx.refuse_eq_error.mp h
    rcases hagrees with hagrees | hagrees | hagrees
    · exact absurd hagrees hnone
    · exact absurd hagrees hempty
    · exact absurd hagrees hother
  obtain ⟨-, hsame⟩ := Tx.refuse_eq_ok.mp hpass
  obtain ⟨-, rfl⟩ := Prod.mk.inj hsame
  split_ifs at h with hdone
  · exact (Tx.pure_eq_error.mp h).elim
  obtain ⟨now, _, hnow, h⟩ := Tx.error_of_bind (fun _ => utcnow_ne_error) h
  obtain ⟨-, rfl⟩ := utcnow_eq_ok.mp hnow
  rw [Tx.bind_of_ok (Tx.refuse_of_not (not_not.mpr hbinds.1)),
    Tx.bind_of_ok (Tx.refuse_of_not (by simp [hbinds.2]))] at h
  obtain ⟨_, _, hwrite, h⟩ := Tx.error_of_bind (fun _ => writeLedger_ne_error) h
  obtain rfl := writeLedger_eq_ok.mp hwrite
  rcases Tx.bind_eq_error.mp h with h | ⟨_, _, -, h⟩
  · have hrow' : ((s.ledger.withDevice k.1).updateOperation k
        fun r => handledRow r handle now).operation? k = some (handledRow r handle now) := by
      rw [operation?_updateOperation (f := fun r => handledRow r handle now) fun _ => rfl,
        if_pos rfl, hr']
      rfl
    rw [← hseq']
    exact event_eq_error (s := { s.tick with ledger :=
      (s.ledger.withDevice k.1).updateOperation k fun r => handledRow r handle now }) hrow' hdated
      hdev h
  · exact (Tx.pure_eq_error.mp h).elim

/-- What `put_artifact` stores has a content type it accepts. -/
theorem validType_of_putArtifact {d : Device} {content : ByteArray} {digest contentType : String}
    {x : Descriptor} {s' : Session}
    (h : store.putArtifact d content digest contentType s = .ok (x, s')) :
    ValidType contentType := by
  rw [putArtifact] at h
  split_ifs at h with hsize
  · simp only [Tx.bind_eq_ok, Tx.refuse_eq_ok] at h
    obtain ⟨_, _, -, _, _, ⟨hgood, -⟩, -⟩ := h
    rw [not_or] at hgood
    exact ⟨not_lt.mp hgood.1, fun c hc => not_not.mp fun hnot => hgood.2 ⟨c, hc, hnot⟩⟩
  · exact absurd h (by simp only [Tx.throw_eq_ok, not_false_eq_true])

/-- What `put_artifact` refuses: bytes that are too many, a content type, and what the device has
no room for once its expired artifacts are deleted. The database refuses an identifier that is
taken. -/
theorem putArtifact_eq_error {d : Device} {content : ByteArray} {digest contentType : String}
    (hdigest : store.sha256 content = digest)
    (h : store.putArtifact d content digest contentType s = .error e) :
    (store.settings.maxArtifactBytes < content.size ∧
      e = brokerError .artifactTooLarge "artifact exceeds configured size limit" 413) ∨
    (content.size ≤ store.settings.maxArtifactBytes ∧ ¬ ValidType contentType ∧
      e = brokerError .invalidContentType "invalid artifact content type" 400) ∨
    (content.size ≤ store.settings.maxArtifactBytes ∧ ValidType contentType ∧
      store.settings.deviceQuotaBytes < storedBytes { s.ledger with
        artifacts := s.ledger.artifacts.filter fun a =>
          ¬ (a.deviceId = d ∧ a.expiresAt ≤ s.clock 0) } d + content.size ∧
      e = brokerError .artifactQuota "device artifact quota exceeded" 429) ∨
    (content.size ≤ store.settings.maxArtifactBytes ∧ ValidType contentType ∧
      (∃ a ∈ s.ledger.artifacts.filter fun a => ¬ (a.deviceId = d ∧ a.expiresAt ≤ s.clock 0),
        a.key = (d, s.uuids 0)) ∧ e = .database) := by
  rw [putArtifact] at h
  split_ifs at h with hsize
  · rcases Tx.bind_eq_error.mp h with h | ⟨_, _, hpass, h⟩
    · exact absurd hdigest (Tx.refuse_eq_error.mp h).1
    obtain ⟨-, hsame⟩ := Tx.refuse_eq_ok.mp hpass
    obtain ⟨-, rfl⟩ := Prod.mk.inj hsame
    rcases Tx.bind_eq_error.mp h with h | ⟨_, _, hpass, h⟩
    · obtain ⟨hbad, rfl⟩ := Tx.refuse_eq_error.mp h
      refine .inr (.inl ⟨hsize, ?_, rfl⟩)
      rintro ⟨hlen, hprint⟩
      rcases hbad with hlong | ⟨c, hc, hnot⟩
      · exact absurd hlong (not_lt_of_ge hlen)
      · exact hnot (hprint c hc)
    obtain ⟨hgood, hsame⟩ := Tx.refuse_eq_ok.mp hpass
    obtain ⟨-, rfl⟩ := Prod.mk.inj hsame
    have hvalid : ValidType contentType := by
      rw [not_or] at hgood
      exact ⟨not_lt.mp hgood.1, fun c hc => not_not.mp fun hnot => hgood.2 ⟨c, hc, hnot⟩⟩
    obtain ⟨_, t, hdev, h⟩ := Tx.error_of_bind (fun _ => device_ne_error) h
    obtain ⟨-, rfl⟩ := Prod.mk.inj (Except.ok.inj ((device_ok d s).symm.trans hdev))
    obtain ⟨now, _, hnow, h⟩ := Tx.error_of_bind (fun _ => utcnow_ne_error) h
    obtain ⟨rfl, rfl⟩ := utcnow_eq_ok.mp hnow
    obtain ⟨_, _, hwrite, h⟩ := Tx.error_of_bind (fun _ => writeLedger_ne_error) h
    obtain rfl := writeLedger_eq_ok.mp hwrite
    obtain ⟨_, _, hread, h⟩ := Tx.error_of_bind (fun _ => readLedger_ne_error) h
    obtain ⟨rfl, rfl⟩ := readLedger_eq_ok.mp hread
    obtain ⟨devices, hdevices⟩ := s.ledger.withDevice_eq d
    rcases Tx.bind_eq_error.mp h with h | ⟨_, _, hpass, h⟩
    · obtain ⟨hquota, rfl⟩ := Tx.refuse_eq_error.mp h
      refine .inr (.inr (.inl ⟨hsize, hvalid, ?_, rfl⟩))
      simpa [hdevices, storedBytes] using hquota
    obtain ⟨-, hsame⟩ := Tx.refuse_eq_ok.mp hpass
    obtain ⟨-, rfl⟩ := Prod.mk.inj hsame
    obtain ⟨_, _, hfresh, h⟩ := Tx.error_of_bind (fun _ => uuid4_ne_error) h
    obtain ⟨rfl, rfl⟩ := uuid4_eq_ok.mp hfresh
    obtain ⟨_, _, hstored, h⟩ := Tx.error_of_bind (fun _ => utcnow_ne_error) h
    obtain ⟨rfl, rfl⟩ := utcnow_eq_ok.mp hstored
    obtain ⟨_, _, hread, h⟩ := Tx.error_of_bind (fun _ => readLedger_ne_error) h
    obtain ⟨rfl, rfl⟩ := readLedger_eq_ok.mp hread
    rcases Tx.bind_eq_error.mp h with h | ⟨_, _, -, h⟩
    · obtain ⟨⟨a, ha, hkey⟩, rfl⟩ := Tx.refuse_eq_error.mp h
      exact .inr (.inr (.inr ⟨hsize, hvalid, ⟨a, by simpa [hdevices] using ha, hkey⟩, rfl⟩))
    · obtain ⟨_, _, -, h⟩ := Tx.error_of_bind (fun _ => writeLedger_ne_error) h
      exact (Tx.pure_eq_error.mp h).elim
  · exact .inl ⟨not_le.mp hsize, (Tx.throw_eq_error.mp h).symm⟩

/-! ### What is wrong with an argument as such -/

namespace BrokerStore

variable (store : BrokerStore)

/-- What `save_handle` refuses a text for, whatever is stored. -/
def handleFault (handle : String) : Option Failure :=
  if handle = "" ∨ 512 < handle.length then
    some (brokerError .invalidPeerHandle "peer returned an invalid task handle" 502)
  else if ¬ Storable handle then some .database
  else if store.encodable handle = false then some .other
  else none

/-- What `put_artifact` refuses bytes or their content type for, whatever is stored. -/
def contentFault (content : ByteArray) (contentType : String) : Option Failure :=
  if store.settings.maxArtifactBytes < content.size then
    some (brokerError .artifactTooLarge "artifact exceeds configured size limit" 413)
  else if ¬ ValidType contentType then
    some (brokerError .invalidContentType "invalid artifact content type" 400)
  else none

/-- What `finish` refuses a result for, whatever is stored. -/
def resultFault (result : Option ResultBody) : Option Failure :=
  if result.any (fun body => !store.encodes body) = true then some .other else none

end BrokerStore

theorem handleFault_eq_none {handle : String} : store.handleFault handle = none ↔
    (handle ≠ "" ∧ handle.length ≤ 512) ∧ Storable handle ∧ store.encodable handle = true := by
  rw [handleFault]
  split_ifs with hsize hstorable hbytes
  · refine iff_of_false id ?_
    rintro ⟨⟨hne, hlength⟩, -⟩
    exact hsize.elim hne (not_lt_of_ge hlength)
  · refine iff_of_false id ?_
    rintro ⟨-, -, hencodes⟩
    rw [hbytes] at hencodes
    cases hencodes
  · rw [not_or, not_lt] at hsize
    exact iff_of_true rfl ⟨hsize, hstorable, Bool.eq_true_of_not_eq_false hbytes⟩
  · exact iff_of_false id fun h => hstorable h.2.1

/-- A handle without fault is saved for an operation that has no other, unless the numbers run
out. -/
theorem saveHandle_of_fault_none (hr : s.ledger.operation? k = some r) (hdated : r.Dated)
    {handle : String} (hfault : store.handleFault handle = none)
    (hagrees : r.remoteTaskId = none ∨ r.remoteTaskId = some "" ∨ r.remoteTaskId = some handle)
    (h : store.saveHandle k handle s = .error e) :
    e = .database ∧ bigintLimit ≤ s.ledger.sequence k.1 + 1 := by
  obtain ⟨hhandle, hbinds⟩ := handleFault_eq_none.mp hfault
  exact saveHandle_eq_error hr hdated hhandle hbinds hagrees h

/-- A fault of the content is raised; content without one is refused for the quota only, or for an
identifier that is taken. -/
theorem putArtifact_of_fault {d : Device} {content : ByteArray} {contentType : String} :
    (∀ fault ∈ store.contentFault content contentType,
      store.putArtifact d content (store.sha256 content) contentType s = .error fault) ∧
    (store.contentFault content contentType = none →
      store.putArtifact d content (store.sha256 content) contentType s = .error e →
        e = brokerError .artifactQuota "device artifact quota exceeded" 429 ∨ e = .database) := by
  have hresult : (∃ x s', store.putArtifact d content (store.sha256 content) contentType s =
      .ok (x, s')) ∨
      ∃ e, store.putArtifact d content (store.sha256 content) contentType s = .error e := by
    cases store.putArtifact d content (store.sha256 content) contentType s with
    | ok x => exact .inl ⟨x.1, x.2, rfl⟩
    | error e => exact .inr ⟨e, rfl⟩
  constructor
  · intro fault hfault
    rw [Option.mem_def, contentFault] at hfault
    rcases hresult with ⟨x, s', h⟩ | ⟨e', h⟩
    · rw [if_neg (not_lt_of_ge (putArtifact_eq_ok h).1),
        if_neg (not_not.mpr (validType_of_putArtifact h))] at hfault
      cases hfault
    · rw [h]
      rcases putArtifact_eq_error rfl h with ⟨hsize, rfl⟩ | ⟨hsize, hvalid, rfl⟩ |
        ⟨hsize, hvalid, -⟩ | ⟨hsize, hvalid, -⟩
      · rw [if_pos hsize] at hfault
        rw [Option.some.inj hfault]
      · rw [if_neg (not_lt_of_ge hsize), if_pos hvalid] at hfault
        rw [Option.some.inj hfault]
      · rw [if_neg (not_lt_of_ge hsize), if_neg (not_not.mpr hvalid)] at hfault
        cases hfault
      · rw [if_neg (not_lt_of_ge hsize), if_neg (not_not.mpr hvalid)] at hfault
        cases hfault
  · intro hnone h
    rw [contentFault] at hnone
    split_ifs at hnone with hsize hvalid
    rcases putArtifact_eq_error rfl h with ⟨hlarge, -⟩ | ⟨-, hbad, -⟩ | ⟨-, -, -, rfl⟩ |
      ⟨-, -, -, rfl⟩
    · exact absurd hlarge hsize
    · exact absurd hvalid hbad
    · exact .inl rfl
    · exact .inr rfl

/-- A fault of the result is raised; a result without one is refused only when the numbers run
out. -/
theorem finish_of_fault (hr : s.ledger.operation? k = some r) (hdated : r.Dated)
    {state : OpState} {result : Option ResultBody} {code : Option ErrorCode}
    {message : Option String} (hstate : state.Terminal) :
    (∀ fault ∈ store.resultFault result,
      store.finish k state result code message s = .error fault) ∧
    (store.resultFault result = none → store.finish k state result code message s = .error e →
      e = .database ∧ bigintLimit ≤ s.ledger.sequence k.1 + 1) := by
  constructor
  · intro fault hfault
    rw [Option.mem_def, resultFault] at hfault
    split_ifs at hfault with hany
    obtain rfl := Option.some.inj hfault
    obtain ⟨body, hbody, hnot⟩ := (Option.any_eq_true _ _).mp hany
    obtain rfl := hbody
    exact finish_of_not_encodes hstate (by simpa using hnot)
  · intro hnone
    rw [resultFault] at hnone
    split_ifs at hnone with hany
    refine finish_eq_error hr hdated hstate fun body hbody => ?_
    by_contra hnot
    exact hany ((Option.any_eq_true _ _).mpr ⟨body, hbody, by simpa using hnot⟩)

end

end HermesGateway.Broker
