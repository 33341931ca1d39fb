import HermesGateway.Broker.Runs

/-!
# Devices do not see each other

Every statement of a request's transaction names the device it was authenticated as. What follows
from that is proved here in one form: the transaction on the whole ledger and the transaction on
the part that belongs to the device do the same thing. The response is then a function of that
part, and the parts of the other devices are left as they were.

## Main definitions

* `Credentials`, `Credentials.admission` — `DeviceAuthentication`
* `BrokerStore.respond`, `Credentials.handle` — a request from its arrival to its response
* `Ledger.part` — what belongs to a device
* `Isolated` — a transaction confined to the part of a device

## Main results

* `respond_isolated` — every handler is confined to the part of the device it serves
* `device_noninterference` — sequences of requests of any devices
-/

namespace HermesGateway.Broker

open BrokerStore

/-! ### Authentication -/

/-- The bytes of `text.encode()`. -/
def utf8 (text : String) : List UInt8 := text.toUTF8.data.toList

theorem utf8_injective : Function.Injective utf8 := by
  intro a b h
  refine String.toByteArray_inj.mp (ByteArray.ext ?_)
  exact Array.toList_inj.mp h

/-- One byte of `bytes.lower()`. -/
def lowerByte (b : UInt8) : UInt8 := if 65 ≤ b ∧ b ≤ 90 then b + 32 else b

/-- What a request is routed to: the health check, the policy of the peer, or a handler of the
ledger with its validated arguments. -/
inductive Route
  | healthz
  | peerPolicy
  | api (request : Request)

/-- A request as it arrives. -/
structure HttpRequest where
  scheme : String
  headers : List (List UInt8 × List UInt8)
  route : Route

/-- The values of the `Authorization` headers. -/
def HttpRequest.authorization (http : HttpRequest) : List (List UInt8) :=
  (http.headers.filter fun h => h.1.map lowerByte = utf8 "authorization").map Prod.snd

/-- The request has one `Authorization` header, with this bearer token. -/
def HttpRequest.Bears (http : HttpRequest) (token : List UInt8) : Prop :=
  http.authorization = [utf8 "Bearer " ++ token]

/-- What `DeviceAuthentication` reads of the settings. The devices are the keys of a dictionary,
and the validator of the settings asks for distinct tokens. -/
structure Credentials where
  deviceTokens : List (Device × String)
  allowLoopbackHttp : Bool
  devices_nodup : (deviceTokens.map Prod.fst).Nodup
  tokens_nodup : (deviceTokens.map Prod.snd).Nodup

/-- The body of a response. -/
inductive Response
  | reply (status : ℕ) (reply : Reply)
  | refused (code message : String) (status : ℕ) (resumeAfter : Option ℕ)
  | internal
  | health
  | policy

/-- What `DeviceAuthentication` decides. -/
inductive Admission
  | exempt
  | denied (response : Response)
  | device (d : Device)

namespace Credentials

variable (cred : Credentials)

/-- The loop over the candidates: the last one whose token it is. -/
def deviceOf (token : List UInt8) : Option Device :=
  cred.deviceTokens.foldl (fun found c => if token = utf8 c.2 then some c.1 else found) none

/-- The device of the one `Authorization` header. -/
def device? (http : HttpRequest) : Option Device :=
  match http.authorization with
  | [value] => if utf8 "Bearer " <+: value then cred.deviceOf (value.drop 7) else none
  | _ => none

/-- Whether the transport is good enough. -/
def Secure (http : HttpRequest) : Prop := http.scheme = "https" ∨ cred.allowLoopbackHttp = true

instance (http : HttpRequest) : Decidable (cred.Secure http) := inferInstanceAs (Decidable (_ ∨ _))

/-- `DeviceAuthentication.__call__`, up to the call of the application. -/
def admission (http : HttpRequest) : Admission :=
  match http.route with
  | .healthz => .exempt
  | _ =>
    if cred.Secure http then
      match cred.device? http with
      | some d => .device d
      | none => .denied (.refused "unauthorized" "valid device bearer token required" 401 none)
    else .denied (.refused "https_required" "HTTPS transport is required" 400 none)

end Credentials

/-! ### From arrival to response -/

/-- The handlers, with the status of the response. -/
def BrokerStore.respond (store : BrokerStore) (d : Device) : Request → StoreTx (ℕ × Reply)
  | .accept request => do
    let (snapshot, created) ← store.accept d request
    return (if created then 202 else 200, .snapshot snapshot)
  | .upload content digest contentType => do
    return (201, .descriptor (← store.putArtifact d content digest contentType))
  | request => do
    return (200, ← store.serve d request)

/-- The reply of a response is what the handler serves. -/
theorem respond_eq_ok {store : BrokerStore} {d : Device} {request : Request} {s s' : Session}
    {x : ℕ × Reply} (h : store.respond d request s = .ok (x, s')) :
    store.serve d request s = .ok (x.2, s') := by
  cases request with
  | accept request =>
    obtain ⟨r, t, hr, hret⟩ := Tx.bind_eq_ok.mp h
    obtain ⟨rfl, rfl⟩ := Prod.mk.inj (Tx.pure_eq_ok.mp hret)
    exact Tx.map_eq_ok.mpr ⟨r, hr, rfl⟩
  | upload content digest contentType =>
    obtain ⟨r, hr, rfl⟩ := Tx.map_eq_ok.mp h
    exact Tx.map_eq_ok.mpr ⟨r, hr, rfl⟩
  | get | cancel | events | receipt | download =>
    obtain ⟨r, hr, rfl⟩ := Tx.map_eq_ok.mp h
    exact hr

/-- `error_response` and the handlers of `DeviceAuthentication`: the driver's failures are hidden,
and any other exception is the server's. -/
def Response.of : Except Failure (ℕ × Reply) → Response
  | .ok (status, body) => .reply status body
  | .error (.broker e) => .refused e.code.text e.message e.status e.resumeAfter
  | .error .database => .refused "ledger_unavailable" "broker ledger unavailable" 503 none
  | .error .other => .internal

/-- A request is answered: the response, and the ledger it leaves. -/
def Credentials.handle (cred : Credentials) (store : BrokerStore) (http : HttpRequest)
    (s : Session) : Response × Ledger :=
  match cred.admission http with
  | .exempt => (.health, s.ledger)
  | .denied response => (response, s.ledger)
  | .device d =>
    match http.route with
    | .api request =>
      (Response.of ((store.respond d request s).map Prod.fst),
        ledgerAfter s.ledger (store.respond d request s))
    | _ => (.policy, s.ledger)

/-- A request with what `utcnow()` and `uuid4()` return while it is handled. -/
structure Arrival where
  http : HttpRequest
  clock : ℕ → Time
  uuids : ℕ → Uuid

/-- The session an arrival is handled in. -/
def Arrival.session (a : Arrival) (L : Ledger) : Session := ⟨L, a.clock, a.uuids⟩

namespace Credentials

variable (cred : Credentials) (store : BrokerStore)

/-- Whether a request is one of `d`. -/
def isFrom (d : Device) (a : Arrival) : Bool :=
  match cred.admission a.http with
  | .device d' => d' = d
  | _ => false

/-- The ledger after a sequence of requests. -/
def handleAll : Ledger → List Arrival → Ledger
  | L, [] => L
  | L, a :: rest => handleAll (cred.handle store a.http (a.session L)).2 rest

/-- The responses `d` gets, in order. -/
def responsesTo (d : Device) : Ledger → List Arrival → List Response
  | _, [] => []
  | L, a :: rest =>
    let (response, L') := cred.handle store a.http (a.session L)
    if cred.isFrom d a then response :: responsesTo d L' rest else responsesTo d L' rest

end Credentials

/-! ### The part of a device -/

/-- What belongs to a device: its rows of every table. -/
def Ledger.part (L : Ledger) (d : Device) : Ledger where
  devices := L.devices.filter fun r => r.deviceId = d
  operations := L.operations.filter fun r => r.deviceId = d
  payloads := L.payloads.filter fun r => r.deviceId = d
  outbox := L.outbox.filter fun r => r.deviceId = d
  events := L.events.filter fun r => r.deviceId = d
  artifacts := L.artifacts.filter fun r => r.deviceId = d
  receipts := L.receipts.filter fun r => r.deviceId = d
  history := L.history.filter fun r => r.deviceId = d

/-- The session on the part of a device. -/
def Session.restrict (d : Device) (s : Session) : Session := { s with ledger := s.ledger.part d }

/-- The parts of the other devices are as they were. -/
def Apart (d : Device) (s s' : Session) : Prop :=
  ∀ d', d' ≠ d → s'.ledger.part d' = s.ledger.part d'

instance (d : Device) : IsPreorder Session (Apart d) where
  refl _ _ _ := rfl
  trans _ _ _ h h' d' hd' := (h' d' hd').trans (h d' hd')

/-- A transaction confined to the part of a device: it does the same thing when there is nothing
else, and leaves everything else as it was. -/
structure Isolated (d : Device) {α : Type} (m : StoreTx α) : Prop where
  inside : Tx.Commutes (Session.restrict d) m
  outside : Tx.Keeps (Apart d) m

/-- The same of a change of the ledger. -/
structure Confined (d : Device) (f : Ledger → Ledger) : Prop where
  inside : ∀ L, f (L.part d) = (f L).part d
  outside : ∀ L d', d' ≠ d → (f L).part d' = L.part d'

section

variable {d : Device} {α β : Type}

namespace Isolated

theorem pure (a : α) : Isolated d (Pure.pure a : StoreTx α) :=
  ⟨Tx.Commutes.pure a, Tx.Keeps.pure a⟩

theorem throw (e : Failure) : Isolated d (MonadExcept.throw e : StoreTx α) :=
  ⟨Tx.Commutes.throw e, Tx.Keeps.throw e⟩

theorem bind {m : StoreTx α} {f : α → StoreTx β} (hm : Isolated d m) (hf : ∀ a, Isolated d (f a)) :
    Isolated d (m >>= f) :=
  ⟨hm.inside.bind fun a => (hf a).inside, hm.outside.bind fun a => (hf a).outside⟩

theorem refuse {c : Prop} [Decidable c] {e : Failure} : Isolated d (Tx.refuse c e) :=
  ⟨Tx.Commutes.refuse, Tx.Keeps.refuse⟩

theorem ite {c : Prop} [Decidable c] {m m' : StoreTx α} (hm : Isolated d m) (hm' : Isolated d m') :
    Isolated d (if c then m else m') :=
  ⟨hm.inside.ite hm'.inside, hm.outside.ite hm'.outside⟩

theorem utcnow : Isolated d utcnow :=
  ⟨Tx.Commutes.modifyGet fun _ => rfl, Tx.Keeps.modifyGet fun _ _ _ => rfl⟩

theorem uuid4 : Isolated d uuid4 :=
  ⟨Tx.Commutes.modifyGet fun _ => rfl, Tx.Keeps.modifyGet fun _ _ _ => rfl⟩

/-- Reading the ledger, if what is made of it looks at the part only. -/
theorem read {f : Ledger → StoreTx α} (hf : ∀ L : Ledger, f (L.part d) = f L)
    (h : ∀ L, Isolated d (f L)) : Isolated d (readLedger >>= f) :=
  ⟨Tx.Commutes.read (fun s => hf s.ledger) fun L => (h L).inside,
    Tx.Keeps.bind (Tx.Keeps.modifyGet fun _ _ _ => rfl) fun L => (h L).outside⟩

theorem write {f : Ledger → Ledger} (hf : Confined d f) : Isolated d (writeLedger f) := by
  refine ⟨Tx.Commutes.modifyGet fun s => ?_, Tx.Keeps.modifyGet fun s d' hd' =>
    hf.outside s.ledger d' hd'⟩
  simp only [Session.restrict, hf.inside]

end Isolated

end

theorem Confined.comp {d : Device} {f g : Ledger → Ledger} (hf : Confined d f) (hg : Confined d g) :
    Confined d fun L => g (f L) where
  inside L := by rw [hf.inside, hg.inside]
  outside L d' hd' := by rw [hg.outside _ d' hd', hf.outside L d' hd']

/-! ### Changes of the ledger -/

section

variable {d : Device} {op : Uuid}

/-- Rows of one device are not rows of another. -/
theorem filter_other {ρ : Type} {device : ρ → Device} {p : ρ → Bool} {rows : List ρ} {d' : Device}
    (hd' : d' ≠ d) (hp : ∀ r, p r = false → device r = d) :
    ((rows.filter p).filter fun r => device r = d') = rows.filter fun r => device r = d' := by
  rw [List.filter_filter]
  refine List.filter_congr fun r _ => ?_
  by_cases hr : device r = d'
  · have hpr : p r = true := by
      by_contra hfalse
      exact hd' (hr.symm.trans (hp r (Bool.eq_false_iff.mpr hfalse)))
    simp [hr, hpr]
  · simp [hr]

/-- The order of two selections does not matter. -/
theorem filter_comm {ρ : Type} (p q : ρ → Bool) (rows : List ρ) :
    (rows.filter p).filter q = (rows.filter q).filter p := by
  rw [List.filter_filter, List.filter_filter]
  exact List.filter_congr fun r _ => Bool.and_comm _ _

/-- An update of a row of the device, seen by the device and by the others. -/
theorem filter_update {ρ κ : Type} [DecidableEq κ] {c : ρ → κ} {device : ρ → Device} {k : κ}
    {f : ρ → ρ} (hf : ∀ r, device (f r) = device r) (hk : ∀ r, c r = k → device r = d)
    (rows : List ρ) :
    (Table.modify c (rows.filter fun r => device r = d) k f =
      (Table.modify c rows k f).filter fun r => device r = d) ∧
    ∀ d', d' ≠ d → ((Table.modify c rows k f).filter fun r => device r = d') =
      rows.filter fun r => device r = d' := by
  refine ⟨(Table.filter_modify (p := fun r => device r = d) (fun r => by rw [hf]) rows k).symm,
    fun d' hd' => ?_⟩
  refine Table.filter_modify_of_not fun r hr => ?_
  rw [hf, hk r hr]
  simp [hd'.symm]

theorem confined_updateOperation {f : OperationRow → OperationRow} (hf : ∀ r, (f r).key = r.key) :
    Confined d fun L => L.updateOperation (d, op) f := by
  have hrows := fun L : Ledger => filter_update (d := d) (c := OperationRow.key) (k := (d, op))
    (fun r => congrArg Prod.fst (hf r)) (fun r hr => congrArg Prod.fst hr) L.operations
  refine ⟨fun L => ?_, fun L d' hd' => ?_⟩
  · simp only [Ledger.updateOperation, Ledger.part]
    exact congrArg (fun rows => { L.part d with operations := rows }) (hrows L).1
  · simp only [Ledger.updateOperation, Ledger.part]
    exact congrArg (fun rows => { L.part d' with operations := rows }) ((hrows L).2 d' hd')

theorem confined_updateOutbox {f : OutboxRow → OutboxRow} (hf : ∀ b, (f b).key = b.key) :
    Confined d fun L => L.updateOutbox (d, op) f := by
  have hrows := fun L : Ledger => filter_update (d := d) (c := OutboxRow.key) (k := (d, op))
    (fun b => congrArg Prod.fst (hf b)) (fun b hb => congrArg Prod.fst hb) L.outbox
  refine ⟨fun L => ?_, fun L d' hd' => ?_⟩
  · simp only [Ledger.updateOutbox, Ledger.part]
    exact congrArg (fun rows => { L.part d with outbox := rows }) (hrows L).1
  · simp only [Ledger.updateOutbox, Ledger.part]
    exact congrArg (fun rows => { L.part d' with outbox := rows }) ((hrows L).2 d' hd')

theorem confined_deletePayload : Confined d fun L => L.deletePayload (d, op) where
  inside L := by
    simp only [Ledger.deletePayload, Ledger.part]
    rw [filter_comm]
  outside L d' hd' := by
    simp only [Ledger.deletePayload, Ledger.part]
    rw [filter_other hd' fun p hp => congrArg Prod.fst (by simpa using hp)]

theorem confined_appendEvent (n : ℕ) (snap : Snapshot) (expires : Time) :
    Confined d fun L => L.appendEvent d n snap expires where
  inside L := by
    have hdev := (filter_update (d := d) (c := DeviceRow.deviceId) (k := d)
      (f := fun r => { r with sequence := n }) (fun _ => rfl) (fun _ hr => hr) L.devices).1
    simp only [Ledger.appendEvent, Ledger.part, List.filter_append, hdev]
    simp
  outside L d' hd' := by
    have hdev := (filter_update (d := d) (c := DeviceRow.deviceId) (k := d)
      (f := fun r => { r with sequence := n }) (fun _ => rfl) (fun _ hr => hr) L.devices).2 d' hd'
    simp only [Ledger.appendEvent, Ledger.part, List.filter_append, hdev]
    simp [hd'.symm]

theorem confined_insertOperation {r : OperationRow} (hr : r.deviceId = d)
    (request : OperationRequest) (expires : Time) :
    Confined d fun L => insertOperation L r request expires where
  inside L := by
    simp [insertOperation, Ledger.part, List.filter_append, hr]
  outside L d' hd' := by
    simp [insertOperation, Ledger.part, List.filter_append, hr, hd'.symm]

@[simp] theorem device?_part (L : Ledger) : (L.part d).device? d = L.device? d := by
  rw [Ledger.device?, Ledger.device?, Table.lookup, Table.lookup, Ledger.part, List.find?_filter]
  simp

@[simp] theorem operation?_part (L : Ledger) :
    (L.part d).operation? (d, op) = L.operation? (d, op) := by
  rw [Ledger.operation?, Ledger.operation?, Table.lookup, Table.lookup, Ledger.part,
    List.find?_filter]
  congr 1
  funext r
  by_cases hr : r.key = (d, op)
  · have hd : r.deviceId = d := congrArg Prod.fst hr
    simp [hr, hd]
  · simp [hr]

theorem confined_withDevice : Confined d fun L => L.withDevice d where
  inside L := by
    simp only [Ledger.withDevice, device?_part]
    cases L.device? d with
    | some dev => rfl
    | none => simp [Ledger.part, List.filter_append]
  outside L d' hd' := by
    simp only [Ledger.withDevice]
    cases L.device? d with
    | some dev => rfl
    | none => simp [Ledger.part, List.filter_append, hd'.symm]

theorem confined_dropEvents (n : ℕ) : Confined d fun L => L.dropEvents d n where
  inside L := by
    have hdev := (filter_update (d := d) (c := DeviceRow.deviceId) (k := d)
      (f := fun r => { r with floor := max r.floor n }) (fun _ => rfl) (fun _ hr => hr) L.devices).1
    simp only [Ledger.dropEvents, Ledger.part, hdev]
    rw [filter_comm]
  outside L d' hd' := by
    have hdev := (filter_update (d := d) (c := DeviceRow.deviceId) (k := d)
      (f := fun r => { r with floor := max r.floor n }) (fun _ => rfl) (fun _ hr => hr) L.devices).2
        d' hd'
    simp only [Ledger.dropEvents, Ledger.part, hdev]
    rw [filter_other hd' fun e he => (by simpa using he : _ ∧ _).1]

theorem confined_receipt (resultId : Uuid) (status : ReceiptStatus) (now : Time) :
    Confined d fun L =>
      if ∃ x ∈ L.receipts, x.key = ((d, op), resultId, status) then L
      else { L with receipts := L.receipts ++ [⟨d, op, resultId, status, now⟩] } where
  inside L := by
    have hiff : (∃ x ∈ (L.part d).receipts, x.key = ((d, op), resultId, status)) ↔
        ∃ x ∈ L.receipts, x.key = ((d, op), resultId, status) := by
      constructor
      · rintro ⟨x, hx, hkey⟩
        exact ⟨x, List.mem_of_mem_filter hx, hkey⟩
      · rintro ⟨x, hx, hkey⟩
        have hd : x.deviceId = d := congrArg (fun k => k.1.1) hkey
        exact ⟨x, List.mem_filter.mpr ⟨hx, decide_eq_true hd⟩, hkey⟩
    by_cases h : ∃ x ∈ L.receipts, x.key = ((d, op), resultId, status)
    · simp only [if_pos (hiff.mpr h), if_pos h]
    · simp only [if_neg (mt hiff.mp h), if_neg h]
      simp [Ledger.part, List.filter_append]
  outside L d' hd' := by
    split_ifs
    · rfl
    · simp [Ledger.part, List.filter_append, hd'.symm]

theorem confined_dropArtifacts (now : Time) :
    Confined d fun L => { L with
      artifacts := L.artifacts.filter fun a => ¬ (a.deviceId = d ∧ a.expiresAt ≤ now) } where
  inside L := by
    simp only [Ledger.part]
    rw [filter_comm]
  outside L d' hd' := by
    simp only [Ledger.part]
    rw [filter_other hd' fun a ha => (by simpa using ha : _ ∧ _).1]

theorem confined_putArtifact {row : ArtifactRow} (hrow : row.deviceId = d) :
    Confined d fun L => { L with artifacts := L.artifacts ++ [row] } where
  inside L := by simp [Ledger.part, List.filter_append, hrow]
  outside L d' hd' := by simp [Ledger.part, List.filter_append, hrow, hd'.symm]

end

/-! ### Transactions -/

section

variable {store : BrokerStore} {d : Device} {op : Uuid}

theorem device_isolated : Isolated d (device d) := Isolated.write confined_withDevice

theorem row_isolated : Isolated d (row (d, op)) := by
  refine Isolated.read (fun L => by rw [operation?_part]) fun L => ?_
  cases L.operation? (d, op) with
  | some r => exact Isolated.pure r
  | none => exact Isolated.throw _

theorem snapshot_isolated (r : OperationRow) : Isolated d (snapshot r) :=
  Isolated.refuse.bind fun _ => Isolated.utcnow.bind fun _ => Isolated.utcnow.bind fun _ =>
    Isolated.pure _

theorem event_isolated : Isolated d (store.event (d, op)) := by
  refine row_isolated.bind fun r => (snapshot_isolated r).bind fun snap =>
    Isolated.read (fun L => by rw [device?_part]) fun L => ?_
  cases L.device? d with
  | none => exact Isolated.throw _
  | some dev =>
    exact Isolated.refuse.bind fun _ => Isolated.utcnow.bind fun _ =>
      (Isolated.write (confined_appendEvent _ _ _)).bind fun _ => Isolated.pure _

theorem finishOperation_isolated (state : OpState) (result : Option ResultBody)
    (code : Option ErrorCode) (message : Option String) :
    Isolated d (store.finishOperation (d, op) state result code message) := by
  refine row_isolated.bind fun r => Isolated.ite (snapshot_isolated r) ?_
  refine Isolated.utcnow.bind fun stored => Isolated.uuid4.bind fun fresh =>
    Isolated.utcnow.bind fun now => Isolated.bind (Isolated.write ?_) fun _ => event_isolated
  have hrow : Confined d fun L => L.updateOperation (d, op) fun r => finishedRow r state result code
      message (result.map fun _ => stored + seconds store.settings.resultTtlSeconds) fresh now :=
    confined_updateOperation fun _ => rfl
  have houtbox : Confined d fun L => L.updateOutbox (d, op) fun b => { b with state := .done } :=
    confined_updateOutbox fun _ => rfl
  exact (hrow.comp houtbox).comp confined_deletePayload

theorem purgeEvents_isolated : Isolated d (purgeEvents d) := by
  refine Isolated.utcnow.bind fun now => Isolated.write ⟨fun L => ?_, fun L d' hd' => ?_⟩
  · have hsame : (L.part d).events.filter (fun e => e.deviceId = d ∧ e.expiresAt ≤ now) =
        L.events.filter fun e => e.deviceId = d ∧ e.expiresAt ≤ now := by
      rw [Ledger.part, List.filter_filter]
      refine List.filter_congr fun e _ => ?_
      by_cases he : e.deviceId = d <;> simp [he]
    simp only [hsame]
    split
    · rfl
    · exact (confined_dropEvents _).inside L
  · split
    · rfl
    · exact (confined_dropEvents _).outside L d' hd'

theorem artifact_isolated (a : Uuid) : Isolated d (store.artifact d a) := by
  refine Isolated.utcnow.bind fun now => Isolated.read (fun L => ?_) fun L => ?_
  · have hsame : (L.part d).artifacts.find? (fun r => r.key = (d, a) ∧ now < r.expiresAt) =
        L.artifacts.find? fun r => r.key = (d, a) ∧ now < r.expiresAt := by
      rw [Ledger.part, List.find?_filter]
      congr 1
      funext r
      by_cases hr : r.key = (d, a)
      · have hd : r.deviceId = d := congrArg Prod.fst hr
        simp [hr, hd]
      · simp [hr]
    rw [hsame]
  · cases L.artifacts.find? fun r => r.key = (d, a) ∧ now < r.expiresAt with
    | none => exact Isolated.throw _
    | some row => exact Isolated.refuse.bind fun _ => Isolated.pure _

theorem inputBytes_isolated (ids : List Uuid) : Isolated d (store.inputBytes d ids) := by
  induction ids with
  | nil => exact Isolated.pure 0
  | cons a ids ih =>
    exact (artifact_isolated a).bind fun _ => Isolated.refuse.bind fun _ =>
      Isolated.refuse.bind fun _ => ih.bind fun _ => Isolated.pure _

theorem pending_part (L : Ledger) : pending (L.part d) d = pending L d := by
  rw [pending, pending, Ledger.part, List.countP_filter]
  refine List.countP_congr fun r _ => ?_
  by_cases hr : r.deviceId = d <;> simp [hr]

theorem accept_isolated (request : OperationRequest) : Isolated d (store.accept d request) := by
  refine device_isolated.bind fun _ => Isolated.read (fun L => by rw [operation?_part]) fun L => ?_
  cases L.operation? (d, request.operationId) with
  | some previous =>
    exact Isolated.refuse.bind fun _ => (snapshot_isolated _).bind fun _ => Isolated.pure _
  | none =>
    refine Isolated.read (fun L => by rw [pending_part]) fun L => Isolated.refuse.bind fun _ =>
      Isolated.refuse.bind fun _ => (inputBytes_isolated _).bind fun _ =>
        Isolated.refuse.bind fun _ => Isolated.utcnow.bind fun now => Isolated.bind ?_ fun _ =>
          event_isolated.bind fun _ => Isolated.pure _
    refine Isolated.write (confined_insertOperation ?_ request _)
    rfl

theorem cancelIntent_isolated : Isolated d (store.cancelIntent (d, op)) := by
  refine device_isolated.bind fun _ => row_isolated.bind fun r =>
    Isolated.ite ?_ (Isolated.ite ?_ ?_)
  · exact (finishOperation_isolated _ _ _ _).bind fun _ => Isolated.pure _
  · exact (snapshot_isolated r).bind fun _ => Isolated.pure _
  · refine Isolated.utcnow.bind fun now => Isolated.bind (Isolated.write ?_) fun _ =>
      event_isolated.bind fun _ => Isolated.pure _
    exact confined_updateOperation (f := fun r => cancelingRow r now) fun _ => rfl

theorem events_isolated (after limit : ℕ) : Isolated d (BrokerStore.events d after limit) := by
  refine device_isolated.bind fun _ => purgeEvents_isolated.bind fun _ =>
    Isolated.read (fun L => ?_) fun L => ?_
  · have hsame : (L.part d).events.filter (fun e => e.deviceId = d ∧ after < e.sequence) =
        L.events.filter fun e => e.deviceId = d ∧ after < e.sequence := by
      rw [Ledger.part, List.filter_filter]
      refine List.filter_congr fun e _ => ?_
      by_cases he : e.deviceId = d <;> simp [he]
    rw [device?_part, hsame]
  · cases L.device? d with
    | none => exact Isolated.throw _
    | some row => exact Isolated.refuse.bind fun _ => Isolated.refuse.bind fun _ => Isolated.pure _

theorem receipt_isolated (resultId : Uuid) (status : ReceiptStatus) :
    Isolated d (BrokerStore.receipt (d, op) resultId status) :=
  device_isolated.bind fun _ => row_isolated.bind fun _ => Isolated.refuse.bind fun _ =>
    Isolated.utcnow.bind fun now => Isolated.write (confined_receipt resultId status now)

theorem storedBytes_part (L : Ledger) : storedBytes (L.part d) d = storedBytes L d := by
  rw [storedBytes, storedBytes, Ledger.part, List.filter_filter]
  simp

theorem taken_part (L : Ledger) (id : Uuid) :
    (∃ a ∈ (L.part d).artifacts, a.key = (d, id)) ↔ ∃ a ∈ L.artifacts, a.key = (d, id) := by
  refine ⟨fun ⟨a, ha, hkey⟩ => ⟨a, List.mem_of_mem_filter ha, hkey⟩, fun ⟨a, ha, hkey⟩ => ?_⟩
  exact ⟨a, List.mem_filter.mpr ⟨ha, decide_eq_true (congrArg Prod.fst hkey)⟩, hkey⟩

theorem putArtifact_isolated (content : ByteArray) (digest contentType : String) :
    Isolated d (store.putArtifact d content digest contentType) := by
  unfold putArtifact
  split_ifs
  · refine Isolated.refuse.bind fun _ => Isolated.refuse.bind fun _ => device_isolated.bind fun _ =>
      Isolated.utcnow.bind fun now => (Isolated.write (confined_dropArtifacts now)).bind fun _ =>
        Isolated.read (fun L => by rw [storedBytes_part]) fun L => Isolated.refuse.bind fun _ =>
          Isolated.uuid4.bind fun id => Isolated.utcnow.bind fun stored =>
            Isolated.read (fun L => by rw [Tx.refuse_congr (taken_part L id)]) fun L =>
              Isolated.refuse.bind fun _ => Isolated.bind ?_ fun _ => Isolated.pure _
    exact Isolated.write (confined_putArtifact rfl)
  · exact Isolated.throw _

/-- **Every handler is confined to the part of the device it serves.** -/
theorem respond_isolated (request : Request) : Isolated d (store.respond d request) := by
  cases request with
  | accept request => exact (accept_isolated request).bind fun _ => Isolated.pure _
  | get operation =>
    exact ((row_isolated.bind snapshot_isolated).bind fun _ => Isolated.pure _).bind fun _ =>
      Isolated.pure _
  | cancel operation =>
    exact (cancelIntent_isolated.bind fun _ => Isolated.pure _).bind fun _ => Isolated.pure _
  | events after =>
    exact ((events_isolated after 100).bind fun _ => Isolated.pure _).bind fun _ => Isolated.pure _
  | receipt operation resultId status =>
    exact ((receipt_isolated resultId status).bind fun _ => Isolated.pure _).bind fun _ =>
      Isolated.pure _
  | upload content digest contentType =>
    exact (putArtifact_isolated content digest contentType).bind fun _ => Isolated.pure _
  | download artifact =>
    exact ((artifact_isolated artifact).bind fun _ => Isolated.pure _).bind fun _ => Isolated.pure _

end

/-! ### Requests -/

namespace Credentials

variable {cred : Credentials} {store : BrokerStore} {d : Device}

/-- The last candidate with the token is the only one. -/
theorem deviceOf_eq_some {token : List UInt8} :
    cred.deviceOf token = some d ↔ ∃ secret, (d, secret) ∈ cred.deviceTokens ∧
    utf8 secret = token := by
  have hfold : ∀ (cs : List (Device × String)) (found : Option Device),
      (cs.map Prod.snd).Nodup →
      (cs.foldl (fun found c => if token = utf8 c.2 then some c.1 else found) found = some d ↔
        (∃ secret, (d, secret) ∈ cs ∧ utf8 secret = token) ∨
          found = some d ∧ ∀ c ∈ cs, utf8 c.2 ≠ token) := by
    intro cs
    induction cs with
    | nil => simp
    | cons c cs ih =>
      intro found hnodup
      obtain ⟨hnew, hrest⟩ := List.nodup_cons.mp hnodup
      rw [List.foldl_cons, ih _ hrest]
      by_cases hc : token = utf8 c.2
      · -- no later candidate has this token
        have hnone : ∀ c' ∈ cs, utf8 c'.2 ≠ token := by
          intro c' hc' heq
          have hsame : c'.2 = c.2 := utf8_injective (heq.trans hc)
          exact hnew (List.mem_map.mpr ⟨c', hc', hsame⟩)
        rw [if_pos hc]
        constructor
        · rintro (⟨secret, hmem, heq⟩ | ⟨hfound, -⟩)
          · exact absurd heq (hnone _ hmem)
          · obtain rfl := Option.some.inj hfound
            exact .inl ⟨c.2, List.mem_cons_self, hc.symm⟩
        · rintro (⟨secret, hmem, heq⟩ | ⟨-, hall⟩)
          · rcases List.mem_cons.mp hmem with rfl | hmem
            · exact .inr ⟨rfl, hnone⟩
            · exact absurd heq (hnone _ hmem)
          · exact absurd hc.symm (hall c List.mem_cons_self)
      · rw [if_neg hc]
        constructor
        · rintro (⟨secret, hmem, heq⟩ | ⟨hfound, hall⟩)
          · exact .inl ⟨secret, List.mem_cons_of_mem c hmem, heq⟩
          · refine .inr ⟨hfound, fun c' hc' => ?_⟩
            rcases List.mem_cons.mp hc' with rfl | hc'
            · exact fun heq => hc heq.symm
            · exact hall c' hc'
        · rintro (⟨secret, hmem, heq⟩ | ⟨hfound, hall⟩)
          · rcases List.mem_cons.mp hmem with rfl | hmem
            · exact absurd heq.symm hc
            · exact .inl ⟨secret, hmem, heq⟩
          · exact .inr ⟨hfound, fun c' hc' => hall c' (List.mem_cons_of_mem c hc')⟩
  rw [deviceOf, hfold _ _ cred.tokens_nodup]
  simp

theorem device?_eq_some {http : HttpRequest} :
    cred.device? http = some d ↔
      ∃ secret, (d, secret) ∈ cred.deviceTokens ∧ http.Bears (utf8 secret) := by
  have hlength : (utf8 "Bearer ").length = 7 := by decide +kernel
  rw [device?]
  split
  · rename_i value hvalue
    constructor
    · intro h
      split_ifs at h with hbearer
      obtain ⟨secret, hmem, hsecret⟩ := deviceOf_eq_some.mp h
      obtain ⟨token, rfl⟩ := hbearer
      refine ⟨secret, hmem, ?_⟩
      rw [HttpRequest.Bears, hvalue, hsecret, ← hlength, List.drop_left]
    · rintro ⟨secret, hmem, hbears⟩
      rw [HttpRequest.Bears, hvalue] at hbears
      obtain rfl := List.head_eq_of_cons_eq hbears
      rw [if_pos (List.prefix_append _ _), ← hlength, List.drop_left]
      exact deviceOf_eq_some.mpr ⟨secret, hmem, rfl⟩
  · rename_i hnot
    constructor
    · intro h
      cases h
    · rintro ⟨secret, -, hbears⟩
      exact absurd hbears (hnot _)

theorem admit_eq_device {http : HttpRequest} :
    cred.admission http = .device d ↔ http.route ≠ .healthz ∧ cred.Secure http ∧
      ∃ secret, (d, secret) ∈ cred.deviceTokens ∧ http.Bears (utf8 secret) := by
  have hmatch : ∀ o : Option Device, (match o with
      | some d => Admission.device d
      | none => .denied (.refused "unauthorized" "valid device bearer token required" 401 none)) =
        .device d ↔ o = some d := by
    intro o
    cases o <;> simp
  rw [← device?_eq_some, admission]
  cases hroute : http.route with
  | healthz => simp
  | peerPolicy | api =>
    by_cases hsecure : cred.Secure http
    · simp only [hsecure, if_true, ne_eq, reduceCtorEq, not_false_eq_true, true_and]
      exact hmatch _
    · simp [hsecure]

/-- A device's request leaves the parts of the others as they were, and any other request leaves
the ledger as it was. -/
theorem handle_outside {http : HttpRequest} {s : Session} {d' : Device}
    (h : cred.admission http ≠ .device d') :
    ((cred.handle store http s).2).part d' = s.ledger.part d' := by
  rw [handle]
  cases hadmission : cred.admission http with
  | exempt => rfl
  | denied => rfl
  | device d =>
    have hne : d' ≠ d := fun heq => h (heq ▸ hadmission)
    cases hroute : http.route with
    | healthz | peerPolicy => rfl
    | api request =>
      simp only
      cases hrespond : store.respond d request s with
      | error e => rfl
      | ok x => exact (respond_isolated request).outside s x.1 x.2 hrespond d' hne

/-- Two ledgers that agree on a device give it one response, and agree on it afterwards. -/
theorem handle_inside {http : HttpRequest} {clock : ℕ → Time} {uuids : ℕ → Uuid} {L L' : Ledger}
    (hadmission : cred.admission http = .device d) (h : L.part d = L'.part d) :
    (cred.handle store http ⟨L, clock, uuids⟩).1 = (cred.handle store http ⟨L', clock, uuids⟩).1 ∧
      ((cred.handle store http ⟨L, clock, uuids⟩).2).part d =
        ((cred.handle store http ⟨L', clock, uuids⟩).2).part d := by
  simp only [handle, hadmission]
  cases hroute : http.route with
  | healthz | peerPolicy => exact ⟨rfl, h⟩
  | api request =>
    have hsame := (@respond_isolated store d request).inside.congr
      (s := ⟨L, clock, uuids⟩) (t := ⟨L', clock, uuids⟩) (by simp only [Session.restrict, h])
    simp only
    cases hr : store.respond d request ⟨L, clock, uuids⟩ with
    | error e =>
      cases hr' : store.respond d request ⟨L', clock, uuids⟩ with
      | error e' =>
        rw [hr, hr'] at hsame
        obtain rfl := Except.error.inj hsame
        exact ⟨rfl, h⟩
      | ok x' =>
        rw [hr, hr'] at hsame
        cases hsame
    | ok x =>
      cases hr' : store.respond d request ⟨L', clock, uuids⟩ with
      | error e' =>
        rw [hr, hr'] at hsame
        cases hsame
      | ok x' =>
        rw [hr, hr'] at hsame
        obtain ⟨hreply, hstate⟩ := Prod.mk.inj (Except.ok.inj hsame)
        exact ⟨by simp only [Except.map, hreply], congrArg Session.ledger hstate⟩

theorem isFrom_iff {a : Arrival} : cred.isFrom d a = true ↔ cred.admission a.http = .device d := by
  rw [isFrom]
  split
  · rename_i d' hadmission
    rw [hadmission]
    simp
  · rename_i hnot
    constructor
    · intro h
      cases h
    · intro h
      exact absurd h (hnot d)

/-- What a device gets is what it would get if it were alone. -/
theorem responsesTo_alone (arrivals : List Arrival) : ∀ {L L' : Ledger}, L.part d = L'.part d →
    cred.responsesTo store d L arrivals =
        cred.responsesTo store d L' (arrivals.filter (cred.isFrom d)) ∧
      (cred.handleAll store L arrivals).part d =
        (cred.handleAll store L' (arrivals.filter (cred.isFrom d))).part d := by
  induction arrivals with
  | nil => exact fun h => ⟨rfl, h⟩
  | cons a rest ih =>
    intro L L' h
    by_cases hfrom : cred.isFrom d a = true
    · obtain ⟨hresponse, hpart⟩ := @handle_inside _ store _ _ a.clock a.uuids _ _
        (isFrom_iff.mp hfrom) h
      obtain ⟨hrest, hfinal⟩ := ih hpart
      rw [List.filter_cons_of_pos hfrom]
      simp only [responsesTo, handleAll, if_pos hfrom]
      exact ⟨congrArg₂ List.cons hresponse hrest, hfinal⟩
    · have hout := @handle_outside _ store _ (a.session L) _ (mt isFrom_iff.mpr hfrom)
      rw [List.filter_cons_of_neg hfrom]
      simp only [responsesTo, handleAll, if_neg hfrom]
      exact ih (hout.trans h)

end Credentials

/-- **Devices do not see each other.** A request with a token is that of the one device the token
is configured for, and a request that is not that of a device leaves the ledger as it was. The
request of a device leaves the part of every other device as it was. And whatever the other
devices ask for in between, the responses a device gets, and its part of the ledger afterwards, are
those it would get if it were alone, on any ledger that agrees with the first one on its part. -/
theorem device_noninterference (cred : Credentials) (store : BrokerStore) :
    (∀ http d, cred.admission http = .device d ↔ http.route ≠ .healthz ∧ cred.Secure http ∧
      ∃ secret, (d, secret) ∈ cred.deviceTokens ∧ http.Bears (utf8 secret)) ∧
    (∀ (http : HttpRequest) d d' secret secret', (d, secret) ∈ cred.deviceTokens →
      (d', secret') ∈ cred.deviceTokens → http.Bears (utf8 secret) → http.Bears (utf8 secret') →
      d = d') ∧
    (∀ http s, (∀ d, cred.admission http ≠ .device d) → (cred.handle store http s).2 = s.ledger) ∧
    (∀ http s d, cred.admission http = .device d → ∀ d', d' ≠ d →
      ((cred.handle store http s).2).part d' = s.ledger.part d') ∧
    ∀ d L L' arrivals, L.part d = L'.part d →
      cred.responsesTo store d L arrivals =
          cred.responsesTo store d L' (arrivals.filter (cred.isFrom d)) ∧
        (cred.handleAll store L arrivals).part d =
          (cred.handleAll store L' (arrivals.filter (cred.isFrom d))).part d := by
  refine ⟨fun http d => Credentials.admit_eq_device, ?_, ?_, ?_, ?_⟩
  · intro http d d' secret secret' hmem hmem' hbears hbears'
    have hsome := Credentials.device?_eq_some.mpr ⟨secret, hmem, hbears⟩
    have hsome' := Credentials.device?_eq_some.mpr ⟨secret', hmem', hbears'⟩
    exact Option.some.inj (hsome.symm.trans hsome')
  · intro http s hnone
    rw [Credentials.handle]
    cases hadmission : cred.admission http with
    | exempt => rfl
    | denied => rfl
    | device d => exact absurd hadmission (hnone d)
  · intro http s d hadmission d' hne
    refine Credentials.handle_outside fun hadmission' => hne ?_
    rw [hadmission] at hadmission'
    exact (Admission.device.inj hadmission').symm
  · exact fun d L L' arrivals h => Credentials.responsesTo_alone arrivals h

/-- Two devices. -/
def sampleCredentials : Credentials where
  deviceTokens := [("laptop", "laptop-token-0123456789-0123456789"),
    ("desktop", "desktop-token-0123456789-0123456789")]
  allowLoopbackHttp := false
  devices_nodup := by decide
  tokens_nodup := by decide

/-- A request over HTTPS with a bearer token. -/
def sampleArrival (secret : String) (request : Request) : Arrival where
  http := ⟨"https", [(utf8 "Authorization", utf8 "Bearer " ++ utf8 secret)], .api request⟩
  clock := fun _ => 5
  uuids := fun _ => 0

theorem device_noninterference_two :
    let arrivals :=
      [sampleArrival "laptop-token-0123456789-0123456789" (.accept (sampleRequest 1 2)),
      sampleArrival "desktop-token-0123456789-0123456789" (.accept (sampleRequest 1 3)),
      sampleArrival "laptop-token-0123456789-0123456789" (.get 1)]
    let L' : Ledger := { Ledger.empty with devices := [⟨"desktop", 3, 1⟩] }
    (sampleCredentials.responsesTo BrokerStore.default "laptop" Ledger.empty arrivals).length = 2 ∧
      sampleCredentials.responsesTo BrokerStore.default "laptop" Ledger.empty arrivals =
        sampleCredentials.responsesTo BrokerStore.default "laptop" L'
          (arrivals.filter (sampleCredentials.isFrom "laptop")) := by
  refine ⟨by decide +kernel, ?_⟩
  exact ((device_noninterference sampleCredentials BrokerStore.default).2.2.2.2 "laptop" _ _ _
    rfl).1

end HermesGateway.Broker
