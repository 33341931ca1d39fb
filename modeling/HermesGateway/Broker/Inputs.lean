import HermesGateway.Broker.Acceptance
import HermesGateway.Broker.Failures
import HermesGateway.Broker.Intake

/-!
# What an operation is made of

A request names its input artifacts. `accept` looks them up and reads them, and so does `claim`, at
a later time. An artifact is never changed under its identifier, so both find the same, or `claim`
finds that one of them is gone.

Whether a request is admitted depends on the artifacts too. As long as an identifier stands for one
artifact only, what made a request inadmissible once always will, and this is said of all artifacts
that ever were (`Inadmissible`), not of those stored at the time.

## Main definitions

* `Resolves` — the artifacts a list of identifiers stands for
* `Claim.Attaches` — what `claim` attaches to a request
* `Admits`, `Inadmissible` — what `accept` asks of a request and its artifacts
* `Stopped` — the operation has a definitive state, or its cancellation is requested

## Main results

* `accept_admits`, `accept_refused` — what `accept` makes of a new request
* `claim_sourced` — what `claim` returns is read from the artifacts of the request
* `payload_of_trace`, `stopped_of_trace` — payloads are inserted with operations, a stop is final
-/

namespace HermesGateway.Broker

open BrokerStore

/-! ### Artifacts -/

/-- The artifacts a list of identifiers of a device stands for, in order. -/
structure Resolves (rows : List ArtifactRow) (d : Device) (ids : List Uuid)
    (found : List ArtifactRow) : Prop where
  keys : found.map ArtifactRow.key = ids.map fun a => (d, a)
  mem : ∀ a ∈ found, a ∈ rows

/-- An identifier stands for one artifact. -/
def Unambiguous (rows : List ArtifactRow) : Prop :=
  ∀ a ∈ rows, ∀ b ∈ rows, b.key = a.key → b = a

/-- The artifact is UTF-8 text. -/
structure ArtifactRow.Plain (a : ArtifactRow) : Prop where
  mediaType : mediaType a.contentType = "text/plain"
  utf8 : a.content.validateUTF8 = true

/-- The bytes of artifacts. -/
def totalBytes (found : List ArtifactRow) : ℕ := (found.map fun a => a.content.size).sum

/-- What `accept` asks of a request, with the artifacts it can name. -/
structure Admits (store : BrokerStore) (d : Device) (rows : List ArtifactRow)
    (request : OperationRequest) : Prop where
  nodup : request.artifactIds.Nodup
  inputs : ∃ found, Resolves rows d request.artifactIds found ∧ (∀ a ∈ found, a.Plain) ∧
    utf8Length request.prompt.toList + totalBytes found ≤ store.settings.maxArtifactBytes

/-- What is attached to a claim: the artifacts its request names, as they were uploaded. -/
structure BrokerStore.Claim.Attaches (c : Claim) (store : BrokerStore)
    (rows found : List ArtifactRow) : Prop where
  resolves : Resolves rows c.deviceId c.request.artifactIds found
  attachments : c.attachments = found.map fun a => (a.descriptor, a.content)
  intact : ∀ a ∈ found, store.sha256 a.content = a.sha256

/-- What a claim was made of: a payload of its device, and the artifacts. -/
def BrokerStore.Claim.Sourced (c : Claim) (store : BrokerStore) (L : Ledger) : Prop :=
  ∃ p ∈ L.payloads, p.deviceId = c.deviceId ∧ p.request = c.request ∧
    ∃ found, c.Attaches store L.artifacts found

/-- No artifacts that may come would make the request admissible. -/
def Inadmissible (store : BrokerStore) (d : Device) (rows : List ArtifactRow)
    (request : OperationRequest) : Prop :=
  ∀ rows', (∀ a ∈ rows, a ∈ rows') → Unambiguous rows' → ¬ Admits store d rows' request

section

variable {store : BrokerStore} {d : Device} {rows rows' found found' : List ArtifactRow}
  {ids : List Uuid} {request : OperationRequest} {s s' : Session}

theorem Resolves.mono (h : Resolves rows d ids found) (hle : ∀ a ∈ rows, a ∈ rows') :
    Resolves rows' d ids found :=
  ⟨h.keys, fun a ha => hle a (h.mem a ha)⟩

theorem BrokerStore.Claim.Attaches.mono {c : Claim} (h : c.Attaches store rows found)
    (hle : ∀ a ∈ rows, a ∈ rows') : c.Attaches store rows' found :=
  ⟨h.resolves.mono hle, h.attachments, h.intact⟩

theorem Admits.mono (h : Admits store d rows request) (hle : ∀ a ∈ rows, a ∈ rows') :
    Admits store d rows' request := by
  obtain ⟨found, hfound, hrest⟩ := h.inputs
  exact ⟨h.nodup, found, hfound.mono hle, hrest⟩

theorem Inadmissible.mono (h : Inadmissible store d rows request) (hle : ∀ a ∈ rows, a ∈ rows') :
    Inadmissible store d rows' request :=
  fun rows'' hle' => h rows'' fun a ha => hle' a (hle a ha)

/-- Two lists of artifacts with the same keys are the same. -/
theorem Resolves.unique (hrows : Unambiguous rows) :
    ∀ {ids : List Uuid} {found found' : List ArtifactRow}, Resolves rows d ids found →
      Resolves rows d ids found' → found = found'
  | [], found, found', h, h' => by
    rw [List.map_eq_nil_iff.mp h.keys, List.map_eq_nil_iff.mp h'.keys]
  | i :: ids, found, found', h, h' => by
    obtain ⟨a, rest, rfl, hkey, hkeys⟩ := List.map_eq_cons_iff.mp h.keys
    obtain ⟨b, rest', rfl, hkey', hkeys'⟩ := List.map_eq_cons_iff.mp h'.keys
    have hhead : b = a := hrows a (h.mem a List.mem_cons_self) b (h'.mem b List.mem_cons_self)
      (hkey'.trans hkey.symm)
    have hrest : Resolves rows d ids rest :=
      ⟨hkeys, fun c hc => h.mem c (List.mem_cons_of_mem _ hc)⟩
    have hrest' : Resolves rows d ids rest' :=
      ⟨hkeys', fun c hc => h'.mem c (List.mem_cons_of_mem _ hc)⟩
    rw [hhead, hrest.unique hrows hrest']

/-- What is attached to an admitted request is text. -/
theorem BrokerStore.Claim.Attaches.plain {c : Claim} (h : c.Attaches store rows found)
    (hrows : Unambiguous rows) (hadmits : Admits store c.deviceId rows c.request) :
    ∀ a ∈ found, a.Plain := by
  obtain ⟨found', hfound', hplain, -⟩ := hadmits.inputs
  rw [h.resolves.unique hrows hfound']
  exact hplain

/-! ### Reading them -/

/-- What `artifact` returns is a stored artifact, and its bytes have its digest. -/
theorem artifact_eq_ok {i : Uuid} {x : Descriptor × ByteArray}
    (h : store.artifact d i s = .ok (x, s')) :
    ∃ a ∈ s.ledger.artifacts, a.key = (d, i) ∧ x = (a.descriptor, a.content) ∧
      store.sha256 a.content = a.sha256 ∧ s'.ledger = s.ledger := by
  have hadvances := artifact_advances h
  simp only [artifact, Tx.bind_eq_ok, utcnow_eq_ok, readLedger_eq_ok] at h
  obtain ⟨now, _, ⟨-, rfl⟩, _, _, ⟨rfl, rfl⟩, h⟩ := h
  cases hfind : s.ledger.artifacts.find? fun r => r.key = (d, i) ∧ now < r.expiresAt with
  | none => simp only [Session.ledger_tick, hfind, Tx.throw_eq_ok] at h
  | some a =>
    simp only [Session.ledger_tick, hfind, Tx.bind_eq_ok, Tx.refuse_eq_ok, Tx.pure_eq_ok] at h
    obtain ⟨_, _, ⟨hintact, -⟩, hret⟩ := h
    have hkey : a.key = (d, i) ∧ now < a.expiresAt := by simpa using List.find?_some hfind
    obtain ⟨rfl, -⟩ := Prod.mk.inj hret
    rw [not_or, not_not, not_not] at hintact
    exact ⟨a, List.mem_of_find?_eq_some hfind, hkey.1, rfl, hintact.2, hadvances.1⟩

/-- `artifact` fails for want of an artifact, or finds it corrupt. -/
theorem artifact_eq_error {i : Uuid} {e : Failure} (h : store.artifact d i s = .error e) :
    ∃ b, e = .broker b ∧ (b.status = 404 ∨ b.status = 503) := by
  refine Tx.Fails.bind (E := fun e => ∃ b, e = .broker b ∧ (b.status = 404 ∨ b.status = 503))
    (Tx.Fails.modifyGet _) (fun now => Tx.Fails.bind (Tx.Fails.modifyGet _) fun L => ?_) s e h
  cases L.artifacts.find? fun r => r.key = (d, i) ∧ now < r.expiresAt with
  | none => exact Tx.Fails.throw ⟨_, rfl, .inl rfl⟩
  | some row => exact Tx.Fails.bind (Tx.Fails.refuse ⟨_, rfl, .inr rfl⟩) fun _ => Tx.Fails.pure _

/-- `accept` reads the artifacts of the request, and they are text. -/
theorem inputBytes_eq_ok : ∀ {ids : List Uuid} {n : ℕ} {s s' : Session},
    store.inputBytes d ids s = .ok (n, s') →
      ∃ found, Resolves s.ledger.artifacts d ids found ∧ (∀ a ∈ found, a.Plain) ∧
        n = totalBytes found
  | [], n, s, s', h => by
    obtain ⟨rfl, -⟩ := Prod.mk.inj (Tx.pure_eq_ok.mp h)
    exact ⟨[], ⟨rfl, fun _ ha => absurd ha List.not_mem_nil⟩,
      fun _ ha => absurd ha List.not_mem_nil, rfl⟩
  | i :: ids, n, s, s', h => by
    simp only [inputBytes, Tx.bind_eq_ok, Tx.refuse_eq_ok, Tx.pure_eq_ok] at h
    obtain ⟨x, t, hart, _, _, ⟨htype, heq⟩, _, _, ⟨hutf8, heq'⟩, m, u, hrest, hret⟩ := h
    obtain ⟨-, rfl⟩ := Prod.mk.inj heq
    obtain ⟨-, rfl⟩ := Prod.mk.inj heq'
    obtain ⟨rfl, -⟩ := Prod.mk.inj hret
    obtain ⟨a, ha, hkey, rfl, -, hledger⟩ := artifact_eq_ok hart
    obtain ⟨found, hfound, hplain, rfl⟩ := inputBytes_eq_ok hrest
    rw [hledger] at hfound
    refine ⟨a :: found, ⟨?_, ?_⟩, ?_, rfl⟩
    · rw [List.map_cons, List.map_cons, hkey, hfound.keys]
    · exact List.forall_mem_cons.mpr ⟨ha, hfound.mem⟩
    · refine List.forall_mem_cons.mpr ⟨⟨not_not.mp htype, ?_⟩, hplain⟩
      exact Bool.eq_true_of_not_eq_false hutf8

/-- It fails on the first artifact that it cannot have, or that is no text. -/
theorem inputBytes_eq_error : ∀ {ids : List Uuid} {e : Failure} {s : Session},
    store.inputBytes d ids s = .error e →
      ∃ b, e = .broker b ∧ (b.status = 404 ∨ b.status = 503 ∨
        ∃ a ∈ s.ledger.artifacts, ∃ i ∈ ids, a.key = (d, i) ∧ ¬ a.Plain)
  | [], e, s, h => (Tx.pure_eq_error.mp h).elim
  | i :: ids, e, s, h => by
    rw [inputBytes, Tx.bind_eq_error] at h
    rcases h with hart | ⟨x, t, hart, h⟩
    · obtain ⟨b, rfl, hstatus⟩ := artifact_eq_error hart
      exact ⟨b, rfl, hstatus.imp_right .inl⟩
    obtain ⟨a, ha, hkey, rfl, -, hledger⟩ := artifact_eq_ok hart
    simp only [Tx.bind_eq_error, Tx.refuse_eq_error, Tx.refuse_eq_ok, Tx.pure_eq_error] at h
    rcases h with ⟨htype, rfl⟩ | ⟨_, _, ⟨-, heq⟩, ⟨hutf8, rfl⟩ |
      ⟨_, _, ⟨-, heq'⟩, hrest | ⟨_, _, -, hfalse⟩⟩⟩
    · exact ⟨_, rfl, .inr (.inr ⟨a, ha, i, List.mem_cons_self, hkey, fun h => htype h.mediaType⟩)⟩
    · refine ⟨_, rfl, .inr (.inr ⟨a, ha, i, List.mem_cons_self, hkey, fun h => ?_⟩)⟩
      exact absurd (h.utf8.symm.trans hutf8) (by decide)
    · obtain ⟨-, rfl⟩ := Prod.mk.inj heq
      obtain ⟨-, rfl⟩ := Prod.mk.inj heq'
      obtain ⟨b, rfl, hstatus | hstatus | ⟨a', ha', j, hj, hkey', hplain⟩⟩ :=
        inputBytes_eq_error hrest
      · exact ⟨b, rfl, .inl hstatus⟩
      · exact ⟨b, rfl, .inr (.inl hstatus)⟩
      · rw [hledger] at ha'
        exact ⟨b, rfl, .inr (.inr ⟨a', ha', j, List.mem_cons_of_mem _ hj, hkey', hplain⟩)⟩
    · exact hfalse.elim

/-! ### Keeping them -/

/-- `accept` deletes nothing. -/
theorem accept_lapses (d : Device) (request : OperationRequest) :
    Tx.Keeps Lapses (store.accept d request) := by
  refine (Frame.device_keeps d).bind fun _ => Frame.readLedger_keeps.bind fun L => ?_
  cases L.operation? (d, request.operationId) with
  | some previous =>
    exact Tx.Keeps.refuse.bind fun _ =>
      (Frame.snapshot_keeps previous).bind fun _ => Tx.Keeps.pure _
  | none =>
    refine Frame.readLedger_keeps.bind fun L => Tx.Keeps.refuse.bind fun _ =>
      Tx.Keeps.refuse.bind fun _ => Tx.Keeps.bind
        (fun s n s' h => Frame.of_advances (inputBytes_advances h)) fun n => ?_
    refine Tx.Keeps.refuse.bind fun _ => Frame.utcnow_keeps.bind fun now => Tx.Keeps.bind ?_
      fun _ => (Frame.event_keeps _).bind fun _ => Tx.Keeps.pure _
    exact Tx.Keeps.modifyGet fun s => .of_artifacts ⟨0, rfl⟩ rfl

/-- Every handler but that of an upload. -/
theorem serve_lapses {request : Request} {reply : Reply}
    (hupload : ∀ content digest contentType, request ≠ .upload content digest contentType)
    (h : store.serve d request s = .ok (reply, s')) : Lapses s s' := by
  cases request with
  | accept request =>
    obtain ⟨_, hm, -⟩ := Tx.map_eq_ok.mp h
    exact accept_lapses d request _ _ _ hm
  | get op =>
    obtain ⟨_, hm, -⟩ := Tx.map_eq_ok.mp h
    exact (Frame.row_keeps _).bind Frame.snapshot_keeps _ _ _ hm
  | cancel op =>
    obtain ⟨_, hm, -⟩ := Tx.map_eq_ok.mp h
    exact Frame.cancelIntent_keeps _ _ _ _ hm
  | events after =>
    obtain ⟨_, hm, -⟩ := Tx.map_eq_ok.mp h
    exact Frame.events_keeps _ _ _ _ _ _ hm
  | receipt op resultId status =>
    obtain ⟨_, hm, -⟩ := Tx.map_eq_ok.mp h
    exact Frame.receipt_keeps _ _ _ _ _ _ hm
  | upload content digest contentType => exact absurd rfl (hupload content digest contentType)
  | download a =>
    obtain ⟨_, hm, -⟩ := Tx.map_eq_ok.mp h
    exact Frame.of_advances (artifact_advances hm)

/-! ### Acceptance -/

/-- A failure that is no answer to the client, or is one with the status 404. -/
def Failure.Quiet (e : Failure) : Prop := ∀ b, e = .broker b → b.status = 404

theorem snapshot_quiet (r : OperationRow) : Tx.Fails Failure.Quiet (snapshot r) :=
  Tx.Fails.bind (Tx.Fails.refuse (by rintro b ⟨⟩)) fun _ =>
    Tx.Fails.bind (Tx.Fails.modifyGet _) fun _ => Tx.Fails.bind (Tx.Fails.modifyGet _) fun _ =>
      Tx.Fails.pure _

theorem event_quiet (k : Key) : Tx.Fails Failure.Quiet (store.event k) := by
  have hrow : Tx.Fails Failure.Quiet (row k) := by
    refine Tx.Fails.bind (Tx.Fails.modifyGet _) fun L => ?_
    cases L.operation? k with
    | some r => exact Tx.Fails.pure r
    | none =>
      refine Tx.Fails.throw fun b hb => ?_
      obtain rfl := Failure.broker.inj hb
      rfl
  refine Tx.Fails.bind hrow fun r => Tx.Fails.bind (snapshot_quiet r) fun snap =>
    Tx.Fails.bind (Tx.Fails.modifyGet _) fun L => ?_
  cases L.device? k.1 with
  | none => exact Tx.Fails.throw (by rintro b ⟨⟩)
  | some dev =>
    exact Tx.Fails.bind (Tx.Fails.refuse (by rintro b ⟨⟩)) fun _ =>
      Tx.Fails.bind (Tx.Fails.modifyGet _) fun _ => Tx.Fails.bind (Tx.Fails.modifyGet _) fun _ =>
        Tx.Fails.pure _

/-- A request that is newly accepted is admissible. -/
theorem accept_admits {snap : Snapshot} (h : store.accept d request s = .ok ((snap, true), s')) :
    Admits store d s.ledger.artifacts request := by
  obtain ⟨devices, hdevices⟩ := s.ledger.withDevice_eq d
  simp only [accept, Tx.bind_eq_ok, readLedger_eq_ok, device_ok] at h
  obtain ⟨_, t, hdev, _, _, ⟨rfl, rfl⟩, h⟩ := h
  obtain ⟨-, rfl⟩ := Prod.mk.inj (Except.ok.inj hdev)
  dsimp only at h
  cases hprev : (s.ledger.withDevice d).operation? (d, request.operationId) with
  | some previous =>
    simp only [hprev, Tx.bind_eq_ok, Tx.pure_eq_ok] at h
    obtain ⟨_, _, -, _, _, -, hret⟩ := h
    cases (Prod.mk.inj (Prod.mk.inj hret).1).2
  | none =>
    simp only [hprev, Tx.bind_eq_ok, Tx.refuse_eq_ok, readLedger_eq_ok] at h
    obtain ⟨_, _, ⟨rfl, rfl⟩, _, _, ⟨-, heq⟩, _, _, ⟨hnodup, heq'⟩, bytes, u, hbytes, _, _,
      ⟨hfits, -⟩, -⟩ := h
    obtain ⟨-, rfl⟩ := Prod.mk.inj heq
    obtain ⟨-, rfl⟩ := Prod.mk.inj heq'
    obtain ⟨found, hfound, hplain, rfl⟩ := inputBytes_eq_ok hbytes
    rw [show (s.ledger.withDevice d).artifacts = s.ledger.artifacts by rw [hdevices]] at hfound
    exact ⟨not_not.mp hnodup, found, hfound, hplain, not_lt.mp hfits⟩

/-- A request is refused because its identifier is taken by another one, because it is inadmissible,
or for a reason that may pass: the limit, or an artifact that is not there or corrupt. -/
theorem accept_refused {b : BrokerError} (h : store.accept d request s = .error (.broker b)) :
    (∃ previous, s.ledger.operation? (d, request.operationId) = some previous ∧
        previous.digest ≠ store.digest request) ∨
      Inadmissible store d s.ledger.artifacts request ∨
      b.status = 404 ∨ b.status = 429 ∨ b.status = 503 := by
  obtain ⟨devices, hdevices⟩ := s.ledger.withDevice_eq d
  have hartifacts : (s.ledger.withDevice d).artifacts = s.ledger.artifacts := by rw [hdevices]
  rw [accept, Tx.bind_of_ok (device_ok d s), Tx.bind_of_ok (readLedger_eq_ok.mpr ⟨rfl, rfl⟩)] at h
  dsimp only at h
  cases hprev : (s.ledger.withDevice d).operation? (d, request.operationId) with
  | some previous =>
    simp only [hprev, Tx.bind_eq_error, Tx.refuse_eq_error] at h
    rcases h with ⟨hdigest, -⟩ | ⟨_, _, -, hsnap | ⟨_, _, -, hfalse⟩⟩
    · rw [Ledger.operation?_withDevice] at hprev
      exact .inl ⟨previous, hprev, hdigest⟩
    · exact .inr (.inr (.inl (snapshot_quiet previous _ _ hsnap b rfl)))
    · exact (Tx.pure_eq_error.mp hfalse).elim
  | none =>
    right
    simp only [hprev] at h
    obtain ⟨_, _, hread, h⟩ := Tx.error_of_bind (fun _ => readLedger_ne_error) h
    obtain ⟨rfl, rfl⟩ := readLedger_eq_ok.mp hread
    simp only [Tx.bind_eq_error, Tx.refuse_eq_error, Tx.refuse_eq_ok] at h
    rcases h with ⟨-, hb⟩ | ⟨_, _, ⟨-, heq⟩, ⟨hdup, -⟩ | ⟨_, _, ⟨-, heq'⟩, hbytes |
      ⟨n, u, hbytes, ⟨hlarge, -⟩ | ⟨_, _, ⟨-, heq''⟩, h⟩⟩⟩⟩
    · exact .inr (.inr (.inl (congrArg BrokerError.status (Failure.broker.inj hb.symm))))
    · exact .inl fun _ _ _ hadmits => hdup hadmits.nodup
    · obtain ⟨-, rfl⟩ := Prod.mk.inj heq
      obtain ⟨-, rfl⟩ := Prod.mk.inj heq'
      obtain ⟨b', hb', hstatus | hstatus | ⟨a, ha, i, hi, hkey, hplain⟩⟩ :=
        inputBytes_eq_error hbytes
      · exact .inr (.inl (Failure.broker.inj hb' ▸ hstatus))
      · exact .inr (.inr (.inr (Failure.broker.inj hb' ▸ hstatus)))
      · -- the artifact is the one any later reading finds
        refine .inl fun rows hle hrows hadmits => ?_
        obtain ⟨found, hfound, hall, -⟩ := hadmits.inputs
        obtain ⟨c, hc, hkey'⟩ : ∃ c ∈ found, c.key = (d, i) := by
          have hmem : (d, i) ∈ found.map ArtifactRow.key := by
            rw [hfound.keys]
            exact List.mem_map_of_mem hi
          exact List.mem_map.mp hmem
        have hsame := hrows a (hle a (hartifacts ▸ ha)) c (hfound.mem c hc) (hkey'.trans hkey.symm)
        exact hplain (hsame ▸ hall c hc)
    · obtain ⟨-, rfl⟩ := Prod.mk.inj heq
      obtain ⟨-, rfl⟩ := Prod.mk.inj heq'
      obtain ⟨found, hfound, -, rfl⟩ := inputBytes_eq_ok hbytes
      refine .inl fun rows hle hrows hadmits => ?_
      obtain ⟨found', hfound', -, hfits⟩ := hadmits.inputs
      have hsame := (hfound.mono fun a ha => hle a (hartifacts ▸ ha)).unique hrows hfound'
      exact absurd hfits (not_le.mpr (hsame ▸ hlarge))
    · rcases h with h | ⟨now, _, -, h | ⟨_, _, -, h | ⟨_, _, -, h⟩⟩⟩
      · exact absurd h utcnow_ne_error
      · exact absurd h writeLedger_ne_error
      · exact .inr (.inl (event_quiet _ _ _ h b rfl))
      · exact (Tx.pure_eq_error.mp h).elim

/-! ### Dispatch -/

theorem attachment_eq_ok {a : Uuid} {x : Descriptor × ByteArray}
    (h : store.attachment d a s = .ok (some x, s')) : store.artifact d a s = .ok (x, s') := by
  rw [BrokerStore.attachment] at h
  cases hart : store.artifact d a s with
  | ok p =>
    rw [hart] at h
    obtain ⟨hx, rfl⟩ := Prod.mk.inj (Except.ok.inj h)
    rw [← Option.some.inj hx]
  | error e =>
    rw [hart] at h
    cases e <;> cases h

theorem attachments_eq_ok : ∀ {ids : List Uuid} {list : List (Descriptor × ByteArray)}
    {s s' : Session}, store.attachments d ids s = .ok (some list, s') →
      ∃ found, Resolves s.ledger.artifacts d ids found ∧
        list = (found.map fun a => (a.descriptor, a.content)) ∧
        ∀ a ∈ found, store.sha256 a.content = a.sha256
  | [], list, s, s', h => by
    obtain ⟨hlist, -⟩ := Prod.mk.inj (Tx.pure_eq_ok.mp h)
    obtain rfl := Option.some.inj hlist
    exact ⟨[], ⟨rfl, fun _ ha => absurd ha List.not_mem_nil⟩, rfl,
      fun _ ha => absurd ha List.not_mem_nil⟩
  | i :: ids, list, s, s', h => by
    simp only [attachments, Tx.bind_eq_ok] at h
    obtain ⟨x, t, hart, h⟩ := h
    cases x with
    | none => cases (Prod.mk.inj (Tx.pure_eq_ok.mp h)).1
    | some x =>
      obtain ⟨rest, hrest, hlist⟩ := Tx.map_eq_ok.mp h
      obtain ⟨rest, rfl, rfl⟩ := Option.map_eq_some_iff.mp hlist
      obtain ⟨a, ha, hkey, rfl, hintact, hledger⟩ := artifact_eq_ok (attachment_eq_ok hart)
      obtain ⟨found, hfound, rfl, hall⟩ := attachments_eq_ok hrest
      rw [hledger] at hfound
      refine ⟨a :: found, ⟨?_, List.forall_mem_cons.mpr ⟨ha, hfound.mem⟩⟩, rfl,
        List.forall_mem_cons.mpr ⟨hintact, hall⟩⟩
      rw [List.map_cons, List.map_cons, hkey, hfound.keys]

/-- **What `claim` returns** is in a payload, and its attachments are the artifacts the request
names. -/
theorem claim_sourced {c : Claim} (h : store.claim s = .ok (some c, s')) :
    c.Sourced store s.ledger := by
  simp only [claim, Tx.bind_eq_ok, readLedger_eq_ok] at h
  obtain ⟨_, _, ⟨rfl, rfl⟩, h⟩ := h
  cases hcand : candidate s.ledger with
  | none =>
    simp only [hcand, Tx.pure_eq_ok] at h
    cases (Prod.mk.inj h).1
  | some chosen =>
    obtain ⟨devices, hdevices⟩ := s.ledger.withDevice_eq chosen.key.1
    simp only [hcand, Tx.bind_eq_ok, row_eq_ok] at h
    obtain ⟨_, t, hdev, r, _, ⟨hr, rfl⟩, h⟩ := h
    have hledger : t.ledger = s.ledger.withDevice chosen.key.1 :=
      congrArg Session.ledger (Prod.mk.inj (Except.ok.inj (hdev.symm.trans (device_ok _ s)))).2
    split_ifs at h with hstate
    · cases (Prod.mk.inj (Tx.pure_eq_ok.mp h)).1
    simp only [Tx.bind_eq_ok, utcnow_eq_ok, readLedger_eq_ok] at h
    obtain ⟨now, _, ⟨-, rfl⟩, _, _, ⟨rfl, rfl⟩, h⟩ := h
    cases hpay : (Table.lookup PayloadRow.key t.tick.ledger.payloads chosen.key).filter
        fun p => now < p.expiresAt with
    | none =>
      simp only [hpay, Tx.bind_eq_ok, Tx.pure_eq_ok] at h
      obtain ⟨_, _, -, hret⟩ := h
      cases (Prod.mk.inj hret).1
    | some p =>
      simp only [hpay, Tx.bind_eq_ok] at h
      obtain ⟨attached, u, hatt, h⟩ := h
      cases attached with
      | none =>
        simp only [Tx.bind_eq_ok, Tx.pure_eq_ok] at h
        obtain ⟨_, _, -, hret⟩ := h
        cases (Prod.mk.inj hret).1
      | some list =>
        simp only [Tx.bind_eq_ok, Tx.pure_eq_ok] at h
        obtain ⟨_, _, -, _, _, -, _, _, -, _, _, -, hret⟩ := h
        obtain rfl := Option.some.inj (Prod.mk.inj hret).1
        obtain ⟨hlook, -⟩ := Option.filter_eq_some_iff.mp hpay
        have hmem := Table.mem_of_lookup hlook
        have hkey := Table.key_of_lookup hlook
        rw [Session.ledger_tick, hledger, hdevices] at hmem
        obtain ⟨found, hfound, hlist, hintact⟩ := attachments_eq_ok hatt
        rw [Session.ledger_tick, hledger, hdevices] at hfound
        exact ⟨p, hmem, congrArg Prod.fst hkey, rfl, found, hfound, hlist, hintact⟩

end

/-! ### Over whole runs -/

/-- The operation has a definitive state, or its cancellation is requested. -/
def Stopped (r : OperationRow) : Prop := r.state.Final ∨ r.cancelRequested = true

section

variable {R : Time → Time → Prop} {P : Ledger → OperationRow → Edit → Prop} {L L' : Ledger}
  {ks : List Key}

/-- Payloads are inserted with operations. -/
theorem payload_of_trace (hmoves : Trace (Move R P) L ks L') {p : PayloadRow}
    (hp : p ∈ L'.payloads) : p ∈ L.payloads ∨ L.operation? p.key = none := by
  induction hmoves with
  | nil => exact .inl hp
  | @snoc ls l M M' hbefore hmove ih =>
    have hnone : M.operation? p.key = none → L.operation? p.key = none := by
      intro hnone
      by_contra hsome
      obtain ⟨r, hr⟩ := Option.ne_none_iff_exists'.mp hsome
      obtain ⟨r', hr', -⟩ := descends_of_trace hbefore hr
      cases hnone.symm.trans hr'
    cases hmove with
    | device | purgeEvents | receipt | dropArtifacts | putArtifact | poll | cancelClaim =>
      exact ih hp
    | purge => exact ih (List.mem_of_mem_filter hp)
    | @edit k e =>
      cases e with
      | finish => exact ih (List.mem_of_mem_filter hp)
      | claim | handle | cancel => exact ih hp
    | insert hnew =>
      rcases List.mem_append.mp hp with hp | hp
      · exact ih hp
      · rw [List.mem_singleton.mp hp] at hnone ⊢
        exact .inr (hnone hnew)

theorem Edit.stopped {e : Edit} {r : OperationRow} (hallowed : e.Allowed r) (h : Stopped r) :
    Stopped (e.row r) := by
  have hkeep : ∀ r' : OperationRow, (r.state.Final → r'.state = r.state) →
      (r.cancelRequested = true → r'.cancelRequested = true) → Stopped r' :=
    fun r' hstate hcancel => h.imp (fun hfinal => hstate hfinal ▸ hfinal) hcancel
  have hsettled := (Edit.descends hallowed).settled
  cases e with
  | claim | finish | handle => exact hkeep _ hsettled id
  | cancel => exact .inr rfl

theorem KeyStep.stopped {Q : OperationRow → Edit → Prop} {k : Key} {r : OperationRow}
    {ss : List Snapshot} {o' : Option OperationRow} (hstep : KeyStep R Q k (some r) ss o')
    (h : Stopped r) : ∃ r', o' = some r' ∧ Stopped r' := by
  cases hstep with
  | same | poll | cancelClaim => exact ⟨_, rfl, h⟩
  | edit _ hallowed => exact ⟨_, rfl, Edit.stopped hallowed h⟩
  | @purge _ now =>
    obtain ⟨x, hx⟩ := purgedRow_eq now r
    exact ⟨_, rfl, hx ▸ h⟩

/-- **A stop is final.** -/
theorem stopped_of_trace (hmoves : Trace (Move R P) L ks L') {k : Key} {r : OperationRow}
    (hr : L.operation? k = some r) (h : Stopped r) :
    ∃ r', L'.operation? k = some r' ∧ Stopped r' :=
  hmoves.invariant (I := fun L => ∃ r', L.operation? k = some r' ∧ Stopped r')
    (fun ⟨r', hr', h'⟩ hmove => by
      obtain ⟨ss, hstep, -⟩ := hmove.keyStep (Q := fun _ _ => True) (fun _ _ _ _ => trivial) k
      exact (hr' ▸ hstep).stopped h') ⟨r, hr, h⟩

end

/-- `cancel_intent` leaves the operation stopped. -/
theorem cancelIntent_stops {store : BrokerStore} {k : Key} {x : Snapshot × Option String}
    {s s' : Session} (h : store.cancelIntent k s = .ok (x, s')) :
    ∃ r, s'.ledger.operation? k = some r ∧ Stopped r := by
  simp only [cancelIntent, Tx.bind_eq_ok, row_eq_ok] at h
  obtain ⟨_, t, hdev, r, _, ⟨hr, rfl⟩, h⟩ := h
  split_ifs at h with haccepted hdone
  · have hlive : ¬ r.state.Final := by
      rw [haccepted]
      decide
    simp only [Tx.bind_eq_ok, Tx.pure_eq_ok] at h
    obtain ⟨snap, u, hfinish, hret⟩ := h
    obtain ⟨-, rfl⟩ := Prod.mk.inj hret
    obtain ⟨expires, fresh, now, hrow⟩ := finishOperation_eq_ok hr hlive hfinish
    exact ⟨_, hrow, .inl (by decide : OpState.Final .canceled)⟩
  · simp only [Tx.bind_eq_ok, Tx.pure_eq_ok] at h
    obtain ⟨snap, u, hsnap, hret⟩ := h
    obtain ⟨-, rfl⟩ := Prod.mk.inj hret
    obtain ⟨-, rfl⟩ := snapshot_eq_ok hsnap
    exact ⟨r, hr, hdone⟩
  · simp only [Tx.bind_eq_ok, utcnow_eq_ok, writeLedger_eq_ok, Tx.pure_eq_ok] at h
    obtain ⟨now, _, ⟨-, rfl⟩, _, _, rfl, snap, u, hevent, hret⟩ := h
    obtain ⟨-, rfl⟩ := Prod.mk.inj hret
    obtain ⟨r', dev, expires, hr', -, -, rfl⟩ := event_eq_ok hevent
    refine ⟨r', hr', .inr ?_⟩
    have hedit := operation?_updateOperation (L := t.ledger) (f := fun r => cancelingRow r now)
      (fun _ => rfl) k k
    rw [if_pos rfl, hr] at hedit
    obtain rfl := Option.some.inj (hr'.symm.trans hedit)
    rfl

end HermesGateway.Broker
