import HermesGateway.Broker.Settlement
import HermesGateway.Peer.Provenance

/-!
# One task on two ways

A terminal task reaches the dispatcher as the event of a stream or as the reply to a read. Either
way it becomes a result, an observation makes calls of the store, and what the last of them asks
for is recorded. `play` runs these calls with the checks the store makes of their arguments; what it
leaves out are the limits on what a device stores and on the size of a result.

The artifacts of an event go through a dictionary by identity; those of a reply do not. The text of
a stream is the texts of all its artifacts, line by line; that of a reply is the first of them. And
a failure that is not on the list of the handlers ends a submission with an unknown outcome, where
a read leaves the operation as it is. The two records are the same exactly when none of the three
differences shows.

## Main definitions

* `play` — the record a coroutine makes
* `HermesBrokerPeer.record` — the record a message makes
* `Coincide` — no difference shows

## Main results

* `record_agrees_iff` — the records are the same exactly when the artifacts coincide
* `coincide_of_nodup` — which is up to their texts, if no two share an identity
* `two_texts_disagree` — two artifacts with a text each
-/

namespace HermesGateway.Peer

open Broker BrokerDispatcher BrokerStore

/-! ### Records -/

/-- What the broker records of a result: the state, the code of an error, and the text with the
artifacts, as bytes with their media types. -/
structure Record where
  state : OpState
  code : Option ErrorCode
  text : Option String
  files : List (Option (ByteArray × String))
deriving DecidableEq

/-- The descriptor of the `n`th content a store has taken; its expiry stands for the number. -/
def numbered (digest contentType : String) (n : ℕ) : Descriptor := ⟨0, digest, 0, contentType, n⟩

/-- What the call records, when the store holds these contents. -/
def recordOf (shelf : List (ByteArray × String)) (state : OpState) (code : Option ErrorCode) :
    Option ResultBody → Record
  | some (.output text ds) => ⟨state, code, some text, ds.map fun d => shelf[d.expiresAt]?⟩
  | _ => ⟨state, code, none, []⟩

/-- The record a coroutine makes, when the operation reads as `current` and there is room for what
the store is given: the one of its first call that makes one. -/
def play (store : BrokerStore) (current : Snapshot) :
    Prog → List (ByteArray × String) → Except Failure (Option Record)
  | .done, _ => .ok none
  | .raise e, _ => .error e
  | .saveHandle handle next, shelf =>
    match store.handleFault handle with
    | some e => .error e
    | none => play store current next shelf
  | .get next, shelf => play store current (next current) shelf
  | .putArtifact content digest contentType next, shelf =>
    match store.contentFault content contentType with
    | some e => .error e
    | none =>
      play store current (next (numbered digest contentType shelf.length))
        (shelf ++ [(content, contentType)])
  | .finish state result code _ _, shelf =>
    match store.resultFault result with
    | some e => .error e
    | none => .ok (some (recordOf shelf state code result))

/-- The record of a task in this phase, with that of the exception handler. -/
def phaseRecord (disp : BrokerDispatcher) (current : Snapshot) (job : Job) : Phase → Option Record
  | .queued result =>
    match play disp.store current (disp.observe result) [] with
    | .ok record => record
    | .error e => (play disp.store current (job.handler (settles result.state) e) []).toOption.join
  | .settling p => (play disp.store current p []).toOption.join
  | _ => none

/-- The record a message makes that reaches a task which waits for its first. -/
def HermesBrokerPeer.record (peer : HermesBrokerPeer) (disp : BrokerDispatcher) (current : Snapshot)
    (flow : Uuid) (k : Key) (job : Job) (message : Json) : Option Record :=
  (peer.deliver flow ⟨k, job, .waiting⟩ .initial message).1.head?.bind fun t =>
    phaseRecord disp current job t.phase

/-! ### The record of an observation -/

/-- The contents the loop of `_observe` stores, or the error it comes to. -/
def uploads (disp : BrokerDispatcher) :
    List (Option Json) → Except Failure (List (ByteArray × String))
  | [] => .ok []
  | part :: rest =>
    match disp.partAction part with
    | .skip => uploads disp rest
    | .fail e => .error e
    | .store content contentType =>
      match disp.store.contentFault content contentType with
      | some e => .error e
      | none => (uploads disp rest).map ((content, contentType) :: ·)

/-- The descriptors are those of the contents, in order. -/
def Numbered (ds : List Descriptor) (shelf : List (ByteArray × String)) : Prop :=
  ds.map Descriptor.expiresAt = List.range shelf.length

theorem Numbered.files {ds : List Descriptor} {shelf : List (ByteArray × String)}
    (h : Numbered ds shelf) : (ds.map fun d => shelf[d.expiresAt]?) = shelf.map some := by
  have hmap : (ds.map fun d => shelf[d.expiresAt]?) =
      (ds.map Descriptor.expiresAt).map fun n => shelf[n]? := by
    rw [List.map_map]
    rfl
  rw [hmap, h]
  refine List.ext_getElem (by simp) fun n hn hn' => ?_
  have hlt : n < shelf.length := by simpa using hn'
  simp [hlt]

section

variable {disp : BrokerDispatcher} {current : Snapshot} {job : Job}

/-- The loop over the parts, as its contents. -/
theorem play_storeParts {next : List Descriptor → Prog} (parts : List (Option Json)) :
    ∀ (ds : List Descriptor) (shelf : List (ByteArray × String)), Numbered ds shelf →
    match uploads disp parts with
    | .error e => play disp.store current (disp.storeParts parts ds next) shelf = .error e
    | .ok files => ∃ ds', Numbered ds' (shelf ++ files) ∧
      play disp.store current (disp.storeParts parts ds next) shelf =
        play disp.store current (next ds') (shelf ++ files) := by
  induction parts with
  | nil =>
    intro ds shelf h
    exact ⟨ds, by rwa [List.append_nil], by rw [List.append_nil]; rfl⟩
  | cons part rest ih =>
    intro ds shelf h
    rw [storeParts, uploads]
    cases disp.partAction part with
    | skip => exact ih ds shelf h
    | fail e => rfl
    | store content contentType =>
      dsimp only
      rw [play]
      cases hfault : disp.store.contentFault content contentType with
      | some e => rfl
      | none =>
        have hnext : Numbered
            (ds ++ [numbered (disp.store.sha256 content) contentType shelf.length])
            (shelf ++ [(content, contentType)]) := by
          rw [Numbered, List.map_append, h, List.length_append, List.length_singleton,
            List.range_succ]
          rfl
        have hrest := ih _ _ hnext
        cases huploads : uploads disp rest with
        | error e =>
          rw [huploads] at hrest
          exact hrest
        | ok files =>
          rw [huploads] at hrest
          obtain ⟨ds', hds', hplay⟩ := hrest
          rw [List.append_assoc, List.singleton_append] at hds' hplay
          exact ⟨ds', hds', hplay⟩

/-- The failures an observation can come to within the limits. -/
def Raised (e : Failure) : Prop :=
  e.Listed ∨ e = brokerError .invalidContentType "invalid artifact content type" 400 ∨ e = .other

theorem raised_of_contentFault {store : BrokerStore} {content : ByteArray} {contentType : String}
    {e : Failure} (h : store.contentFault content contentType = some e) : Raised e := by
  rw [BrokerStore.contentFault] at h
  split_ifs at h
  · obtain rfl := Option.some.inj h
    exact .inl (show ErrorCode.artifactTooLarge ∈ artifactCodes.dropLast by decide)
  · exact .inr (.inl (Option.some.inj h).symm)

theorem raised_of_uploads {parts : List (Option Json)} {e : Failure}
    (h : uploads disp parts = .error e) : Raised e := by
  induction parts with
  | nil => cases h
  | cons part rest ih =>
    rw [uploads] at h
    cases hact : disp.partAction part with
    | skip =>
      rw [hact] at h
      exact ih h
    | fail e' =>
      rw [hact] at h
      obtain rfl := Except.error.inj h
      rcases listed_of_partAction hact with hother | hlisted
      · exact .inr (.inr hother)
      · exact .inl hlisted
    | store content contentType =>
      rw [hact] at h
      dsimp only at h
      cases hfault : disp.store.contentFault content contentType with
      | some e' =>
        rw [hfault] at h
        obtain rfl := Except.error.inj h
        exact raised_of_contentFault hfault
      | none =>
        rw [hfault] at h
        cases hrest : uploads disp rest with
        | error e' =>
          rw [hrest] at h
          obtain rfl := Except.error.inj h
          exact ih hrest
        | ok files =>
          rw [hrest] at h
          cases h

/-- The code of a refusal. -/
def code? : Failure → Option ErrorCode
  | .broker e => some e.code
  | .database | .other => none

theorem listed_of_code? {e e' : Failure} (he : e.Listed) (h : code? e = code? e') : e'.Listed := by
  cases e with
  | database | other => exact he.elim
  | broker b =>
    cases e' with
    | database | other => cases h
    | broker b' =>
      have hcode : b.code = b'.code := Option.some.inj h
      change b'.code ∈ artifactCodes.dropLast
      rw [← hcode]
      exact he

/-- The record of `_unknown`. -/
def unknownRecord : Record := ⟨.outcomeUnknown, some .submissionUnknown, none, []⟩

/-- The record of an observation that fails: that of a failed operation where the failure is on the
lists of the handlers. For another a submission has an unknown outcome, and a read records
nothing. -/
def failure (job : Job) (e : Failure) : Option Record :=
  if e.Listed then some ⟨.failed, code? e, none, []⟩
  else if job = .submit then some unknownRecord
  else none

theorem failure_of_listed {job : Job} {e : Failure} (h : e.Listed) :
    failure job e = some ⟨.failed, code? e, none, []⟩ := if_pos h

theorem failure_submit {e : Failure} (h : ¬ e.Listed) : failure .submit e = some unknownRecord := by
  rw [failure, if_neg h, if_pos rfl]

theorem failure_reconcile {handle : String} {e : Failure} (h : ¬ e.Listed) :
    failure (.reconcile handle) e = none := by
  rw [failure, if_neg h, if_neg (by simp)]

theorem failure_reconcile_ne_unknown {handle : String} {e : Failure} :
    failure (.reconcile handle) e ≠ some unknownRecord := by
  by_cases hlisted : e.Listed
  · rw [failure_of_listed hlisted]
    simp [unknownRecord]
  · rw [failure_reconcile hlisted]
    simp

theorem failure_submit_ne_none {e : Failure} : failure .submit e ≠ none := by
  by_cases hlisted : e.Listed
  · rw [failure_of_listed hlisted]
    exact Option.some_ne_none _
  · rw [failure_submit hlisted]
    exact Option.some_ne_none _

/-- A failure is not the record of a result that is stored. -/
theorem failure_ne_stored {job : Job} {e : Failure} {state : OpState} {text : String}
    {files : List (Option (ByteArray × String))} :
    failure job e ≠ some ⟨state, none, some text, files⟩ := by
  rw [failure]
  split_ifs <;> simp [unknownRecord]

theorem play_handler {store : BrokerStore} {e : Failure} (he : Raised e)
    (hjob : job.isCancel = false) :
    (play store current (job.handler true e) []).toOption.join = failure job e := by
  rcases he with hlisted | rfl | rfl
  · rw [failure_of_listed hlisted]
    cases e with
    | database | other => exact hlisted.elim
    | broker b =>
      have hcode : b.code ∈ artifactCodes.dropLast := hlisted
      cases job with
      | submit =>
        simp only [Job.handler, List.mem_of_mem_dropLast hcode, and_self, if_true]
        rfl
      | reconcile handle =>
        simp only [Job.handler, hcode, if_true]
        rfl
      | cancel handle => cases hjob
  · cases job with
    | submit | reconcile handle => rfl
    | cancel handle => cases hjob
  · cases job with
    | submit | reconcile handle => rfl
    | cancel handle => cases hjob

/-- The record of a terminal result. -/
def outcome (disp : BrokerDispatcher) (job : Job) (state text : String) (artifacts : List Json) :
    Option Record :=
  if state = "rejected" ∨ state = "input_required" then
    some ⟨.failed, some (if state = "input_required" then .peerRequiresInput else .peerRejected),
      none, []⟩
  else
    match uploads disp (artifacts.flatMap partsOf) with
    | .ok files =>
      if disp.store.encodable text = true then
        (OpState.ofText? state).map fun s => ⟨s, none, some text, files.map some⟩
      else failure job .other
    | .error e => failure job e

/-- A terminal state that is no refusal is one of an operation. -/
theorem ofText?_of_settles {state : String} (h : settles state = true)
    (hturned : ¬ (state = "rejected" ∨ state = "input_required")) :
    ∃ s, OpState.ofText? state = some s := by
  have hmem : state ∈ ["completed", "failed", "canceled", "rejected", "input_required"] :=
    of_decide_eq_true h
  simp only [List.mem_cons, List.not_mem_nil, or_false] at hmem
  rcases hmem with rfl | rfl | rfl | rfl | rfl
  · exact ⟨.completed, by decide⟩
  · exact ⟨.failed, by decide⟩
  · exact ⟨.canceled, by decide⟩
  · exact absurd (.inl rfl) hturned
  · exact absurd (.inr rfl) hturned

/-- **The record of an observation**, of a stream or of a read. -/
theorem phaseRecord_queued {result : TaskResult} (hsettles : settles result.state = true)
    (hhandle : disp.store.handleFault result.taskId = none) (hopen : ¬ current.state.Final)
    (hjob : job.isCancel = false) :
    phaseRecord disp current job (.queued result) =
      outcome disp job result.state result.text result.artifacts := by
  rw [phaseRecord, observe, if_neg (by simp [hsettles]), play, hhandle]
  dsimp only
  rw [play, if_neg hopen, outcome]
  by_cases hturned : result.state = "rejected" ∨ result.state = "input_required"
  · rw [if_pos hturned, if_pos hturned]
    rfl
  rw [if_neg hturned, if_neg hturned]
  obtain ⟨state, hstate⟩ := ofText?_of_settles hsettles hturned
  simp only [hstate]
  have hplay := @play_storeParts disp current
    (fun ds => .finish state (some (.output result.text ds)) none none .done)
    (result.artifacts.flatMap partsOf) [] [] rfl
  cases huploads : uploads disp (result.artifacts.flatMap partsOf) with
  | ok files =>
    rw [huploads] at hplay
    obtain ⟨ds, hds, hplay⟩ := hplay
    have hfiles : Numbered ds files := hds
    have hfault : disp.store.resultFault (some (.output result.text ds)) =
        if disp.store.encodable result.text = true then none else some .other := by
      rw [BrokerStore.resultFault, Option.any_some, BrokerStore.encodes]
      cases disp.store.encodable result.text <;> rfl
    rw [hplay, play, hfault]
    split_ifs
    · simp only [recordOf, Option.map_some, List.nil_append, hfiles.files]
    · rw [hsettles]
      exact play_handler (.inr (.inr rfl)) hjob
  | error e =>
    rw [huploads] at hplay
    rw [hplay, hsettles]
    exact play_handler (raised_of_uploads huploads) hjob

end

/-! ### Texts and identities -/

/-- Where an artifact has parts, they are a list. -/
def Itemized (artifacts : List Json) : Prop :=
  ∀ a ∈ artifacts, ∀ v, a.get? "parts" = some v → ∃ parts, v = .arr parts

/-- The text of an artifact. -/
def A2AClient.artifactText (client : A2AClient) (artifact : Json) : String :=
  (client.messageText artifact).toOption.getD ""

/-- The texts of artifacts that are not empty. -/
def A2AClient.texts (client : A2AClient) (artifacts : List Json) : List String :=
  (artifacts.map client.artifactText).filter (· ≠ "")

/-- The artifacts of one event with their identities. -/
def HermesBrokerPeer.named (peer : HermesBrokerPeer) : ℕ → List Json → List (String × Json)
  | _, [] => []
  | index, artifact :: rest =>
      (peer.identity index artifact, artifact) :: peer.named (index + 1) rest

/-- The artifacts a stream keeps of those of its first event: the last of each identity, at the
place of the first. -/
def HermesBrokerPeer.retained (peer : HermesBrokerPeer) (artifacts : List Json) : List Json :=
  (Json.dictOf (peer.named 0 artifacts)).map Prod.snd

section

variable {client : A2AClient}

theorem messageText_eq {a : Json} (h : ∀ v, a.get? "parts" = some v → ∃ parts, v = .arr parts) :
    client.messageText a = .ok (client.artifactText a) := by
  have hok : ∃ text, client.messageText a = .ok text := by
    rw [A2AClient.messageText]
    split_ifs
    · have hitems : ∃ items, client.items a "parts" = .ok items := by
        rw [A2AClient.items]
        cases hmember : client.member? a "parts" with
        | none => exact ⟨[], rfl⟩
        | some v =>
          obtain ⟨parts, rfl⟩ := h v (Option.filter_eq_some_iff.mp hmember).1
          exact ⟨parts, rfl⟩
      obtain ⟨items, hitems⟩ := hitems
      rw [hitems]
      exact ⟨_, rfl⟩
    · exact ⟨"", rfl⟩
  obtain ⟨text, htext⟩ := hok
  rw [A2AClient.artifactText, htext]
  rfl

theorem mapM_messageText {artifacts : List Json} (h : Itemized artifacts) :
    artifacts.mapM client.messageText = .ok (artifacts.map client.artifactText) := by
  induction artifacts with
  | nil => rfl
  | cons a rest ih =>
    rw [List.mapM_cons, messageText_eq (h a List.mem_cons_self),
      ih fun b hb => h b (List.mem_cons_of_mem a hb)]
    rfl

theorem firstText_eq {artifacts : List Json} (h : Itemized artifacts) :
    client.firstText artifacts = .ok ((client.texts artifacts).head?.getD "") := by
  induction artifacts with
  | nil => rfl
  | cons a rest ih =>
    rw [A2AClient.firstText, messageText_eq (h a List.mem_cons_self)]
    change (if client.artifactText a = "" then client.firstText rest else
      Except.ok (client.artifactText a)) = _
    rw [A2AClient.texts, List.map_cons, List.filter_cons]
    by_cases hempty : client.artifactText a = ""
    · rw [if_pos hempty, if_neg (by simp [hempty])]
      exact ih fun b hb => h b (List.mem_cons_of_mem a hb)
    · rw [if_neg hempty, if_pos (by simp [hempty])]
      rfl

/-- The text of a task is the first of its artifacts' texts, if there is one. -/
theorem taskText_of_head {task status : Json} {artifacts : List Json} {text t : String}
    (h : Itemized artifacts) (htext : client.taskText task status artifacts = .ok text)
    (hhead : (client.texts artifacts).head? = some t) : text = t := by
  have hne : t ≠ "" := by
    have hmem := List.mem_of_mem_head? hhead
    simpa using (List.mem_filter.mp hmem).2
  rw [A2AClient.taskText, firstText_eq h, hhead] at htext
  change (do
    let text ← if t = "" then client.messageText ((status.get? "message").getD .null) else .ok t
    if text = "" ∧ (client.member? task "role").isSome then client.messageText task
    else .ok text) = Except.ok text at htext
  rw [if_neg hne] at htext
  change (if t = "" ∧ (client.member? task "role").isSome then client.messageText task
    else .ok t) = Except.ok text at htext
  rw [if_neg fun hand => hne hand.1] at htext
  exact (Except.ok.inj htext).symm

/-- `parse_task` with another fallback differs in the context only. -/
theorem parseTask_fallback {task : Json} {result : TaskResult}
    (h : client.parseTask task "" = .ok result) (fallback : String) :
    ∃ context, client.parseTask task fallback = .ok { result with contextId := context } := by
  obtain ⟨found, hfound, h⟩ := Except.bind_eq_ok.mp h
  obtain ⟨status, hstatus, h⟩ := Except.bind_eq_ok.mp h
  obtain ⟨items, hitems, h⟩ := Except.bind_eq_ok.mp h
  obtain ⟨text, htext, h⟩ := Except.bind_eq_ok.mp h
  obtain rfl := Except.ok.inj h
  exact ⟨_, Except.bind_eq_ok.mpr ⟨found, hfound, Except.bind_eq_ok.mpr ⟨status, hstatus,
    Except.bind_eq_ok.mpr ⟨items, hitems, Except.bind_eq_ok.mpr ⟨text, htext, rfl⟩⟩⟩⟩⟩

/-- The text of a result is the first of its artifacts' texts, if there is one. -/
theorem text_of_head {task : Json} {result : TaskResult} {t : String}
    (h : client.parseTask task "" = .ok result) (hitemized : Itemized result.artifacts)
    (hhead : (client.texts result.artifacts).head? = some t) : result.text = t := by
  obtain ⟨found, -, h⟩ := Except.bind_eq_ok.mp h
  obtain ⟨status, -, h⟩ := Except.bind_eq_ok.mp h
  obtain ⟨items, -, h⟩ := Except.bind_eq_ok.mp h
  obtain ⟨text, htext, h⟩ := Except.bind_eq_ok.mp h
  obtain rfl := Except.ok.inj h
  exact taskText_of_head hitemized htext hhead

end

section

variable {peer : HermesBrokerPeer}

/-- A first event keeps its artifacts in a dictionary. -/
theorem retainAll_false (artifacts : List Json) : ∀ (kept : List (String × Json)) (index : ℕ),
    peer.retainAll false kept index artifacts =
      .ok ((peer.named index artifacts).foldl (fun d p => Json.setKey p.1 p.2 d) kept) := by
  induction artifacts with
  | nil => exact fun _ _ => rfl
  | cons a rest ih => exact fun kept index => ih _ _

theorem map_snd_named (artifacts : List Json) : ∀ index,
    (peer.named index artifacts).map Prod.snd = artifacts := by
  induction artifacts with
  | nil => exact fun _ => rfl
  | cons a rest ih => exact fun index => congrArg (a :: ·) (ih (index + 1))

/-- What is kept is some of the artifacts. -/
theorem mem_of_mem_retained {artifacts : List Json} {a : Json} (h : a ∈ peer.retained artifacts) :
    a ∈ artifacts := by
  obtain ⟨p, hp, rfl⟩ := List.mem_map.mp h
  have hsnd := List.mem_map_of_mem (f := Prod.snd) (Json.mem_of_mem_dictOf hp)
  rwa [map_snd_named] at hsnd

/-- All of them, if no two share an identity. -/
theorem retained_of_nodup {artifacts : List Json}
    (h : ((peer.named 0 artifacts).map Prod.fst).Nodup) : peer.retained artifacts = artifacts := by
  rw [HermesBrokerPeer.retained, Json.dictOf_of_nodup h, map_snd_named]

/-- Joined texts go on after the first of them exactly if there are others. -/
theorem toList_joinLines (t : String) (ts : List String) : ∃ rest,
    (joinLines (t :: ts)).toList = t.toList ++ rest ∧ (rest = [] ↔ ts = []) := by
  cases ts with
  | nil => exact ⟨[], by simp [joinLines], by simp⟩
  | cons t' ts =>
    refine ⟨'\n' :: (joinLines (t' :: ts)).toList, ?_, by simp⟩
    simp only [joinLines, List.map_cons, String.toList_ofList]
    rw [List.intercalate_cons_cons, List.append_assoc, List.singleton_append]

theorem joinLines_ne_empty {t : String} {ts : List String} (h : t ≠ "") :
    joinLines (t :: ts) ≠ "" := by
  obtain ⟨rest, hrest, -⟩ := toList_joinLines t ts
  intro hempty
  rw [hempty] at hrest
  have hnil : t.toList = [] := (List.append_eq_nil_iff.mp hrest.symm).1
  exact h (String.toList_eq_nil_iff.mp hnil)

/-- Joined texts are the first of them exactly if there are no others. -/
theorem joinLines_eq_head {t : String} {ts : List String} : joinLines (t :: ts) = t ↔ ts = [] := by
  obtain ⟨rest, hrest, hnil⟩ := toList_joinLines t ts
  rw [← hnil]
  constructor
  · intro h
    rw [h] at hrest
    exact (List.append_right_eq_self.mp hrest.symm)
  · rintro rfl
    rw [List.append_nil] at hrest
    exact String.toList_inj.mp hrest

end

/-! ### The two ways -/

/-- No difference shows: what the stream keeps of the artifacts stores the same contents, and joins
to the first text, which can be encoded; or it comes to the same error, one on the lists of the
handlers. -/
def Coincide (disp : BrokerDispatcher) (peer : HermesBrokerPeer) (artifacts : List Json)
    (text : String) : Prop :=
  match uploads disp ((peer.retained artifacts).flatMap partsOf),
      uploads disp (artifacts.flatMap partsOf) with
  | .ok files, .ok files' => files = files' ∧
      (peer.client.texts (peer.retained artifacts) = [] ∨
        (peer.client.texts artifacts).head? =
          some (joinLines (peer.client.texts (peer.retained artifacts)))) ∧
      disp.store.encodable text = true
  | .error e, .error e' => e.Listed ∧ code? e = code? e'
  | _, _ => False

/-- A terminal task of a reply to a read: its handle, which the store saves, lists of parts, and the
size limit for what the stream keeps of it. -/
structure Terminal (disp : BrokerDispatcher) (peer : HermesBrokerPeer) (task : Json)
    (handle : String) (result : TaskResult) : Prop where
  read : peer.client.parseTask task "" = .ok result
  mine : result.taskId = handle
  saved : disp.store.handleFault handle = none
  settles : settles result.state = true
  itemized : Itemized result.artifacts
  fits : snapshotSize (peer.retained result.artifacts) result.text ≤ peer.maxSnapshotBytes

/-- What the stream keeps of the result can be written. -/
def Writable (peer : HermesBrokerPeer) (result : TaskResult) : Prop :=
  peer.writes (snapshotOf (peer.retained result.artifacts) result.text) = true

section

variable {disp : BrokerDispatcher} {peer : HermesBrokerPeer} {current : Snapshot} {flow : Uuid}
  {k : Key} {task : Json} {handle : String} {result : TaskResult}

theorem Itemized.retained (h : Itemized result.artifacts) :
    Itemized (peer.retained result.artifacts) := fun a ha => h a (mem_of_mem_retained ha)

/-- The text of a stream. -/
def HermesBrokerPeer.streamText (peer : HermesBrokerPeer) (result : TaskResult) : String :=
  if joinLines (peer.client.texts (peer.retained result.artifacts)) = "" then result.text
  else joinLines (peer.client.texts (peer.retained result.artifacts))

/-- The event of the task, up to the check of the snapshot. -/
theorem next_eq_gathered (h : Terminal disp peer task handle result) (context : String) :
    ∃ context', peer.next context .initial (.obj [("task", task)]) = (do
      let gathered ← peer.gathered { result with contextId := context' }
        (peer.retained result.artifacts)
      return some (gathered,
        ⟨Json.dictOf (peer.named 0 result.artifacts), some handle⟩)) := by
  have hobj : ∃ ms, task = .obj ms := by
    obtain ⟨found, hfound, -⟩ := Except.bind_eq_ok.mp h.read
    cases task with
    | obj ms => exact ⟨ms, rfl⟩
    | null | bool | int | float | str | arr => cases hfound
  obtain ⟨ms, rfl⟩ := hobj
  obtain ⟨context', hparse⟩ := parseTask_fallback h.read context
  have hevent : peer.client.parseStreamEvent (.obj [("task", .obj ms)]) context =
      .ok (some { result with contextId := context' }) := by
    rw [A2AClient.parseStreamEvent]
    change (do return some (← peer.client.parseTask (.obj ms) context)) = _
    rw [hparse]
    rfl
  have hne : result.taskId ≠ "" := by
    rw [h.mine]
    exact (handleFault_eq_none.mp h.saved).1.1
  have hid : ¬ (result.taskId = "" ∨
      StreamState.initial.handle.any (· ≠ result.taskId) = true) := by
    rintro (hempty | hany)
    · exact hne hempty
    · cases hany
  have hkept : StreamState.initial.kept (.obj [("task", .obj ms)])
      { result with contextId := context' } = [] := ite_self _
  refine ⟨context', ?_⟩
  rw [HermesBrokerPeer.next, hevent]
  change (if _ then _ else _) = _
  rw [if_neg hid, hkept]
  change (peer.retainAll false [] 0 result.artifacts >>= _) = _
  rw [retainAll_false, ← h.mine]
  rfl

theorem next_task (h : Terminal disp peer task handle result) (hwritable : Writable peer result)
    (context : String) : ∃ context' st, peer.next context .initial (.obj [("task", task)]) =
      .ok (some ({ result with
        contextId := context'
        artifacts := peer.retained result.artifacts
        text := peer.streamText result }, st)) := by
  obtain ⟨context', hnext⟩ := next_eq_gathered h context
  have htext : peer.textOf (peer.retained result.artifacts) =
      .ok (joinLines (peer.client.texts (peer.retained result.artifacts))) := by
    rw [HermesBrokerPeer.textOf, mapM_messageText h.itemized.retained]
    rfl
  refine ⟨context', ⟨Json.dictOf (peer.named 0 result.artifacts), some handle⟩, ?_⟩
  have hgathered := @HermesBrokerPeer.gathered_of_fits peer { result with contextId := context' } _
    ⟨hwritable, h.fits⟩
  rw [hnext, hgathered, htext]
  rfl

/-- The event of a task that cannot be written raises. -/
theorem next_of_not_writable (h : Terminal disp peer task handle result)
    (hwritable : ¬ Writable peer result) (context : String) :
    peer.next context .initial (.obj [("task", task)]) = .error .other := by
  obtain ⟨context', hnext⟩ := next_eq_gathered h context
  rw [hnext, HermesBrokerPeer.gathered, if_pos (Bool.eq_false_of_not_eq_true hwritable)]
  rfl

/-- The record of the stream. -/
theorem record_stream (h : Terminal disp peer task handle result) (hwritable : Writable peer result)
    (hopen : ¬ current.state.Final) :
    peer.record disp current flow k .submit (.obj [("task", task)]) =
      outcome disp .submit result.state (peer.streamText result)
        (peer.retained result.artifacts) := by
  obtain ⟨context, st, hnext⟩ := next_task h hwritable (peer.peerContext k.1 flow.text)
  rw [HermesBrokerPeer.record, HermesBrokerPeer.deliver]
  dsimp only
  rw [hnext]
  exact @phaseRecord_queued _ _ .submit { result with
    contextId := context
    artifacts := peer.retained result.artifacts
    text := peer.streamText result } h.settles (h.mine ▸ h.saved) hopen rfl

/-- The record of a stream that cannot be kept. -/
theorem record_of_not_writable (h : Terminal disp peer task handle result)
    (hwritable : ¬ Writable peer result) :
    peer.record disp current flow k .submit (.obj [("task", task)]) =
      some unknownRecord := by
  rw [HermesBrokerPeer.record, HermesBrokerPeer.deliver]
  dsimp only
  rw [next_of_not_writable h hwritable]
  rfl

/-- The record of the read. -/
theorem record_read (h : Terminal disp peer task handle result) (hopen : ¬ current.state.Final) :
    peer.record disp current flow k (.reconcile handle) task =
      outcome disp (.reconcile handle) result.state result.text result.artifacts := by
  rw [HermesBrokerPeer.record, HermesBrokerPeer.deliver]
  dsimp only
  rw [h.read]
  dsimp only
  rw [if_pos (show (Job.reconcile handle).accepts result = true from decide_eq_true h.mine)]
  exact @phaseRecord_queued _ _ (.reconcile handle) _ h.settles (h.mine ▸ h.saved) hopen rfl

/-- A read leaves no operation with an unknown outcome. -/
theorem outcome_reconcile_ne_unknown {state text : String} {artifacts : List Json}
    (hsettles : settles state = true) :
    outcome disp (.reconcile handle) state text artifacts ≠ some unknownRecord := by
  rw [outcome]
  by_cases hturned : state = "rejected" ∨ state = "input_required"
  · rw [if_pos hturned]
    simp [unknownRecord]
  · rw [if_neg hturned]
    obtain ⟨s, hs⟩ := ofText?_of_settles hsettles hturned
    cases uploads disp (artifacts.flatMap partsOf) with
    | ok files =>
      dsimp only
      split_ifs
      · simp [hs, unknownRecord]
      · exact failure_reconcile_ne_unknown
    | error e => exact failure_reconcile_ne_unknown

/-- The texts of the two ways are the same exactly when what the stream keeps has none, or joins
to the first. -/
theorem streamText_eq_iff (h : Terminal disp peer task handle result) :
    peer.streamText result = result.text ↔
      peer.client.texts (peer.retained result.artifacts) = [] ∨
        (peer.client.texts result.artifacts).head? =
          some (joinLines (peer.client.texts (peer.retained result.artifacts))) := by
  cases hkept : peer.client.texts (peer.retained result.artifacts) with
  | nil =>
    rw [HermesBrokerPeer.streamText, hkept]
    exact ⟨fun _ => .inl rfl, fun _ => rfl⟩
  | cons t ts =>
    have hmem : t ∈ peer.client.texts (peer.retained result.artifacts) := by
      rw [hkept]
      exact List.mem_cons_self
    obtain ⟨hmap, hne⟩ := List.mem_filter.mp hmem
    obtain ⟨a, ha, rfl⟩ := List.mem_map.mp hmap
    have hall : peer.client.artifactText a ∈ peer.client.texts result.artifacts :=
      List.mem_filter.mpr ⟨List.mem_map_of_mem (mem_of_mem_retained ha), hne⟩
    have hjoin := @joinLines_ne_empty _ ts (of_decide_eq_true hne)
    rw [HermesBrokerPeer.streamText, hkept, if_neg hjoin]
    cases htexts : peer.client.texts result.artifacts with
    | nil => simp [htexts] at hall
    | cons u us =>
      have htext : result.text = u := text_of_head h.read h.itemized (by rw [htexts]; rfl)
      rw [htext]
      constructor
      · exact fun hjoined => .inr (congrArg some hjoined.symm)
      · rintro (hnil | hhead)
        · cases hnil
        · exact (Option.some.inj hhead).symm

theorem outcome_eq_iff (h : Terminal disp peer task handle result) :
    outcome disp .submit result.state (peer.streamText result) (peer.retained result.artifacts) =
        outcome disp (.reconcile handle) result.state result.text result.artifacts ↔
      result.state = "rejected" ∨ result.state = "input_required" ∨
        Coincide disp peer result.artifacts result.text := by
  rw [outcome, outcome, ← or_assoc]
  by_cases hturned : result.state = "rejected" ∨ result.state = "input_required"
  · rw [if_pos hturned, if_pos hturned]
    exact ⟨fun _ => .inl hturned, fun _ => rfl⟩
  rw [if_neg hturned, if_neg hturned, or_iff_right hturned]
  obtain ⟨state, hstate⟩ := ofText?_of_settles h.settles hturned
  rw [Coincide, hstate]
  have hother : ¬ Failure.other.Listed := id
  cases hkept : uploads disp ((peer.retained result.artifacts).flatMap partsOf) with
  | error e =>
    cases hall : uploads disp (result.artifacts.flatMap partsOf) with
    | error e' =>
      dsimp only
      by_cases hlisted : e.Listed
      · by_cases hlisted' : e'.Listed
        · simp [failure_of_listed hlisted, failure_of_listed hlisted', hlisted]
        · rw [failure_of_listed hlisted, failure_reconcile hlisted']
          exact iff_of_false (Option.some_ne_none _) fun h =>
            hlisted' (listed_of_code? hlisted h.2)
      · rw [failure_submit hlisted]
        exact iff_of_false failure_reconcile_ne_unknown.symm fun h => hlisted h.1
    | ok files =>
      dsimp only [Option.map_some]
      refine iff_of_false ?_ id
      split_ifs
      · exact failure_ne_stored
      · rw [failure_reconcile hother]
        exact failure_submit_ne_none
  | ok files =>
    cases hall : uploads disp (result.artifacts.flatMap partsOf) with
    | error e' =>
      dsimp only [Option.map_some]
      refine iff_of_false ?_ id
      split_ifs
      · exact failure_ne_stored.symm
      · rw [failure_submit hother]
        exact failure_reconcile_ne_unknown.symm
    | ok files' =>
      dsimp only [Option.map_some]
      rw [← streamText_eq_iff h, failure_submit hother, failure_reconcile hother]
      have hinj : files.map some = files'.map some ↔ files = files' :=
        (List.map_injective_iff.mpr (Option.some_injective _)).eq_iff
      by_cases htext : peer.streamText result = result.text
      · rw [htext]
        by_cases hencodes : disp.store.encodable result.text = true
        · simp [hencodes, hinj]
        · simp [hencodes]
      · refine iff_of_false ?_ fun hand => htext hand.2.1
        split_ifs <;> simp [unknownRecord, htext]

/-- The two ways agree exactly when what the stream keeps can be written, and the task is refused or
its artifacts coincide with what is kept. -/
theorem record_eq_iff (h : Terminal disp peer task handle result)
    (hopen : ¬ current.state.Final) :
    peer.record disp current flow k .submit (.obj [("task", task)]) =
        peer.record disp current flow k (.reconcile handle) task ↔
      Writable peer result ∧ (result.state = "rejected" ∨ result.state = "input_required" ∨
        Coincide disp peer result.artifacts result.text) := by
  by_cases hwritable : Writable peer result
  · rw [record_stream h hwritable hopen, record_read h hopen, outcome_eq_iff h,
      and_iff_right hwritable]
  · rw [record_of_not_writable h hwritable, record_read h hopen]
    exact iff_of_false (outcome_reconcile_ne_unknown h.settles).symm fun hand => hwritable hand.1

/-- Artifacts without a common identity coincide exactly when they come to an error that is on the
lists of the handlers, or are all stored, at most one of them has a text, and the text can be
encoded. -/
theorem coincide_of_nodup {artifacts : List Json} {text : String}
    (h : ((peer.named 0 artifacts).map Prod.fst).Nodup) : Coincide disp peer artifacts text ↔
      (∃ e, uploads disp (artifacts.flatMap partsOf) = .error e ∧ e.Listed) ∨
        (∃ files, uploads disp (artifacts.flatMap partsOf) = .ok files) ∧
          (peer.client.texts artifacts).length ≤ 1 ∧ disp.store.encodable text = true := by
  rw [Coincide, retained_of_nodup h]
  cases uploads disp (artifacts.flatMap partsOf) with
  | error e => simp
  | ok files =>
    cases peer.client.texts artifacts with
    | nil => simp
    | cons t ts =>
      have hhead : some t = some (joinLines (t :: ts)) ↔ ts = [] := by
        rw [Option.some.injEq, eq_comm, joinLines_eq_head]
      simp [hhead, List.length_eq_zero_iff]

/-- **The two ways agree** exactly when what the stream keeps can be written, and the task is
refused or its artifacts coincide with what is kept: for artifacts without a common identity, when
they come to an error on the lists of the handlers, or are stored with at most one text, which can
be encoded. -/
theorem record_agrees_iff (h : Terminal disp peer task handle result)
    (hopen : ¬ current.state.Final) :
    (peer.record disp current flow k .submit (.obj [("task", task)]) =
        peer.record disp current flow k (.reconcile handle) task ↔
      Writable peer result ∧ (result.state = "rejected" ∨ result.state = "input_required" ∨
        Coincide disp peer result.artifacts result.text)) ∧
    (((peer.named 0 result.artifacts).map Prod.fst).Nodup →
      (Coincide disp peer result.artifacts result.text ↔
        (∃ e, uploads disp (result.artifacts.flatMap partsOf) = .error e ∧ e.Listed) ∨
          (∃ files, uploads disp (result.artifacts.flatMap partsOf) = .ok files) ∧
            (peer.client.texts result.artifacts).length ≤ 1 ∧
            disp.store.encodable result.text = true)) :=
  ⟨record_eq_iff h hopen, coincide_of_nodup⟩

end

/-- A completed task with one artifact for each text. -/
def textTask (texts : List String) : Json :=
  .obj [("id", .str "t"), ("status", .obj [("state", .str "TASK_STATE_COMPLETED")]),
    ("artifacts", .arr (texts.map fun text => .obj [("artifactId", .str text),
      ("parts", .arr [.obj [("text", .str text)]])]))]

/-- Its result. -/
def textResult (texts : List String) (text : String) : TaskResult :=
  ⟨"t", "", "completed", text, texts.map fun text => .obj [("artifactId", .str text),
    ("parts", .arr [.obj [("text", .str text)]])], textTask texts⟩

theorem terminal_textTask {texts : List String} {text : String}
    (hread : A2AClient.plain.parseTask (textTask texts) "" = .ok (textResult texts text))
    (hfits : snapshotSize (HermesBrokerPeer.plain.retained (textResult texts text).artifacts) text ≤
      16777216) :
    Terminal BrokerDispatcher.default HermesBrokerPeer.plain (textTask texts) "t"
      (textResult texts text) where
  read := hread
  mine := rfl
  saved := by decide +kernel
  settles := rfl
  itemized := by
    intro a ha v hv
    obtain ⟨text, -, rfl⟩ := List.mem_map.mp ha
    exact ⟨_, (Option.some.inj hv).symm⟩
  fits := hfits

/-- The row of the one request, as it reads before the result comes. -/
def runningSnapshot : Snapshot := render (claimedRow (blankRow BrokerStore.default) 0) 0 0

theorem record_agrees_iff_text : HermesBrokerPeer.plain.record BrokerDispatcher.default
    runningSnapshot 2 ("laptop", 1) .submit (.obj [("task", textTask ["x"])]) =
      HermesBrokerPeer.plain.record BrokerDispatcher.default runningSnapshot 2 ("laptop", 1)
        (.reconcile "t") (textTask ["x"]) := by
  have hterminal := @terminal_textTask ["x"] "x" rfl (by decide +kernel)
  obtain ⟨hiff, hnodup⟩ := @record_agrees_iff BrokerDispatcher.default _ _ 2 ("laptop", 1) _ _ _
    hterminal (show ¬ runningSnapshot.state.Final by decide)
  refine hiff.mpr ⟨rfl, .inr (.inr ((hnodup (by decide +kernel)).mpr
    (.inr ⟨⟨[], ?_⟩, by decide +kernel, rfl⟩)))⟩
  rfl

/-- **Two artifacts with a text each** give two texts: all lines by the stream, the first by the
read. -/
theorem two_texts_disagree :
    Terminal BrokerDispatcher.default HermesBrokerPeer.plain (textTask ["x", "y"]) "t"
      (textResult ["x", "y"] "x") ∧
    ¬ runningSnapshot.state.Final ∧
    HermesBrokerPeer.plain.record BrokerDispatcher.default runningSnapshot 2 ("laptop", 1) .submit
        (.obj [("task", textTask ["x", "y"])]) ≠
      HermesBrokerPeer.plain.record BrokerDispatcher.default runningSnapshot 2 ("laptop", 1)
        (.reconcile "t") (textTask ["x", "y"]) :=
  ⟨terminal_textTask rfl (by decide +kernel), by decide, by decide +kernel⟩

end HermesGateway.Peer
