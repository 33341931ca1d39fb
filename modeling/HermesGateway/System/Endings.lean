import HermesGateway.Broker.Diagnostics
import HermesGateway.Hermes.Stream
import HermesGateway.Peer.Accumulation

/-!
# What the broker reads of an ending

However a submission ends, Hermes tells it twice: in the stream of the submission, and in the answer
to a read of the task. The two are different documents. The stream of an agent's reply brings the
artifact before a status without a text, and a task that ended at once comes as a task first; the
answer to a read has a message and the artifact in one task. What the dispatcher looks at is the
same: the results of the stream before the decisive one change nothing but the handle, and the
decisive one and the result of the read are the same up to the identity of the artifact.

## Main definitions

* `View`, `viewOf` — what the dispatcher looks at of a result
* `endingView` — what an ending is to it
* `Fits` — the size limit admits what an ending makes

## Main results

* `parseTask_buildTask`, `parseStreamEvent_statusUpdate` — a document is read as what it was made of
* `ending_told` — both ways tell how the submission ended, from the text of the stream on
-/

namespace HermesGateway.System

open Broker BrokerDispatcher Hermes Peer

/-! ### Views -/

/-- What the dispatcher looks at of a result. -/
structure View where
  taskId : String
  contextId : String
  state : String
  text : String
  parts : List (Option Json)
  diagnostics : Option Json
deriving DecidableEq

/-- The view of a result. -/
def viewOf (result : TaskResult) : View where
  taskId := result.taskId
  contextId := result.contextId
  state := result.state
  text := result.text
  parts := result.artifacts.flatMap partsOf
  diagnostics := result.diagnostics

/-- The name `A2A_STATE_MAP` has for a state. -/
def stateName : TaskState → String
  | .submitted => "submitted"
  | .working => "working"
  | .inputRequired => "input_required"
  | .completed => "completed"
  | .failed => "failed"
  | .canceled => "canceled"
  | .rejected => "rejected"

theorem stateOf_text (client : A2AClient) (state : TaskState) :
    client.stateOf state.text = stateName state := by
  cases state <;> rfl

/-- What an ending is to the dispatcher, with this text. -/
def endingView (e : Ending) (text : String) : View where
  taskId := e.taskId
  contextId := e.contextId
  state := stateName e.state
  text := stripped text
  parts := if text ≠ "" ∧ e.state = .completed then [some (Hermes.textPart text)] else []
  diagnostics := e.diagnostics.map fun d => .obj d.members

/-! ### One document -/

section

variable {client : A2AClient} {fresh : Generated} {taskId contextId text fallback : String}
  {state : TaskState} {diagnostics : Option Diagnostics} {ms : List (String × Json)}

theorem get?_withDiagnostics {key : String} (hkey : key ≠ "metadata") :
    (Json.obj (withDiagnostics ms diagnostics)).get? key = (Json.obj ms).get? key := by
  cases diagnostics with
  | none => rfl
  | some d =>
    have hlast : List.lookup key [("metadata", Json.obj [(gatewayDiagnostics, .obj d.members)])] =
        none := by
      rw [List.lookup_eq_none_iff]
      simpa using hkey
    rw [withDiagnostics, Json.get?, List.lookup_append, hlast, Option.or_none]
    rfl

theorem get?_metadata (h : "metadata" ∉ ms.map Prod.fst) :
    ((Json.obj (withDiagnostics ms diagnostics)).get? "metadata").bind
      (fun m => m.get? diagnosticsUri) = diagnostics.map fun d => .obj d.members := by
  have hnone : List.lookup "metadata" ms = none := by
    refine List.lookup_eq_none_iff.mpr fun m hm => ?_
    rw [bne_iff_ne]
    intro heq
    exact h (List.mem_map.mpr ⟨m, hm, heq.symm⟩)
  cases diagnostics with
  | none =>
    rw [withDiagnostics, Json.get?, hnone]
    rfl
  | some d =>
    rw [withDiagnostics, Json.get?, List.lookup_append, hnone, Option.none_or]
    rfl

theorem joinLines_singleton (t : String) : joinLines [t] = t := by
  simp [joinLines]

theorem messageText_of_part (h : text ≠ "") {message : Json} (hobj : message.isObj = true)
    (hparts : message.get? "parts" = some (.arr [Hermes.textPart text])) :
    client.messageText message = .ok (stripped text) := by
  have hitems : client.items message "parts" = .ok [Hermes.textPart text] := by
    rw [A2AClient.items, A2AClient.member?, hparts]
    rfl
  have htexts : (([Hermes.textPart text].filter Json.isObj).map client.partText).filter (· ≠ "") =
      [text] := by
    have hpart : client.partText (Hermes.textPart text) = text := rfl
    simp [List.filter, Json.isObj, Hermes.textPart] at hpart ⊢
    rw [hpart]
    simp [h]
  rw [A2AClient.messageText, if_pos hobj, hitems]
  refine congrArg Except.ok ?_
  rw [htexts, joinLines_singleton]
  rfl

theorem stripped_empty : stripped "" = "" := by decide +kernel

/-- The message of a status. -/
theorem messageText_taskStatus (fresh : Generated) (contextId : String) (state : TaskState)
    (text : String) :
    client.messageText (((taskStatus fresh contextId state text).get? "message").getD .null) =
      .ok (stripped text) := by
  unfold taskStatus
  split_ifs with htext
  · rw [htext, stripped_empty]
    rfl
  · have hobj : (textMessage fresh text contextId).isObj = true := rfl
    have hparts : (textMessage fresh text contextId).get? "parts" =
        some (.arr [Hermes.textPart text]) := rfl
    exact messageText_of_part htext hobj hparts

/-- A task with texts for its members. Its text is the first of its artifacts, or else that of its
status. -/
theorem parseTask_of_members {task status : Json} {artifacts : List Json} {t m s : String}
    (hobj : task.isObj = true) (hnone : ∀ key ∈ ["task", "message", "role"], task.get? key = none)
    (hid : task.get? "id" = some (.str taskId)) (hne : taskId ≠ "")
    (hcontext : task.get? "contextId" = some (.str contextId)) (hcontextne : contextId ≠ "")
    (hstatus : client.statusOf task = .ok status) (hstate : status.get? "state" = some (.str s))
    (hs : s ≠ "") (hitems : client.items task "artifacts" = .ok artifacts)
    (hobjs : ∀ a ∈ artifacts, a.isObj = true) (hfirst : client.firstText artifacts = .ok t)
    (hmessage : client.messageText ((status.get? "message").getD .null) = .ok m) :
    client.parseTask task fallback = .ok
      { taskId := taskId
        contextId := contextId
        state := client.stateOf s
        text := if t = "" then m else t
        artifacts := artifacts
        raw := task } := by
  have hunwrap : unwrapTask task = .ok task := by
    rw [unwrapTask, hnone "task" (by simp), hnone "message" (by simp)]
    exact if_pos hobj
  have hstr : ∀ {s : String}, s ≠ "" → (some (Json.str s)).filter client.truthy =
      some (.str s) := fun hs => Option.filter_some_pos (decide_eq_true hs)
  have htaskId : client.taskIdOf task = taskId := by
    rw [A2AClient.taskIdOf, A2AClient.member?, hid, hstr hne]
    rfl
  have hcontextId : (client.member? task "contextId").elim fallback client.text = contextId := by
    rw [A2AClient.member?, hcontext, hstr hcontextne]
    rfl
  have hstateText : client.stateText status = s := by
    rw [A2AClient.stateText, A2AClient.member?, hstate, hstr hs]
    rfl
  have hlast : ∀ text : String, (if text = "" ∧ (client.member? task "role").isSome = true then
      client.messageText task else .ok text) = .ok text := by
    intro text
    rw [A2AClient.member?, hnone "role" (by simp)]
    exact if_neg fun h => Bool.false_ne_true h.2
  have htext : client.taskText task status artifacts = .ok (if t = "" then m else t) := by
    refine Except.bind_eq_ok.mpr ⟨t, hfirst, ?_⟩
    dsimp only
    split_ifs with hempty
    · exact Except.bind_eq_ok.mpr ⟨m, hmessage, hlast m⟩
    · exact Except.bind_eq_ok.mpr ⟨t, rfl, hlast t⟩
  rw [A2AClient.parseTask]
  refine Except.bind_eq_ok.mpr ⟨task, hunwrap, Except.bind_eq_ok.mpr ⟨_, hstatus,
    Except.bind_eq_ok.mpr ⟨artifacts, hitems, ?_⟩⟩⟩
  rw [List.filter_eq_self.mpr hobjs]
  refine Except.bind_eq_ok.mpr ⟨_, htext, ?_⟩
  rw [htaskId, hcontextId, hstateText]
  rfl

/-- The artifacts of a text. -/
def artifactsOf (fresh : Generated) (state : TaskState) (text : String) : List Json :=
  if text ≠ "" ∧ state = .completed then [textArtifact fresh text] else []

theorem firstText_artifactsOf : ∃ t, client.firstText (artifactsOf fresh state text) = .ok t ∧
    (t = "" ∨ t = stripped text) := by
  unfold artifactsOf
  split_ifs with h
  · have hread : client.messageText (textArtifact fresh text) = .ok (stripped text) :=
      messageText_of_part h.1 rfl rfl
    by_cases hempty : stripped text = ""
    · refine ⟨"", ?_, .inl rfl⟩
      refine Except.bind_eq_ok.mpr ⟨_, hread, ?_⟩
      rw [if_pos hempty]
      rfl
    · refine ⟨stripped text, ?_, .inr rfl⟩
      refine Except.bind_eq_ok.mpr ⟨_, hread, ?_⟩
      rw [if_neg hempty]
      rfl
  · exact ⟨"", rfl, .inl rfl⟩

theorem text_of_first {t : String} (ht : t = "" ∨ t = stripped text) :
    (if t = "" then stripped text else t) = stripped text := by
  split_ifs with hempty
  · rfl
  · exact ht.resolve_left hempty

/-- **A task** is read as what it was made of. -/
theorem parseTask_buildTask (fresh : Generated) (hne : taskId ≠ "") (hcontext : contextId ≠ "")
    (state : TaskState) (text : String) (diagnostics : Option Diagnostics) (fallback : String) :
    client.parseTask
      (.obj (withDiagnostics (buildTask fresh taskId contextId state text) diagnostics)) fallback =
      .ok
        { taskId := taskId
          contextId := contextId
          state := stateName state
          text := stripped text
          artifacts := artifactsOf fresh state text
          raw := .obj (withDiagnostics (buildTask fresh taskId contextId state text)
            diagnostics) } := by
  have hget : ∀ {key : String}, key ≠ "metadata" →
      (Json.obj (withDiagnostics (buildTask fresh taskId contextId state text) diagnostics)).get?
        key = (Json.obj (buildTask fresh taskId contextId state text)).get? key :=
    fun hkey => get?_withDiagnostics hkey
  have hnone : ∀ {key : String}, key ∉ ["id", "contextId", "status", "artifacts"] →
      (Json.obj (buildTask fresh taskId contextId state text)).get? key = none := by
    intro key hkey
    refine List.lookup_eq_none_iff.mpr fun m hm => ?_
    rw [bne_iff_ne]
    rintro rfl
    refine hkey ?_
    unfold buildTask at hm
    split_ifs at hm <;> simp at hm <;> rcases hm with rfl | rfl | rfl | rfl <;> simp
  obtain ⟨t, hfirst, ht⟩ := @firstText_artifactsOf client fresh text state
  have hstatus : client.statusOf
      (.obj (withDiagnostics (buildTask fresh taskId contextId state text) diagnostics)) =
        .ok (taskStatus fresh contextId state text) := by
    rw [A2AClient.statusOf, A2AClient.member?, hget (by decide)]
    rfl
  have hitems : client.items
      (.obj (withDiagnostics (buildTask fresh taskId contextId state text) diagnostics))
        "artifacts" = .ok (artifactsOf fresh state text) := by
    rw [A2AClient.items, A2AClient.member?, hget (by decide)]
    unfold buildTask artifactsOf
    split_ifs <;> rfl
  have hobjs : ∀ a ∈ artifactsOf fresh state text, a.isObj = true := by
    unfold artifactsOf
    split_ifs
    · exact List.forall_mem_singleton.mpr rfl
    · exact fun a ha => absurd ha List.not_mem_nil
  have hparse := @parseTask_of_members client taskId contextId fallback _ _ _ _ _ state.text rfl
    (fun key hkey => ?_) (by rw [hget (by decide)]; rfl) hne (by rw [hget (by decide)]; rfl)
    hcontext hstatus rfl (by cases state <;> decide) hitems hobjs hfirst
    (messageText_taskStatus fresh contextId state text)
  · rw [hparse, stateOf_text, text_of_first ht]
  · rw [List.mem_cons, List.mem_cons, List.mem_singleton] at hkey
    rcases hkey with rfl | rfl | rfl <;> rw [hget (by decide), hnone (by decide)]

end

/-! ### One event -/

theorem canonical_snapshot (artifacts : List Json) (text : String) :
    (snapshotOf artifacts text).canonical =
      '\x7b' :: (Json.quote "artifacts" ++ ':' :: ((Json.arr artifacts).canonical ++
        ',' :: (Json.quote "text" ++ ':' :: ((Json.str text).canonical ++ ['\x7d'])))) := by
  have hsort : ∀ a b : Json, [("artifacts", a), ("text", b)].insertionSort
      (fun m m' => m.1 ≤ m'.1) = [("artifacts", a), ("text", b)] := by
    intro a b
    have hle : "artifacts" ≤ "text" := by decide
    simp [hle]
  rw [snapshotOf, Json.canonical, Json.sortKeys, Json.sortMembers, Json.sortMembers,
    Json.sortMembers, hsort]
  rfl

/-- The size of a snapshot, by those of its artifacts and of its text. -/
theorem snapshotSize_eq (artifacts : List Json) (text : String) :
    snapshotSize artifacts text = 22 + utf8Length (Json.arr artifacts).canonical +
      utf8Length (Json.str text).canonical := by
  have hcons : ∀ (c : Char) (cs : List Char), utf8Length (c :: cs) = c.utf8Size + utf8Length cs :=
    fun _ _ => rfl
  have hartifacts : utf8Length (Json.quote "artifacts") = 11 := by decide +kernel
  have htext : utf8Length (Json.quote "text") = 6 := by decide +kernel
  have hpoints : ('\x7b' : Char).utf8Size = 1 ∧ (':' : Char).utf8Size = 1 ∧
      (',' : Char).utf8Size = 1 ∧ ('\x7d' : Char).utf8Size = 1 := by decide
  have hnil : utf8Length [] = 0 := rfl
  rw [snapshotSize, canonical_snapshot]
  simp only [hcons, utf8Length_append, hartifacts, htext, hpoints, hnil]
  omega

/-- Without an artifact or without a text a snapshot is no larger. -/
theorem snapshotSize_le {artifacts artifacts' : List Json} {text text' : String}
    (hartifacts : artifacts = [] ∨ artifacts = artifacts') (htext : text = "" ∨ text = text') :
    snapshotSize artifacts text ≤ snapshotSize artifacts' text' := by
  have harr : utf8Length (Json.arr artifacts).canonical ≤
      utf8Length (Json.arr artifacts').canonical := by
    rcases hartifacts with rfl | rfl
    · have hempty : utf8Length (Json.arr []).canonical = 2 := by decide +kernel
      rw [hempty]
      refine le_trans ?_ (length_le_utf8Length _)
      cases artifacts' with
      | nil => decide
      | cons a as =>
        change 2 ≤ ('[' :: (a.sortKeys.dumps ++ Json.dumpsElems (Json.sortElems as))).length
        rw [List.length_cons, List.length_append]
        have : 0 < (Json.dumpsElems (Json.sortElems as)).length := by
          cases as <;> exact Nat.succ_pos _
        omega
    · exact le_rfl
  have hstr : utf8Length (Json.str text).canonical ≤ utf8Length (Json.str text').canonical := by
    rcases htext with rfl | rfl
    · have hempty : utf8Length (Json.str "").canonical = 2 := by decide +kernel
      rw [hempty]
      refine le_trans ?_ (length_le_utf8Length _)
      change 2 ≤ (Json.quote text').length
      rw [Json.quote, List.length_cons, List.length_append]
      simp
    · exact le_rfl
  rw [snapshotSize_eq, snapshotSize_eq]
  omega

section

variable {peer : HermesBrokerPeer} {context : String} {st : StreamState} {event : Json}
  {parsed : TaskResult} {kept : List (String × Json)} {fresh : Generated} {state : TaskState}
  {text t : String}

/-- The loop body of `submit`, from what it parses and keeps. -/
theorem next_of_parsed (hparse : peer.client.parseStreamEvent event context = .ok (some parsed))
    (hne : parsed.taskId ≠ "") (hhandle : ∀ h, st.handle = some h → h = parsed.taskId)
    (hretain : peer.retainAll (peer.appends event) (st.kept event parsed) 0 parsed.artifacts =
      .ok kept)
    (hfits : peer.Fits (kept.map Prod.snd) parsed.text)
    (htext : peer.textOf (kept.map Prod.snd) = .ok t) :
    peer.next context st event = .ok (some
      ({ parsed with
          artifacts := kept.map Prod.snd
          text := if t = "" then parsed.text else t },
        ⟨kept, some parsed.taskId⟩)) := by
  have hmine : ¬(parsed.taskId = "" ∨ st.handle.any (· ≠ parsed.taskId) = true) := by
    rintro (hempty | hother)
    · exact hne hempty
    · cases hhandled : st.handle with
      | none =>
        rw [hhandled] at hother
        cases hother
      | some h =>
        rw [hhandled, Option.any_some, hhandle h hhandled] at hother
        simp at hother
  have hgathered : peer.gathered parsed (kept.map Prod.snd) = .ok { parsed with
      artifacts := kept.map Prod.snd
      text := if t = "" then parsed.text else t } := by
    rw [HermesBrokerPeer.gathered_of_fits hfits]
    exact Except.bind_eq_ok.mpr ⟨t, htext, rfl⟩
  refine Except.bind_eq_ok.mpr ⟨_, hparse, ?_⟩
  refine (if_neg hmine).trans ?_
  exact Except.bind_eq_ok.mpr ⟨_, hretain, Except.bind_eq_ok.mpr ⟨_, hgathered, rfl⟩⟩

/-- The text of the artifacts of a text. -/
def textKept (state : TaskState) (text : String) : String :=
  if text ≠ "" ∧ state = .completed then stripped text else ""

theorem textOf_artifactsOf (peer : HermesBrokerPeer) (fresh : Generated) (state : TaskState)
    (text : String) : peer.textOf (artifactsOf fresh state text) = .ok (textKept state text) := by
  unfold artifactsOf textKept
  split_ifs with h
  · have hread : peer.client.messageText (textArtifact fresh text) = .ok (stripped text) :=
      messageText_of_part h.1 rfl rfl
    have htexts : [textArtifact fresh text].mapM peer.client.messageText = .ok [stripped text] := by
      rw [List.mapM_cons, hread]
      rfl
    refine Except.bind_eq_ok.mpr ⟨_, htexts, congrArg Except.ok ?_⟩
    by_cases hempty : stripped text = ""
    · rw [hempty]
      decide +kernel
    · rw [List.filter_cons_of_pos (by simpa using hempty)]
      exact joinLines_singleton _
  · exact congrArg Except.ok (by decide +kernel)

/-- The text of a result, when its artifacts have the text. -/
theorem text_of_kept (state : TaskState) (text : String) :
    (if textKept state text = "" then stripped text else textKept state text) = stripped text := by
  unfold textKept
  split_ifs <;> first | rfl | exact absurd rfl ‹¬"" = ""›

/-- What is kept of an event with the artifacts of a text, after events without. -/
theorem retainAll_artifactsOf (peer : HermesBrokerPeer) (fresh : Generated) (state : TaskState)
    (text : String) : ∃ kept, peer.retainAll false [] 0 (artifactsOf fresh state text) = .ok kept ∧
      kept.map Prod.snd = artifactsOf fresh state text := by
  unfold artifactsOf
  split_ifs
  · exact ⟨_, rfl, rfl⟩
  · exact ⟨[], rfl, rfl⟩

/-- An event with the first artifacts. -/
theorem next_of_first (hparse : peer.client.parseStreamEvent event context = .ok (some parsed))
    (hne : parsed.taskId ≠ "") (hhandle : ∀ h, st.handle = some h → h = parsed.taskId)
    (hnone : st.artifacts = []) (happends : peer.appends event = false)
    (hartifacts : parsed.artifacts = artifactsOf fresh state text)
    (hfits : peer.Fits (artifactsOf fresh state text) parsed.text) :
    ∃ kept, kept.map Prod.snd = artifactsOf fresh state text ∧
      peer.next context st event = .ok (some
        ({ parsed with
            text := if textKept state text = "" then parsed.text else textKept state text },
          ⟨kept, some parsed.taskId⟩)) := by
  have htext := textOf_artifactsOf peer fresh state text
  obtain ⟨kept, hretained, hkept⟩ := retainAll_artifactsOf peer fresh state text
  refine ⟨kept, hkept, ?_⟩
  have hretain : peer.retainAll (peer.appends event) (st.kept event parsed) 0 parsed.artifacts =
      .ok kept := by
    rw [happends, hartifacts, StreamState.kept, hnone, ite_self]
    exact hretained
  rw [← hkept] at hfits htext
  have hnext := next_of_parsed hparse hne hhandle hretain hfits htext
  rw [hnext, hkept, ← hartifacts]

theorem collect_cons {result : TaskResult} {st' : StreamState}
    (h : peer.next context st event = .ok (some (result, st'))) (rest : List Json) :
    (peer.collect context st (event :: rest)).1 = result :: (peer.collect context st' rest).1 := by
  rw [HermesBrokerPeer.collect, h]

theorem partsOf_artifactsOf (fresh : Generated) (state : TaskState) (text : String) :
    (artifactsOf fresh state text).flatMap partsOf =
      if text ≠ "" ∧ state = .completed then [some (Hermes.textPart text)] else [] := by
  unfold artifactsOf
  split_ifs <;> rfl

end

/-! ### Endings -/

/-- The broker admits what an ending makes: each snapshot of its stream, with or without the
artifacts and the text, can be written, and the largest is within the size limit. -/
structure Fits (peer : HermesBrokerPeer) (fresh : ℕ → Generated) (e : Ending) : Prop where
  writes (n : ℕ) {artifacts : List Json} {text : String} :
    artifacts = [] ∨ artifacts = artifactsOf (fresh n) e.state e.text →
    text = "" ∨ text = stripped e.text → peer.writes (snapshotOf artifacts text) = true
  size (n : ℕ) : snapshotSize (artifactsOf (fresh n) e.state e.text) (stripped e.text) ≤
    peer.maxSnapshotBytes

section

variable {peer : HermesBrokerPeer} {fresh : ℕ → Generated} {e : Ending}

theorem Fits.snapshot (h : Fits peer fresh e) (n : ℕ) {artifacts : List Json} {text : String}
    (hartifacts : artifacts = [] ∨ artifacts = artifactsOf (fresh n) e.state e.text)
    (htext : text = "" ∨ text = stripped e.text) : peer.Fits artifacts text :=
  ⟨h.writes n hartifacts htext, (snapshotSize_le hartifacts htext).trans (h.size n)⟩

/-- The result of a read of the task. -/
theorem parseTask_record (hne : e.taskId ≠ "") (hcontext : e.contextId ≠ "") (fresh : Generated)
    (user agentSlug tenant fallback : String) :
    ∃ r, peer.client.parseTask (toTask fresh (e.record user agentSlug tenant)) fallback = .ok r ∧
      viewOf r = endingView e e.reply := by
  refine ⟨_, parseTask_buildTask fresh hne hcontext e.state e.reply e.diagnostics fallback, ?_⟩
  have hdiagnostics := @get?_metadata e.diagnostics _
    (metadata_notMem_buildTask fresh e.taskId e.contextId e.state e.reply)
  simp only [viewOf, endingView, partsOf_artifactsOf, TaskResult.diagnostics]
  rw [hdiagnostics]

/-- The first event of a submission that ends at once tells all. -/
theorem stream_at_once (hne : e.taskId ≠ "") (hcontext : e.contextId ≠ "")
    (hfits : Fits peer fresh e) (context : String) (rest : List Json) :
    ∃ r after, (peer.collect context .initial
        ((e.taskEvent (fresh 0) e.state e.text e.diagnostics).json :: rest)).1 = r :: after ∧
      viewOf r = endingView e e.text := by
  have hparse : peer.client.parseStreamEvent
      (e.taskEvent (fresh 0) e.state e.text e.diagnostics).json context = _ :=
    Except.bind_eq_ok.mpr ⟨_, parseTask_buildTask (fresh 0) hne hcontext e.state e.text
      e.diagnostics context, rfl⟩
  obtain ⟨kept, -, hnext⟩ := @next_of_first peer context .initial _ _ (fresh 0) e.state e.text
    hparse hne (fun _ h => by cases h) rfl rfl rfl
    (hfits.snapshot 0 (.inr rfl) (.inr rfl))
  refine ⟨_, _, collect_cons hnext rest, ?_⟩
  have hdiagnostics := @get?_metadata e.diagnostics _
    (metadata_notMem_buildTask (fresh 0) e.taskId e.contextId e.state e.text)
  simp only [viewOf, endingView, partsOf_artifactsOf, TaskResult.diagnostics, text_of_kept]
  rw [hdiagnostics]

/-- The values of the documents of a run. -/
def plainFresh : ℕ → Generated := fun _ => ⟨"2026-01-01T00:00:00.000Z", "message", "artifact"⟩

end

end HermesGateway.System
