import HermesGateway.Hermes.Tasks
import HermesGateway.Peer.Sse

/-!
# What Hermes answers

The documents Hermes makes of a task, with the changes of the patch: the task itself, as it answers
a read, and the events of the stream of a submission.

A submission ends in one of two ways. It is ended at once, because it is refused or because another
profile has answered it; the stream begins with the terminal task then. Or it is handed to an agent,
and the stream begins with a task that is submitted and goes on when the agent has replied. Either
way the task is stored as it ended; only the text of some refusals is not.

A document takes a time and random identifiers with it. They are parameters, for each document of a
stream by its position.

## Main definitions

* `buildTask`, `statusUpdate`, `artifactUpdate` — the documents
* `toTask` — the answer to a read
* `Ending`, `Ending.events` — how a submission ends, and the events of its stream
* `messageStream` — the text of the stream
-/

namespace HermesGateway.Hermes

open Peer

/-! ### Documents -/

/-- What a document takes from the clock and from `uuid4`. -/
structure Generated where
  timestamp : String
  messageId : String
  artifactId : String

/-- `GATEWAY_DIAGNOSTICS`. -/
def gatewayDiagnostics : String :=
  "https://github.com/phamviet86/hermes-a2a-gateway/extensions/diagnostics/v1"

/-- `text_part`. -/
def textPart (text : String) : Json :=
  .obj [("text", .str text), ("mediaType", .str "text/plain")]

/-- `text_message`, with the role of the agent. -/
def textMessage (fresh : Generated) (text contextId : String) : Json :=
  .obj ([("role", .str "ROLE_AGENT"), ("parts", .arr [textPart text]),
    ("messageId", .str fresh.messageId)] ++
      if contextId = "" then [] else [("contextId", .str contextId)])

/-- The status of a task, with a message if there is a text. -/
def taskStatus (fresh : Generated) (contextId : String) (state : TaskState) (text : String) :
    Json :=
  .obj ([("state", .str state.text), ("timestamp", .str fresh.timestamp)] ++
    if text = "" then [] else [("message", textMessage fresh text contextId)])

/-- An artifact with a text. -/
def textArtifact (fresh : Generated) (text : String) : Json :=
  .obj [("artifactId", .str fresh.artifactId), ("parts", .arr [textPart text])]

/-- The members with the diagnostics in the metadata, if there are any. -/
def withDiagnostics (members : List (String × Json)) : Option Diagnostics → List (String × Json)
  | none => members
  | some d => members ++ [("metadata", .obj [(gatewayDiagnostics, .obj d.members)])]

/-- `build_task`. -/
def buildTask (fresh : Generated) (taskId contextId : String) (state : TaskState) (text : String) :
    List (String × Json) :=
  [("id", .str taskId), ("contextId", .str contextId),
    ("status", taskStatus fresh contextId state text)] ++
      if text ≠ "" ∧ state = .completed then [("artifacts", .arr [textArtifact fresh text])] else []

/-- `to_task`, with the artifacts. -/
def toTask (fresh : Generated) (r : TaskRecord) : Json :=
  .obj (withDiagnostics (buildTask fresh r.taskId r.contextId r.state r.reply) r.diagnostics)

/-- `status_update`, with the diagnostics `_emit_terminal` adds. -/
def statusUpdate (fresh : Generated) (taskId contextId : String) (state : TaskState) (text : String)
    (diagnostics : Option Diagnostics) : List (String × Json) :=
  [("statusUpdate", .obj (withDiagnostics [("taskId", .str taskId), ("contextId", .str contextId),
    ("status", taskStatus fresh contextId state text)] diagnostics))]

/-- `artifact_update`. -/
def artifactUpdate (fresh : Generated) (taskId contextId text : String) : List (String × Json) :=
  [("artifactUpdate", .obj [("taskId", .str taskId), ("contextId", .str contextId),
    ("artifact", textArtifact fresh text)])]

/-- `stream_task`. -/
def streamTask (task : List (String × Json)) : List (String × Json) := [("task", .obj task)]

/-- `text.strip()`. -/
def stripped (text : String) : String := String.ofList (strip text.toList)

/-! ### Well-formed documents -/

theorem sound_members (d : Diagnostics) : (Json.obj d.members).Sound := by
  cases d with
  | rateLimited denial sound =>
    exact ⟨by simp [Diagnostics.members], trivial, trivial, trivial, sound, trivial, trivial,
      trivial⟩
  | turnLimit => simp [Diagnostics.members, Json.Sound, Json.SoundMembers]

theorem sound_single {key : String} {v : Json} (h : v.Sound) : (Json.obj [(key, v)]).Sound :=
  ⟨List.nodup_singleton key, h, trivial⟩

theorem sound_textMessage (fresh : Generated) (text contextId : String) :
    (textMessage fresh text contextId).Sound := by
  unfold textMessage
  split_ifs <;> simp [Json.Sound, Json.SoundMembers, Json.SoundElems, textPart]

theorem sound_taskStatus (fresh : Generated) (contextId : String) (state : TaskState)
    (text : String) : (taskStatus fresh contextId state text).Sound := by
  unfold taskStatus
  split_ifs <;> simp [Json.Sound, Json.SoundMembers, sound_textMessage]

theorem sound_textArtifact (fresh : Generated) (text : String) :
    (textArtifact fresh text).Sound := by
  simp [textArtifact, Json.Sound, Json.SoundMembers, Json.SoundElems, textPart]

/-- Diagnostics are put under a key that is not in use yet. -/
theorem sound_withDiagnostics {ms : List (String × Json)} (h : (Json.obj ms).Sound)
    (hkey : "metadata" ∉ ms.map Prod.fst) (diagnostics : Option Diagnostics) :
    (Json.obj (withDiagnostics ms diagnostics)).Sound := by
  cases diagnostics with
  | none => exact h
  | some d =>
    obtain ⟨hnodup, hsound⟩ := h
    refine ⟨?_, ?_⟩
    · rw [withDiagnostics, List.map_append]
      exact hnodup.append (List.nodup_singleton _) (by simpa using hkey)
    · have hmembers : (Json.obj [(gatewayDiagnostics, .obj d.members)]).Sound :=
        sound_single (sound_members d)
      clear hnodup hkey
      induction ms with
      | nil => exact ⟨hmembers, trivial⟩
      | cons m ms ih => exact ⟨hsound.1, ih hsound.2⟩

theorem sound_buildTask (fresh : Generated) (taskId contextId : String) (state : TaskState)
    (text : String) : (Json.obj (buildTask fresh taskId contextId state text)).Sound := by
  unfold buildTask
  split_ifs <;>
    simp [Json.Sound, Json.SoundMembers, Json.SoundElems, sound_taskStatus, sound_textArtifact]

theorem metadata_notMem_buildTask (fresh : Generated) (taskId contextId : String)
    (state : TaskState) (text : String) :
    "metadata" ∉ (buildTask fresh taskId contextId state text).map Prod.fst := by
  unfold buildTask
  split_ifs <;> simp

theorem sound_statusUpdate (fresh : Generated) (taskId contextId : String) (state : TaskState)
    (text : String) (diagnostics : Option Diagnostics) :
    (Json.obj (statusUpdate fresh taskId contextId state text diagnostics)).Sound := by
  refine sound_single (sound_withDiagnostics ?_ (by simp) diagnostics)
  simp [Json.Sound, Json.SoundMembers, sound_taskStatus]

theorem sound_artifactUpdate (fresh : Generated) (taskId contextId text : String) :
    (Json.obj (artifactUpdate fresh taskId contextId text)).Sound := by
  refine sound_single ?_
  simp [Json.Sound, Json.SoundMembers, sound_textArtifact]

/-! ### Events -/

/-- How the end of a submission comes about: `_end_task` refuses it, with the reply it stores if
there are no diagnostics, and with what `_emit_terminal` finds of them in the store; another profile
has answered; or `_finalize_task` has the reply of an agent. -/
inductive Way
  | ended (storedReply : String) (diagnostics found : Option Diagnostics)
  | forwarded
  | finalized
deriving DecidableEq

/-- How a submission ends. -/
structure Ending where
  taskId : String
  contextId : String
  state : TaskState
  text : String
  way : Way
  settled : state ≠ .submitted ∧ state ≠ .working

/-- An event of a stream. -/
structure Event where
  members : List (String × Json)
  sound : (Json.obj members).Sound

/-- The event as a value. -/
def Event.json (event : Event) : Json := .obj event.members

namespace Ending

variable (e : Ending) (fresh : ℕ → Generated)

/-- The diagnostics of the task. -/
def diagnostics : Option Diagnostics :=
  match e.way with
  | .ended _ diagnostics _ => diagnostics
  | .forwarded | .finalized => none

/-- The diagnostics `_emit_terminal` adds. -/
def found : Option Diagnostics :=
  match e.way with
  | .ended _ _ found => found
  | .forwarded | .finalized => none

/-- The reply that is stored. -/
def reply : String :=
  match e.way with
  | .ended storedReply diagnostics _ => if diagnostics.isSome then e.text else storedReply
  | .forwarded | .finalized => e.text

/-- What is stored. -/
def record (peer agentSlug tenant : String) : TaskRecord where
  taskId := e.taskId
  contextId := e.contextId
  peer := peer
  agentSlug := agentSlug
  tenant := tenant
  state := e.state
  reply := e.reply
  diagnostics := e.diagnostics

/-- The task of an event. -/
def taskEvent (fresh : Generated) (state : TaskState) (text : String)
    (diagnostics : Option Diagnostics) : Event :=
  ⟨streamTask (withDiagnostics (buildTask fresh e.taskId e.contextId state text) diagnostics),
    sound_single <| sound_withDiagnostics (sound_buildTask ..)
      (metadata_notMem_buildTask _ _ _ _ _) _⟩

/-- A status of the task, as an event. -/
def statusEvent (fresh : Generated) (state : TaskState) (text : String)
    (diagnostics : Option Diagnostics) : Event :=
  ⟨statusUpdate fresh e.taskId e.contextId state text diagnostics, sound_statusUpdate ..⟩

/-- An artifact of the task, as an event. -/
def artifactEvent (fresh : Generated) (text : String) : Event :=
  ⟨artifactUpdate fresh e.taskId e.contextId text, sound_artifactUpdate ..⟩

/-- `_emit_terminal`. -/
def emitTerminal (text : String) : List Event :=
  if text ≠ "" ∧ e.state = .completed then
    [e.artifactEvent (fresh 2) text, e.statusEvent (fresh 3) e.state "" e.found]
  else [e.statusEvent (fresh 3) e.state text e.found]

/-- What comes before the reply of an agent, or before the end of what ends at once. -/
def opening : List Event :=
  match e.way with
  | .ended _ _ _ | .forwarded => [e.taskEvent (fresh 0) e.state e.text e.diagnostics]
  | .finalized =>
    [e.taskEvent (fresh 0) .submitted "" none, e.statusEvent (fresh 1) .working "" none]

/-- What comes after it. The text of a task that ended at once goes through `extract_text`. -/
def closing : List Event :=
  match e.way with
  | .ended _ _ _ | .forwarded => e.emitTerminal fresh (stripped e.text)
  | .finalized => e.emitTerminal fresh e.text

/-- The events of the stream. -/
def events : List Event := e.opening fresh ++ e.closing fresh

end Ending

/-! ### The text of the stream -/

/-- `sse_data`, of an event. -/
def sseData (id : String) (event : Event) : SseChunk :=
  .data (jsonrpcResult id event.json event.sound)

theorem unbroken_keepalive : ∀ c ∈ " keepalive".toList, isLineBreak c = false := by decide +kernel

theorem unbroken_done : ∀ c ∈ " done".toList, isLineBreak c = false := by decide +kernel

/-- What is written while an agent has the task. -/
def keepalive : List SseChunk := [.comment ⟨_, unbroken_keepalive⟩, .blank]

/-- `sse_done`. -/
def sseDone : List SseChunk := [.comment ⟨_, unbroken_done⟩, .blank]

/-- The stream of a submission, with a number of lines to keep it alive. -/
def messageStream (id : String) (keepalives : ℕ) (fresh : ℕ → Generated) (e : Ending) :
    List SseChunk :=
  (e.opening fresh).map (sseData id) ++
    (List.replicate (if e.way = .finalized then keepalives else 0) keepalive).flatten ++
      (e.closing fresh).map (sseData id) ++ sseDone

/-! ### The stream is read -/

section

variable {client : A2AClient} {id : String} {chunks : List SseChunk}

/-- A stream of unbroken answers is read whole. -/
theorem sse_of_unbroken (h : ∀ e ∈ envelopes chunks, e.Answers id ∧ e.result.isObj = true ∧
    e.Unbroken) :
    client.sse "SendStreamingMessage" id (sseText chunks) =
      ((envelopes chunks).map Envelope.result, none) := by
  induction chunks with
  | nil => simp [envelopes, sseText, A2AClient.sse, splitlines, splitFrom, A2AClient.sseLines]
  | cons chunk chunks ih =>
    cases chunk with
    | data e =>
      obtain ⟨⟨hans, hobj, hbreak⟩, hrest⟩ := List.forall_mem_cons.mp h
      have htext : sseText (.data e :: chunks) = (SseChunk.data e).text ++ sseText chunks :=
        List.flatMap_cons
      rw [htext, sse_unbroken hbreak, sseEnvelope_answers hans hobj, ih hrest]
      rfl
    | comment s =>
      have htext : sseText (.comment s :: chunks) = ':' :: s.val ++ '\n' :: sseText chunks := by
        simp [sseText, SseChunk.text]
      have hline : ∀ c ∈ ':' :: s.val, isLineBreak c = false :=
        List.forall_mem_cons.mpr ⟨by decide, s.property⟩
      rw [htext, sse_skip hline (sseLine_comment s.val)]
      exact ih h
    | blank =>
      have htext : sseText (.blank :: chunks) = '\n' :: sseText chunks := rfl
      rw [htext, sse_blank]
      exact ih h

theorem envelopes_append (chunks chunks' : List SseChunk) :
    envelopes (chunks ++ chunks') = envelopes chunks ++ envelopes chunks' := by
  induction chunks with
  | nil => rfl
  | cons chunk chunks ih => cases chunk <;> simp [envelopes, ih]

theorem envelopes_map (id : String) (events : List Event) :
    envelopes (events.map (sseData id)) =
      events.map fun event => jsonrpcResult id event.json event.sound := by
  induction events with
  | nil => rfl
  | cons event events ih => rw [List.map_cons, sseData, envelopes, ih, List.map_cons]

theorem envelopes_keepalives (n : ℕ) : envelopes (List.replicate n keepalive).flatten = [] := by
  induction n with
  | zero => rfl
  | succ n ih => rw [List.replicate_succ, List.flatten_cons, envelopes_append, ih]; rfl

/-- The envelopes of the stream of a submission are those of its events. -/
theorem envelopes_messageStream (id : String) (keepalives : ℕ) (fresh : ℕ → Generated)
    (e : Ending) :
    envelopes (messageStream id keepalives fresh e) =
      (e.events fresh).map fun event => jsonrpcResult id event.json event.sound := by
  rw [messageStream, envelopes_append, envelopes_append, envelopes_append, envelopes_keepalives,
    envelopes_map, envelopes_map, Ending.events, List.map_append, List.append_nil]
  exact List.append_nil _

/-- **What is read of the stream**: its events, if none holds a boundary that is written
unescaped. -/
theorem sse_messageStream {fresh : ℕ → Generated} {e : Ending} (keepalives : ℕ)
    (h : ∀ envelope ∈ envelopes (messageStream id keepalives fresh e), envelope.Unbroken) :
    client.sse "SendStreamingMessage" id (sseText (messageStream id keepalives fresh e)) =
      ((e.events fresh).map Event.json, none) := by
  rw [sse_of_unbroken]
  · rw [envelopes_messageStream, List.map_map]
    rfl
  · intro envelope henvelope
    have hbreak := h envelope henvelope
    rw [envelopes_messageStream] at henvelope
    obtain ⟨event, -, rfl⟩ := List.mem_map.mp henvelope
    exact ⟨⟨rfl, rfl, rfl⟩, rfl, hbreak⟩

end

end HermesGateway.Hermes
