import HermesGateway.Broker.Dispatcher
import HermesGateway.Library.Lines

/-!
# Reading the peer's answers

`A2AClient.parse_task` and `parse_stream_event`: what the dispatcher is told about an arbitrary JSON
value the peer sends, in an event of a stream or as the reply to a call.

Four functions of the standard library are left abstract: the text of a value that is no string,
the text of structured data, lower case, and whether a number with a fraction is zero. An exception
other than `BrokerError` is `Failure.other`, whatever raises it.

## Main definitions

* `A2AClient.stateOf` — the state a text stands for
* `A2AClient.messageText` — the text of a message or of an artifact
* `A2AClient.parseTask`, `A2AClient.parseStreamEvent`
-/

namespace HermesGateway.Peer

open Broker

/-- `text.replace(pattern, "")`; the number counts the characters of a match still to be dropped. -/
def dropping (pattern : List Char) : ℕ → List Char → List Char
  | _, [] => []
  | n + 1, _ :: rest => dropping pattern n rest
  | 0, c :: rest =>
    if pattern.isPrefixOf (c :: rest) then dropping pattern (pattern.length - 1) rest
    else c :: dropping pattern 0 rest

/-- `"\n".join(texts)`. -/
def joinLines (texts : List String) : String :=
  String.ofList (List.intercalate ['\n'] (texts.map String.toList))

/-- The values `for x in value` goes over. -/
def iterate : Json → Except Failure (List Json)
  | .arr xs => .ok xs
  | .obj members => .ok (members.map fun m => .str m.1)
  | .str s => .ok (s.toList.map fun c => .str (String.singleton c))
  | .null | .bool _ | .int _ | .float _ => .error .other

/-- `A2A_STATE_MAP`. -/
def stateMap : List (String × String) :=
  [("TASK_STATE_SUBMITTED", "submitted"), ("TASK_STATE_WORKING", "working"),
    ("TASK_STATE_INPUT_REQUIRED", "input_required"), ("TASK_STATE_AUTH_REQUIRED", "input_required"),
    ("TASK_STATE_COMPLETED", "completed"), ("TASK_STATE_FAILED", "failed"),
    ("TASK_STATE_CANCELED", "canceled"), ("TASK_STATE_REJECTED", "rejected")]

/-- The client of the peer, by the functions that are left abstract. -/
structure A2AClient where
  /-- `str(value)` of a value that is no string -/
  strOf : Json → String
  /-- `json.dumps(value, ensure_ascii=False)` -/
  dumps : Json → String
  /-- `text.lower()` -/
  lower : String → String
  /-- `bool(x)` of a number with a fraction or an exponent -/
  nonzero : String → Bool

/-- `_unwrap_task`. -/
def unwrapTask (result : Json) : Except Failure Json :=
  match result.get? "task", result.get? "message" with
  | some (.obj task), _ => .ok (.obj task)
  | _, some (.obj message) => .ok (.obj message)
  | _, _ => if result.isObj then .ok result else .error .other

namespace A2AClient

variable (client : A2AClient)

/-- `bool(value)`. -/
def truthy : Json → Bool
  | .null => false
  | .bool b => b
  | .int n => n ≠ 0
  | .float x => client.nonzero x
  | .str s => s ≠ ""
  | .arr xs => !xs.isEmpty
  | .obj members => !members.isEmpty

/-- `value.get(key) or …`: the member, unless there is none or it is false. -/
def member? (value : Json) (key : String) : Option Json := (value.get? key).filter client.truthy

/-- `str(value)`. -/
def text : Json → String
  | .str s => s
  | value => client.strOf value

/-- The state a text stands for. -/
def stateOf (raw : String) : String :=
  (stateMap.lookup raw).getD
    (String.ofList (dropping "task_state_".toList 0 (client.lower raw).toList))

/-- `value.get(key) or []`, for an iteration. -/
def items (value : Json) (key : String) : Except Failure (List Json) :=
  (client.member? value key).elim (.ok []) iterate

/-- `_part_text`. -/
def partText (part : Json) : String :=
  match part.get? "text", part.get? "data", part.get? "url" with
  | some (.str s), _, _ => s
  | _, some data, _ => client.dumps data
  | _, _, some (.str url) => url
  | _, _, _ => ""

/-- `_message_text`. -/
def messageText (message : Json) : Except Failure String :=
  if message.isObj then do
    let parts ← client.items message "parts"
    let texts := ((parts.filter Json.isObj).map client.partText).filter (· ≠ "")
    return String.ofList (strip (joinLines texts).toList)
  else .ok ""

/-- The loop of `parse_task` over the artifacts: the first text that is not empty. -/
def firstText : List Json → Except Failure String
  | [] => .ok ""
  | artifact :: rest => do
    let text ← client.messageText artifact
    if text = "" then firstText rest else return text

/-- `task.get("status") or {}`, which has to be an object. -/
def statusOf (task : Json) : Except Failure Json :=
  match client.member? task "status" with
  | none => .ok (.obj [])
  | some (.obj members) => .ok (.obj members)
  | some _ => .error .other

/-- The identifier of a task. -/
def taskIdOf (task : Json) : String :=
  ((client.member? task "id").or (client.member? task "taskId")).elim "" client.text

/-- The text that stands for the state of a task: one without a state counts as completed. -/
def stateText (status : Json) : String :=
  (client.member? status "state").elim "TASK_STATE_COMPLETED" client.text

/-- The text of a task. -/
def taskText (task status : Json) (artifacts : List Json) : Except Failure String := do
  let text ← client.firstText artifacts
  let text ← if text = "" then client.messageText ((status.get? "message").getD .null) else .ok text
  if text = "" ∧ (client.member? task "role").isSome then client.messageText task else .ok text

/-- `parse_task`. -/
def parseTask (result : Json) (fallbackContext : String) : Except Failure TaskResult := do
  let task ← unwrapTask result
  let status ← client.statusOf task
  let artifacts := (← client.items task "artifacts").filter Json.isObj
  let text ← client.taskText task status artifacts
  return {
    taskId := client.taskIdOf task
    contextId := (client.member? task "contextId").elim fallbackContext client.text
    state := client.stateOf (client.stateText status)
    text := text
    artifacts := artifacts
    raw := task }

/-- The task `parse_stream_event` reads or makes up for an event. -/
def eventTask (event : Json) : Option Json :=
  match event.get? "task", event.get? "statusUpdate", event.get? "artifactUpdate" with
  | some (.obj task), _, _ => some (.obj task)
  | _, some (.obj update), _ =>
    let update := Json.obj update
    some (.obj [
      ("id", (update.get? "taskId").getD .null),
      ("contextId", (update.get? "contextId").getD .null),
      ("status", (client.member? update "status").getD (.obj [])),
      ("metadata", (update.get? "metadata").getD (.obj []))])
  | _, _, some (.obj update) =>
    let update := Json.obj update
    some (.obj [
      ("id", (update.get? "taskId").getD .null),
      ("contextId", (update.get? "contextId").getD .null),
      ("status", .obj [("state", .str "TASK_STATE_WORKING")]),
      ("artifacts", .arr [(client.member? update "artifact").getD (.obj [])]),
      ("metadata", (update.get? "metadata").getD (.obj []))])
  | _, _, _ => none

/-- `parse_stream_event`. -/
def parseStreamEvent (event : Json) (fallbackContext : String) :
    Except Failure (Option TaskResult) :=
  match client.eventTask event with
  | some task => return some (← client.parseTask task fallbackContext)
  | none => .ok none

end A2AClient

end HermesGateway.Peer
