import HermesGateway.Client.Store

/-!
# The native adapter

`NativeQueueDelivery`: a request to an app server over its standard streams. Each request starts a
process, shakes hands with it, and waits for one answer, passing over everything else the process
says. What an await comes to is read off a list: the lines `readline` returns, the failures of
`drain`; when a list is used up, the deadline has passed.

Every exception on a fixed list becomes `NativeUnsupported`, or `NativeOutcomeUnknown` once the
frame of `thread/queue/add` counts as submitted. Two are not on the list: a line that is JSON but no
object raises `AttributeError`, and one that is nested too deeply `RecursionError`; so does a frame
that repeats a value of the process, the identifier of a request or a cursor, and is nested too
deeply to be written.

## Main definitions

* `NativeQueueDelivery.rpc`, `enqueue`, `reconcile` — the adapter
* `NativeQueueDelivery.Upset`, `Answered` — a wait that comes to such a line, and one that is
  answered
* `NativeQueueDelivery.Escapes`, `Yields` — a request that meets one, and one that is answered

## Main results

* `NativeQueueDelivery.rpc_tells` — the end of a request, from what the app server does
-/

namespace HermesGateway.Client

open ClientStore

/-! ### Exceptions -/

/-- The exceptions `_rpc` has a handler for. -/
inductive Trouble
  | os
  | value
  | eof
  | timeout
deriving DecidableEq

/-- The exceptions nobody has a handler for. -/
inductive Escape
  | attribute
  | type
  | recursion
deriving DecidableEq

/-- An exception of the adapter. -/
inductive Exc
  | listed (t : Trouble)
  | unsupported
  | outcomeUnknown
  | escape (e : Escape)
deriving DecidableEq

/-- What `json.loads` makes of a line: a value, a `ValueError`, or a `RecursionError`. -/
inductive Loaded
  | value (v : Json)
  | malformed
  | tooDeep

/-- How `capability` ends. -/
inductive CapabilityCheck
  | available
  | unsupported
  | escapes (e : Escape)

/-- An app server, as one request meets it. -/
structure AppServer where
  capability : CapabilityCheck
  /-- What starting the process raises. -/
  spawn : Option Trouble
  /-- What `readline` returns or raises, time after time. -/
  reads : List (Except Trouble ByteArray)
  /-- What `drain` raises, time after time. -/
  drains : List (Option Trouble)

/-- The adapter, with the functions of the standard library it rests on: `json.loads` of a line,
`json.dumps` of a frame, and whether the number a text denotes equals an integer. -/
structure NativeQueueDelivery where
  clientVersion : String
  loads : ByteArray → Loaded
  /-- Whether `json.dumps` returns, and does not raise `RecursionError`. -/
  dumps : Json → Bool
  denotes : String → ℤ → Bool
  /-- It returns of what is nested no deeper than the adapter's own frames. -/
  dumps_shallow : ∀ frame, frame.depth ≤ 4 → dumps frame = true

/-! ### The adapter -/

/-- The pipe to a process: what `drain` is going to raise, and the frames written. -/
structure Pipe where
  drains : List (Option Trouble)
  written : List Json

/-- A part of a request. -/
abbrev Rpc := ExceptT Exc (StateM Pipe)

/-- What is answered to a request of the process. -/
def refusal (id : Json) : Json :=
  .obj [("id", id), ("error", .obj [("code", .int (-32601)), ("message", .str "unsupported")])]

/-- `"id" in message and "method" in message`. -/
def IsRequest (message : Json) : Prop :=
  (message.get? "id").isSome ∧ (message.get? "method").isSome

instance (message : Json) : Decidable (IsRequest message) := inferInstanceAs (Decidable (_ ∧ _))

namespace NativeQueueDelivery

variable (a : NativeQueueDelivery)

/-- `write`. The frame is in the pipe before it is drained. -/
def write (frame : Json) : Rpc Unit := fun p =>
  if a.dumps frame = false then (.error (.escape .recursion), p)
  else
    let p' : Pipe := { p with written := p.written ++ [frame] }
    match p.drains with
    | [] => (.error (.listed .timeout), p')
    | some t :: drains => (.error (.listed t), { p' with drains := drains })
    | none :: drains => (.ok (), { p' with drains := drains })

/-- `value == n`. -/
def equals (n : ℤ) : Json → Bool
  | .int m => m = n
  | .bool b => (if b then 1 else 0) = n
  | .float lexeme => a.denotes lexeme n
  | _ => false

/-- `not value`. -/
def falsy : Json → Bool
  | .null => true
  | .bool b => !b
  | .int n => n = 0
  | .float lexeme => a.denotes lexeme 0
  | .str s => s = ""
  | .arr xs => xs.isEmpty
  | .obj kvs => kvs.isEmpty

/-- `response`, from the lines still to come: the result, and the lines after it. -/
def response (id : ℤ) : List (Except Trouble ByteArray) →
    Rpc (Json × List (Except Trouble ByteArray))
  | [] => throw (.listed .timeout)
  | .error t :: _ => throw (.listed t)
  | .ok line :: reads =>
    if line.size = 0 then throw (.listed .eof)
    else
      match a.loads line with
      | .malformed => throw (.listed .value)
      | .tooDeep => throw (.escape .recursion)
      | .value message =>
        if message.isObj = false then throw (.escape .attribute)
        else if a.equals id (member "id" message) then
          if (message.get? "error").isSome ∨ (member "result" message).isObj = false then
            throw (.listed .value)
          else return (member "result" message, reads)
        else if IsRequest message then do
          a.write (refusal (member "id" message))
          response id reads
        else response id reads

/-- The frame of `initialize`. -/
def initializeFrame : Json :=
  .obj [("id", .int 1), ("method", .str "initialize"), ("params", .obj [
    ("clientInfo", .obj [("name", .str "hermes_a2a_gateway_client"),
      ("version", .str a.clientVersion)]),
    ("capabilities", .obj [("experimentalApi", .bool true)])])]

/-- The frame of `initialized`. -/
def initializedFrame : Json := .obj [("method", .str "initialized"), ("params", .obj [])]

/-- The frame of the request. -/
def requestFrame (method : String) (params : Json) : Json :=
  .obj [("id", .int 2), ("method", .str method), ("params", params)]

/-- The body of `_rpc` up to the point where the request counts as submitted. -/
def handshake (reads : List (Except Trouble ByteArray)) :
    Rpc (List (Except Trouble ByteArray)) := do
  a.write a.initializeFrame
  let (_, reads) ← a.response 1 reads
  a.write initializedFrame
  return reads

/-- The body of `_rpc` from there on. -/
def submit (method : String) (params : Json) (reads : List (Except Trouble ByteArray)) :
    Rpc Json := do
  a.write (requestFrame method params)
  let (result, _) ← a.response 2 reads
  return result

/-- The handler of `_rpc`. -/
def handled (method : String) (submitted : Bool) : Exc → Exc
  | .listed _ =>
    if submitted = true ∧ method = "thread/queue/add" then .outcomeUnknown else .unsupported
  | e => e

/-- `_rpc`: how it ends, and the frames it wrote. -/
def rpc (method : String) (params : Json) (server : AppServer) : Except Exc Json × List Json :=
  match server.capability with
  | .unsupported => (.error .unsupported, [])
  | .escapes e => (.error (.escape e), [])
  | .available =>
    match server.spawn with
    | some t => (.error (handled method false (.listed t)), [])
    | none =>
      match (a.handshake server.reads).run ⟨server.drains, []⟩ with
      | (.error e, p) => (.error (handled method false e), p.written)
      | (.ok reads, p) =>
        match (a.submit method params reads).run p with
        | (.error e, p) => (.error (handled method true e), p.written)
        | (.ok result, p) => (.ok result, p.written)

/-- `_same_text`. -/
def sameText (inputs : Json) (text : String) : Bool :=
  match inputs with
  | .arr [input] => input.isObj && member "type" input = .str "text" &&
      member "text" input = .str text
  | _ => false

/-- What `enqueue` makes of the result of `thread/queue/add`. -/
def acknowledged (deliveryId text : String) (result : Json) : Except Exc String :=
  let item := (result.get? "queuedSubmission").getD (.obj [])
  match (member "id" item).str? with
  | none => .error .outcomeUnknown
  | some id =>
    if item.isObj = false ∨ id = "" then .error .outcomeUnknown
    else if member "clientUserMessageId" item ≠ .str deliveryId ∨
        sameText (member "input" item) text = false then .error .outcomeUnknown
    else .ok id

/-- The parameters of `thread/queue/add`. -/
def addParams (threadId deliveryId text : String) : Json :=
  .obj [("threadId", .str threadId), ("clientUserMessageId", .str deliveryId),
    ("input", .arr [.obj [("type", .str "text"), ("text", .str text)]])]

/-- `enqueue`: how it ends, and the frames it wrote. -/
def enqueue (threadId deliveryId text : String) (server : AppServer) :
    Except Exc String × List Json :=
  match a.rpc "thread/queue/add" (addParams threadId deliveryId text) server with
  | (.error e, written) => (.error e, written)
  | (.ok result, written) => (acknowledged deliveryId text result, written)

/-- What `for item in value` goes through, if it can. -/
def iterate : Json → Option (List Json)
  | .arr xs => some xs
  | .obj kvs => some (kvs.map fun kv => .str kv.1)
  | .str s => some (s.toList.map fun c => .str (String.singleton c))
  | _ => none

/-- The identifier of an item of the queue, if it is the one looked for. -/
def matched (deliveryId text : String) (item : Json) : Option String :=
  if item.isObj = true ∧ member "clientUserMessageId" item = .str deliveryId ∧
      sameText (member "input" item) text = true then (member "id" item).str?
  else none

/-- The parameters of `thread/queue/list`. -/
def listParams (threadId : String) (cursor : Json) : Json :=
  .obj [("threadId", .str threadId), ("cursor", cursor), ("limit", .int 100)]

/-- The items of a page. -/
def items (result : Json) : Option (List Json) := iterate ((result.get? "data").getD (.arr []))

/-- `matches[0] if len(matches) == 1 else None`. -/
def unique (ids : List String) : Option String := if ids.length = 1 then ids.head? else none

/-- The loop of `reconcile`: `n` more pages, of which the next is asked of `servers i`. It comes
with the number of pages that are asked for. -/
def pages (threadId deliveryId text : String) (servers : ℕ → AppServer) :
    ℕ → ℕ → Json → List String → Except Exc (Option String) × ℕ
  | 0, _, _, _ => (.ok none, 0)
  | n + 1, i, cursor, ids =>
    match (a.rpc "thread/queue/list" (listParams threadId cursor) (servers i)).1 with
    | .error e => (.error e, 1)
    | .ok result =>
      match items result with
      | none => (.error (.escape .type), 1)
      | some items =>
        let ids := ids ++ items.filterMap (matched deliveryId text)
        if a.falsy (member "nextCursor" result) then (.ok (unique ids), 1)
        else
          let rest := pages threadId deliveryId text servers n (i + 1)
            (member "nextCursor" result) ids
          (rest.1, rest.2 + 1)

/-- `reconcile`, each page by an app server of its own. -/
def reconcile (threadId deliveryId text : String) (servers : ℕ → AppServer) :
    Except Exc (Option String) :=
  (a.pages threadId deliveryId text servers 100 0 .null []).1

/-- How many requests `reconcile` makes. -/
def requests (threadId deliveryId text : String) (servers : ℕ → AppServer) : ℕ :=
  (a.pages threadId deliveryId text servers 100 0 .null []).2

end NativeQueueDelivery

/-! ### What a request meets -/

/-- What is left of the lines and of the drains. -/
abbrev Rest := List (Except Trouble ByteArray) × List (Option Trouble)

namespace NativeQueueDelivery

variable (a : NativeQueueDelivery)

/-- The line is the text of the value. -/
def Says (line : ByteArray) (message : Json) : Prop := line.size ≠ 0 ∧ a.loads line = .value message

/-- The line is JSON but no object, or nested too deeply. -/
def Stray (line : ByteArray) : Prop :=
  line.size ≠ 0 ∧ (a.loads line = .tooDeep ∨ ∃ v, a.loads line = .value v ∧ v.isObj = false)

/-- What a wait for the answer with `id` passes over: objects with another identifier, and among
them requests, which are refused. -/
inductive Passes (id : ℤ) : Rest → Rest → Prop
  | here (x : Rest) : Passes id x x
  | notice {line : ByteArray} {message : Json} {reads : List (Except Trouble ByteArray)}
      {drains : List (Option Trouble)} {y : Rest} (hsaid : a.Says line message)
      (hobj : message.isObj = true) (hother : a.equals id (member "id" message) = false)
      (hnotice : ¬ IsRequest message) (h : Passes id (reads, drains) y) :
      Passes id (.ok line :: reads, drains) y
  | request {line : ByteArray} {message : Json} {reads : List (Except Trouble ByteArray)}
      {drains : List (Option Trouble)} {y : Rest} (hsaid : a.Says line message)
      (hobj : message.isObj = true) (hother : a.equals id (member "id" message) = false)
      (hrequest : IsRequest message) (hwrites : a.dumps (refusal (member "id" message)) = true)
      (h : Passes id (reads, drains) y) : Passes id (.ok line :: reads, none :: drains) y

/-- The line is a request, in a wait for the answer with `id`, whose identifier is nested too deeply
to be sent back. -/
def Unanswerable (id : ℤ) (line : ByteArray) : Prop :=
  ∃ message, a.Says line message ∧ message.isObj = true ∧
    a.equals id (member "id" message) = false ∧ IsRequest message ∧
    a.dumps (refusal (member "id" message)) = false

/-- The wait for the answer with `id` comes to a line that is stray, or to a request that cannot be
answered. -/
def Upset (id : ℤ) (x : Rest) : Prop :=
  ∃ line reads drains, a.Passes id x (.ok line :: reads, drains) ∧
    (a.Stray line ∨ a.Unanswerable id line)

/-- The wait for the answer with `id` ends with `message`, which has a result. -/
def Answered (id : ℤ) (x : Rest) (message : Json) (y : Rest) : Prop :=
  ∃ line reads drains, a.Passes id x (.ok line :: reads, drains) ∧ a.Says line message ∧
    message.isObj = true ∧ a.equals id (member "id" message) = true ∧
    message.get? "error" = none ∧ (member "result" message).isObj = true ∧ y = (reads, drains)

/-- The handshake succeeds and leaves `y`. -/
def Opened (server : AppServer) (y : Rest) : Prop :=
  server.spawn = none ∧ ∃ drains message reads drains', server.drains = none :: drains ∧
    a.Answered 1 (server.reads, drains) message (reads, none :: drains') ∧ y = (reads, drains')

/-- A request meets an exception nobody has a handler for: in the capability check; in the
handshake, at a line; in writing its frame; or in the wait for the answer, at a line. -/
def Escapes (server : AppServer) (frame : Json) : Prop :=
  (∃ e, server.capability = .escapes e) ∨ server.capability = .available ∧
    ((server.spawn = none ∧ ∃ drains, server.drains = none :: drains ∧
        a.Upset 1 (server.reads, drains)) ∨
      (∃ y, a.Opened server y ∧ a.dumps frame = false) ∨
      ∃ reads drains, a.Opened server (reads, none :: drains) ∧ a.dumps frame = true ∧
        a.Upset 2 (reads, drains))

/-- A request is answered with `result`. -/
def Yields (server : AppServer) (frame result : Json) : Prop :=
  server.capability = .available ∧ a.dumps frame = true ∧ ∃ reads drains message y,
  a.Opened server (reads, none :: drains) ∧
    a.Answered 2 (reads, drains) message y ∧ result = member "result" message

end NativeQueueDelivery

/-! ### One wait -/

theorem bind_run {α β : Type} (x : Rpc α) (f : α → Rpc β) (p : Pipe) :
    (x >>= f).run p =
      match x.run p with
      | (.ok v, p') => (f v).run p'
      | (.error e, p') => (.error e, p') := by
  change (ExceptT.bind x f) p = _
  simp only [ExceptT.bind, ExceptT.mk, ExceptT.run]
  change (ExceptT.bindCont f (x p).1) (x p).2 = _
  rcases x p with ⟨v | e, p'⟩ <;> rfl

namespace NativeQueueDelivery

variable {a : NativeQueueDelivery} {id : ℤ}

theorem Passes.trans {x y z : Rest} (h : a.Passes id x y) (h' : a.Passes id y z) :
    a.Passes id x z := by
  induction h with
  | here x => exact h'
  | notice hsaid hobj hother hnotice _ ih => exact .notice hsaid hobj hother hnotice (ih h')
  | request hsaid hobj hother hrequest hwrites _ ih =>
    exact .request hsaid hobj hother hrequest hwrites (ih h')

theorem Answered.of_passes {x y z : Rest} {message : Json} (h : a.Passes id x y)
    (hanswered : a.Answered id y message z) : a.Answered id x message z := by
  obtain ⟨line, reads, drains, hpasses, hrest⟩ := hanswered
  exact ⟨line, reads, drains, h.trans hpasses, hrest⟩

theorem Upset.of_passes {x y : Rest} (h : a.Passes id x y) (hupset : a.Upset id y) :
    a.Upset id x := by
  obtain ⟨line, reads, drains, hpasses, hstray⟩ := hupset
  exact ⟨line, reads, drains, h.trans hpasses, hstray⟩

/-- What the end of a wait says about the lines it read. -/
def Sees (a : NativeQueueDelivery) (id : ℤ) (x : Rest) :
    Except Exc (Json × List (Except Trouble ByteArray)) × Pipe → Prop
  | (.ok (result, reads), p) =>
    ∃ message, a.Answered id x message (reads, p.drains) ∧ result = member "result" message
  | (.error (.listed _), _) => True
  | (.error (.escape _), _) => a.Upset id x
  | _ => False

theorem Sees.of_passes {x y : Rest} (h : a.Passes id x y) :
    ∀ {end_ : Except Exc (Json × List (Except Trouble ByteArray)) × Pipe},
      a.Sees id y end_ → a.Sees id x end_
  | (.ok (_, _), _), ⟨message, hanswered, hresult⟩ => ⟨message, hanswered.of_passes h, hresult⟩
  | (.error (.listed _), _), _ => trivial
  | (.error (.escape _), _), hupset => Upset.of_passes h hupset

theorem response_stray {line : ByteArray} (hstray : a.Stray line)
    (reads : List (Except Trouble ByteArray)) (p : Pipe) :
    ∃ e, (a.response id (.ok line :: reads)).run p = (.error (.escape e), p) := by
  obtain ⟨hsize, hloads | ⟨v, hloads, hobj⟩⟩ := hstray
  · exact ⟨.recursion, by rw [response, if_neg hsize, hloads]; rfl⟩
  · exact ⟨.attribute, by rw [response, if_neg hsize, hloads]; simp only [hobj]; rfl⟩

theorem response_answer {line : ByteArray} {message : Json} (hsaid : a.Says line message)
    (hobj : message.isObj = true) (hid : a.equals id (member "id" message) = true)
    (herror : message.get? "error" = none) (hresult : (member "result" message).isObj = true)
    (reads : List (Except Trouble ByteArray)) (p : Pipe) :
    (a.response id (.ok line :: reads)).run p = (.ok (member "result" message, reads), p) := by
  rw [response, if_neg hsaid.1, hsaid.2]
  simp only [hobj, hid, herror, hresult]
  rfl

theorem response_notice {line : ByteArray} {message : Json} (hsaid : a.Says line message)
    (hobj : message.isObj = true) (hother : a.equals id (member "id" message) = false)
    (hnotice : ¬ IsRequest message) (reads : List (Except Trouble ByteArray)) (p : Pipe) :
    (a.response id (.ok line :: reads)).run p = (a.response id reads).run p := by
  rw [response, if_neg hsaid.1, hsaid.2]
  simp only [hobj, hother, if_neg hnotice]
  rfl

theorem response_request {line : ByteArray} {message : Json} (hsaid : a.Says line message)
    (hobj : message.isObj = true) (hother : a.equals id (member "id" message) = false)
    (hrequest : IsRequest message) (reads : List (Except Trouble ByteArray)) (p : Pipe) :
    (a.response id (.ok line :: reads)).run p =
      (do a.write (refusal (member "id" message)); a.response id reads : Rpc _).run p := by
  rw [response, if_neg hsaid.1, hsaid.2]
  simp only [hobj, hother, if_pos hrequest]
  rfl

theorem run_write {frame : Json} (h : a.dumps frame = true) (drains : List (Option Trouble))
    (written : List Json) :
    (a.write frame).run ⟨none :: drains, written⟩ = (.ok (), ⟨drains, written ++ [frame]⟩) := by
  change a.write frame _ = _
  rw [write, if_neg (by simp [h])]

/-- A frame that is nested too deeply ends the request. -/
theorem run_write_deep {α : Type} {frame : Json} (h : a.dumps frame = false) (f : Unit → Rpc α)
    (p : Pipe) : (a.write frame >>= f).run p = (.error (.escape .recursion), p) := by
  have hwrite : (a.write frame).run p = (.error (.escape .recursion), p) := if_pos h
  rw [bind_run, hwrite]

/-- A frame that cannot be drained ends the request. -/
theorem run_write_blocked {α : Type} {frame : Json} (hdumps : a.dumps frame = true)
    {drains : List (Option Trouble)} (h : ∀ rest, drains ≠ none :: rest) (f : Unit → Rpc α)
    (written : List Json) :
    ∃ t p, (a.write frame >>= f).run ⟨drains, written⟩ = (.error (.listed t), p) := by
  have hwrite : ∃ t p, (a.write frame).run ⟨drains, written⟩ = (.error (.listed t), p) := by
    change ∃ t p, a.write frame _ = _
    rw [write, if_neg (by simp [hdumps])]
    match drains with
    | [] | some t :: drains => exact ⟨_, _, rfl⟩
    | none :: drains => exact absurd rfl (h drains)
  obtain ⟨t, p, hwrite⟩ := hwrite
  exact ⟨t, p, by rw [bind_run, hwrite]⟩

theorem response_unanswerable {line : ByteArray} (h : a.Unanswerable id line)
    (reads : List (Except Trouble ByteArray)) (p : Pipe) :
    (a.response id (.ok line :: reads)).run p = (.error (.escape .recursion), p) := by
  obtain ⟨message, hsaid, hobj, hother, hrequest, hdeep⟩ := h
  rw [response_request hsaid hobj hother hrequest]
  exact run_write_deep hdeep _ p

/-- What is passed over changes nothing but the frames written, by refusals. -/
theorem response_passes {x y : Rest} (h : a.Passes id x y) (written : List Json) :
    ∃ refusals : List Json, (∀ frame ∈ refusals, ∃ v, frame = refusal v) ∧
      (a.response id x.1).run ⟨x.2, written⟩ =
        (a.response id y.1).run ⟨y.2, written ++ refusals⟩ := by
  induction h generalizing written with
  | here x => exact ⟨[], by simp⟩
  | notice hsaid hobj hother hnotice _ ih =>
    obtain ⟨refusals, hrefusals, hrun⟩ := ih written
    exact ⟨refusals, hrefusals, (response_notice hsaid hobj hother hnotice _ _).trans hrun⟩
  | @request line message _ _ _ hsaid hobj hother hrequest hwrites _ ih =>
    obtain ⟨refusals, hrefusals, hrun⟩ := ih (written ++ [refusal (member "id" message)])
    refine ⟨refusal (member "id" message) :: refusals, ?_, ?_⟩
    · exact List.forall_mem_cons.2 ⟨⟨_, rfl⟩, hrefusals⟩
    · rw [response_request hsaid hobj hother hrequest, bind_run, List.append_cons,
        run_write hwrites]
      exact hrun

/-- The end of a wait, from the lines it read. -/
theorem response_sees (reads : List (Except Trouble ByteArray)) (drains : List (Option Trouble))
    (written : List Json) :
    a.Sees id (reads, drains) ((a.response id reads).run ⟨drains, written⟩) := by
  induction reads generalizing drains written with
  | nil => trivial
  | cons read reads ih =>
    cases read with
    | error t => trivial
    | ok line =>
      by_cases hsize : line.size = 0
      · rw [response, if_pos hsize]
        trivial
      match hloads : a.loads line with
      | .malformed =>
        rw [response, if_neg hsize, hloads]
        trivial
      | .tooDeep =>
        rw [response, if_neg hsize, hloads]
        exact ⟨line, reads, drains, .here _, .inl ⟨hsize, .inl hloads⟩⟩
      | .value message =>
        have hsaid : a.Says line message := ⟨hsize, hloads⟩
        by_cases hobj : message.isObj = false
        · rw [response, if_neg hsize, hloads]
          simp only [hobj]
          exact ⟨line, reads, drains, .here _, .inl ⟨hsize, .inr ⟨message, hloads, hobj⟩⟩⟩
        replace hobj : message.isObj = true := by simpa using hobj
        cases hid : a.equals id (member "id" message) with
        | true =>
          by_cases hbad : (message.get? "error").isSome ∨ (member "result" message).isObj = false
          · rw [response, if_neg hsize, hloads]
            simp only [hobj, hid, if_pos hbad]
            trivial
          obtain ⟨herror, hresult⟩ : message.get? "error" = none ∧
              (member "result" message).isObj = true := by simpa using hbad
          rw [response_answer hsaid hobj hid herror hresult]
          exact ⟨message,
            ⟨line, reads, drains, .here _, hsaid, hobj, hid, herror, hresult, rfl⟩, rfl⟩
        | false =>
          by_cases hrequest : IsRequest message
          · rw [response_request hsaid hobj hid hrequest]
            cases hwrites : a.dumps (refusal (member "id" message)) with
            | false =>
              rw [run_write_deep hwrites]
              exact ⟨line, reads, drains, .here _,
                .inr ⟨message, hsaid, hobj, hid, hrequest, hwrites⟩⟩
            | true =>
              by_cases hblocked : ∀ rest, drains ≠ none :: rest
              · obtain ⟨t, p, hrun⟩ := run_write_blocked hwrites hblocked
                  (fun _ => a.response id reads) written
                rw [hrun]
                trivial
              obtain ⟨rest, rfl⟩ : ∃ rest, drains = none :: rest := by simpa using hblocked
              rw [bind_run, run_write hwrites]
              exact (ih rest _).of_passes (.request hsaid hobj hid hrequest hwrites (.here _))
          · rw [response_notice hsaid hobj hid hrequest]
            exact (ih drains written).of_passes (.notice hsaid hobj hid hrequest (.here _))

theorem response_of_answered {x y : Rest} {message : Json} (h : a.Answered id x message y)
    (written : List Json) :
    ∃ written', (a.response id x.1).run ⟨x.2, written⟩ =
      (.ok (member "result" message, y.1), ⟨y.2, written'⟩) := by
  obtain ⟨line, reads, drains, hpasses, hsaid, hobj, hid, herror, hresult, rfl⟩ := h
  obtain ⟨refusals, -, hrun⟩ := response_passes hpasses written
  exact ⟨_, hrun.trans (response_answer hsaid hobj hid herror hresult reads _)⟩

theorem response_of_upset {x : Rest} (h : a.Upset id x) (written : List Json) :
    ∃ e p, (a.response id x.1).run ⟨x.2, written⟩ = (.error (.escape e), p) := by
  obtain ⟨line, reads, drains, hpasses, hline⟩ := h
  obtain ⟨refusals, -, hrun⟩ := response_passes hpasses written
  rcases hline with hstray | hunanswerable
  · obtain ⟨e, hend⟩ := response_stray hstray reads ⟨drains, written ++ refusals⟩
    exact ⟨e, _, hrun.trans hend⟩
  · exact ⟨.recursion, _, hrun.trans (response_unanswerable hunanswerable reads _)⟩

/-! ### A request -/

/-- The frames of the handshake can be written. -/
theorem dumps_initialize : a.dumps a.initializeFrame = true :=
  a.dumps_shallow _ (by simp [initializeFrame, Json.depth, Json.depthMembers])

theorem dumps_initialized : a.dumps initializedFrame = true :=
  a.dumps_shallow _ (by simp [initializedFrame, Json.depth, Json.depthMembers])

theorem handshake_of_opened {server : AppServer} {y : Rest} (h : a.Opened server y) :
    ∃ written, (a.handshake server.reads).run ⟨server.drains, []⟩ = (.ok y.1, ⟨y.2, written⟩) := by
  obtain ⟨-, drains, message, reads, drains', hdrains, hanswered, rfl⟩ := h
  obtain ⟨written, hrun⟩ := response_of_answered hanswered [a.initializeFrame]
  refine ⟨written ++ [initializedFrame], ?_⟩
  rw [handshake, hdrains, bind_run, run_write dumps_initialize]
  dsimp only [List.nil_append]
  rw [bind_run, hrun]
  dsimp only
  rw [bind_run, run_write dumps_initialized]
  rfl

theorem handshake_of_upset {server : AppServer} {drains : List (Option Trouble)}
    (hdrains : server.drains = none :: drains) (h : a.Upset 1 (server.reads, drains)) :
    ∃ e p, (a.handshake server.reads).run ⟨server.drains, []⟩ = (.error (.escape e), p) := by
  obtain ⟨e, p, hrun⟩ := response_of_upset h [a.initializeFrame]
  refine ⟨e, p, ?_⟩
  rw [handshake, hdrains, bind_run, run_write dumps_initialize]
  dsimp only [List.nil_append]
  rw [bind_run, hrun]

/-- What the end of a handshake says about the app server. -/
def Shakes (a : NativeQueueDelivery) (server : AppServer) :
    Except Exc (List (Except Trouble ByteArray)) × Pipe → Prop
  | (.ok reads, p) => a.Opened server (reads, p.drains)
  | (.error (.listed _), _) => True
  | (.error (.escape _), _) =>
    ∃ drains, server.drains = none :: drains ∧ a.Upset 1 (server.reads, drains)
  | _ => False

theorem handshake_shakes {server : AppServer} (hspawn : server.spawn = none) :
    a.Shakes server ((a.handshake server.reads).run ⟨server.drains, []⟩) := by
  by_cases hblocked : ∀ rest, server.drains ≠ none :: rest
  · obtain ⟨t, p, hrun⟩ := run_write_blocked dumps_initialize hblocked _ []
    rw [handshake, hrun]
    trivial
  obtain ⟨drains, hdrains⟩ : ∃ drains, server.drains = none :: drains := by simpa using hblocked
  rw [handshake, hdrains, bind_run, run_write dumps_initialize]
  dsimp only [List.nil_append]
  rw [bind_run]
  have hsees := @response_sees a 1 server.reads drains [a.initializeFrame]
  match hrun : (a.response 1 server.reads).run ⟨drains, [a.initializeFrame]⟩ with
  | (.error (.listed t), p) => trivial
  | (.error (.escape e), p) =>
    rw [hrun] at hsees
    exact ⟨drains, hdrains, hsees⟩
  | (.error .unsupported, p) | (.error .outcomeUnknown, p) =>
    rw [hrun] at hsees
    exact hsees
  | (.ok (result, reads), ⟨drains₁, written⟩) =>
    rw [hrun] at hsees
    obtain ⟨message, hanswered, -⟩ := hsees
    dsimp only
    by_cases hblocked' : ∀ rest, drains₁ ≠ none :: rest
    · obtain ⟨t, p, hrun'⟩ := run_write_blocked (a := a) dumps_initialized hblocked'
        (fun _ => (pure reads : Rpc _)) written
      rw [hrun']
      trivial
    obtain ⟨drains', rfl⟩ : ∃ rest, drains₁ = none :: rest := by simpa using hblocked'
    rw [bind_run, run_write dumps_initialized]
    exact ⟨hspawn, drains, message, reads, drains', hdrains, hanswered, rfl⟩

/-- No frame is the request to add to a queue. -/
def NeverAdded (written : List Json) : Prop :=
  ∀ frame ∈ written, member "method" frame ≠ .str "thread/queue/add"

/-- A part of a request that does not write the request to add. -/
def Innocent {α : Type} (x : Rpc α) : Prop :=
  ∀ p, NeverAdded p.written → NeverAdded (x.run p).2.written

theorem Innocent.bind {α β : Type} {x : Rpc α} {f : α → Rpc β} (hx : Innocent x)
    (hf : ∀ v, Innocent (f v)) : Innocent (x >>= f) := by
  intro p hp
  have hnext := hx p hp
  rw [bind_run]
  match hrun : x.run p with
  | (.error e, p') =>
    rw [hrun] at hnext
    exact hnext
  | (.ok v, p') =>
    rw [hrun] at hnext
    exact hf v p' hnext

theorem innocent_write {frame : Json} (h : member "method" frame ≠ .str "thread/queue/add") :
    Innocent (a.write frame) := by
  intro p hp
  change NeverAdded (a.write frame p).2.written
  rw [write]
  split_ifs
  · exact hp
  · have hwritten : NeverAdded (p.written ++ [frame]) :=
      List.forall_mem_append.2 ⟨hp, List.forall_mem_singleton.2 h⟩
    rcases p with ⟨_ | ⟨_ | t, drains⟩, written⟩ <;> exact hwritten

theorem method_refusal (v : Json) : member "method" (refusal v) = .null := rfl

theorem innocent_response (reads : List (Except Trouble ByteArray)) :
    Innocent (a.response id reads) := by
  induction reads with
  | nil => exact fun _ hp => hp
  | cons read reads ih =>
    cases read with
    | error t => exact fun _ hp => hp
    | ok line =>
      rw [response]
      split_ifs
      · exact fun _ hp => hp
      split
      · exact fun _ hp => hp
      · exact fun _ hp => hp
      split_ifs
      · exact fun _ hp => hp
      · exact fun _ hp => hp
      · exact fun _ hp => hp
      · exact (innocent_write (ne_of_eq_of_ne (method_refusal _) (by decide))).bind fun _ => ih
      · exact ih

theorem innocent_handshake (reads : List (Except Trouble ByteArray)) :
    Innocent (a.handshake reads) := by
  refine (innocent_write ?_).bind fun _ => (innocent_response reads).bind fun _ =>
    (innocent_write ?_).bind fun _ _ hp => hp
  · exact ne_of_eq_of_ne (b := .str "initialize") rfl (by decide)
  · exact ne_of_eq_of_ne (b := .str "initialized") rfl (by decide)

/-- What the end of a request says about the app server, and about the frames written. -/
def Tells (a : NativeQueueDelivery) (server : AppServer) (method : String) (params : Json) :
    Except Exc Json × List Json → Prop
  | (.ok result, _) => a.Yields server (requestFrame method params) result
  | (.error (.listed _), _) => False
  | (.error (.escape _), _) => a.Escapes server (requestFrame method params)
  | (.error .unsupported, written) => method = "thread/queue/add" → NeverAdded written
  | (.error .outcomeUnknown, _) => method = "thread/queue/add"

theorem tells_before {server : AppServer} {written : List Json} (h : NeverAdded written)
    (method : String) (params : Json) (t : Trouble) :
    a.Tells server method params (.error (handled method false (.listed t)), written) := by
  rw [handled, if_neg (fun h => nomatch h.1)]
  exact fun _ => h

theorem tells_after {server : AppServer} (written : List Json) (method : String) (params : Json)
    (t : Trouble) :
    a.Tells server method params (.error (handled method true (.listed t)), written) := by
  rw [handled]
  split_ifs with hadd
  · exact hadd.2
  · exact fun h => absurd ⟨rfl, h⟩ hadd

/-- The end of the wait, once the frame of the request is in the pipe. -/
theorem submit_of_written {method : String} {params : Json}
    (h : a.dumps (requestFrame method params) = true) (reads : List (Except Trouble ByteArray))
    (drains : List (Option Trouble)) (written : List Json) :
    (a.submit method params reads).run ⟨none :: drains, written⟩ =
      match (a.response 2 reads).run ⟨drains, written ++ [requestFrame method params]⟩ with
      | (.ok (result, _), p) => (.ok result, p)
      | (.error e, p) => (.error e, p) := by
  rw [submit, bind_run, run_write h]
  dsimp only
  rw [bind_run]
  rcases (a.response 2 reads).run ⟨drains, written ++ [requestFrame method params]⟩ with
    ⟨⟨e⟩ | ⟨result, reads'⟩, p⟩
  · rfl
  · rfl

/-- The end of a request, from what the app server does. -/
theorem rpc_tells (method : String) (params : Json) (server : AppServer) :
    a.Tells server method params (a.rpc method params server) := by
  have hnone : NeverAdded [] := fun _ h => nomatch h
  rw [rpc]
  match hcapability : server.capability with
  | .unsupported => exact fun _ => hnone
  | .escapes e => exact .inl ⟨e, hcapability⟩
  | .available =>
    match hspawn : server.spawn with
    | some t => exact tells_before hnone method params t
    | none =>
      have hshakes := handshake_shakes (a := a) hspawn
      have hquiet := innocent_handshake (a := a) server.reads ⟨server.drains, []⟩ hnone
      match hrun : (a.handshake server.reads).run ⟨server.drains, []⟩ with
      | (.error (.listed t), p) =>
        rw [hrun] at hquiet
        exact tells_before hquiet method params t
      | (.error (.escape e), p) =>
        rw [hrun] at hshakes
        exact .inr ⟨hcapability, .inl ⟨hspawn, hshakes⟩⟩
      | (.error .unsupported, p) | (.error .outcomeUnknown, p) =>
        rw [hrun] at hshakes
        exact hshakes.elim
      | (.ok reads, ⟨drains₁, written⟩) =>
        rw [hrun] at hshakes
        dsimp only
        cases hwrites : a.dumps (requestFrame method params) with
        | false =>
          rw [submit, run_write_deep hwrites]
          exact .inr ⟨hcapability, .inr (.inl ⟨_, hshakes, hwrites⟩)⟩
        | true =>
          by_cases hblocked : ∀ rest, drains₁ ≠ none :: rest
          · obtain ⟨t, p, hrun'⟩ := run_write_blocked hwrites hblocked
              (fun _ => do let (result, _) ← a.response 2 reads; return result) written
            rw [submit, hrun']
            exact tells_after _ method params t
          obtain ⟨drains, rfl⟩ : ∃ rest, drains₁ = none :: rest := by simpa using hblocked
          rw [submit_of_written hwrites]
          have hsees := @response_sees a 2 reads drains
            (written ++ [requestFrame method params])
          match hrun' : (a.response 2 reads).run
              ⟨drains, written ++ [requestFrame method params]⟩ with
          | (.error (.listed t), p) => exact tells_after _ method params t
          | (.error (.escape e), p) =>
            rw [hrun'] at hsees
            exact .inr ⟨hcapability, .inr (.inr ⟨reads, drains, hshakes, hwrites, hsees⟩)⟩
          | (.error .unsupported, p) | (.error .outcomeUnknown, p) =>
            rw [hrun'] at hsees
            exact hsees.elim
          | (.ok (result, reads'), p) =>
            rw [hrun'] at hsees
            obtain ⟨message, hanswered, hresult⟩ := hsees
            exact ⟨hcapability, hwrites, reads, drains, message, _, hshakes, hanswered, hresult⟩

theorem rpc_of_yields {server : AppServer} {method : String} {params result : Json}
    (h : a.Yields server (requestFrame method params) result) :
    (a.rpc method params server).1 = .ok result := by
  obtain ⟨hcapability, hwrites, reads, drains, message, y, hopened, hanswered, rfl⟩ := h
  obtain ⟨written, hrun⟩ := handshake_of_opened hopened
  obtain ⟨written', hrun'⟩ :=
    response_of_answered hanswered (written ++ [requestFrame method params])
  rw [rpc, hcapability, hopened.1]
  dsimp only
  rw [hrun]
  dsimp only
  rw [submit_of_written hwrites, hrun']

theorem rpc_of_escapes {server : AppServer} {method : String} {params : Json}
    (h : a.Escapes server (requestFrame method params)) :
    ∃ e, (a.rpc method params server).1 = .error (.escape e) := by
  obtain ⟨e, hcapability⟩ | ⟨hcapability, ⟨hspawn, drains, hdrains, hupset⟩ | ⟨y, hopened, hdeep⟩ |
    ⟨reads, drains, hopened, hwrites, hupset⟩⟩ := h
  · exact ⟨e, by rw [rpc, hcapability]⟩
  · obtain ⟨e, p, hrun⟩ := handshake_of_upset hdrains hupset
    refine ⟨e, ?_⟩
    rw [rpc, hcapability, hspawn]
    dsimp only
    rw [hrun]
    rfl
  · obtain ⟨written, hrun⟩ := handshake_of_opened hopened
    refine ⟨.recursion, ?_⟩
    rw [rpc, hcapability, hopened.1]
    dsimp only
    rw [hrun]
    dsimp only
    rw [submit, run_write_deep hdeep]
    rfl
  · obtain ⟨written, hrun⟩ := handshake_of_opened hopened
    obtain ⟨e, p, hrun'⟩ := response_of_upset hupset (written ++ [requestFrame method params])
    refine ⟨e, ?_⟩
    rw [rpc, hcapability, hopened.1]
    dsimp only
    rw [hrun]
    dsimp only
    rw [submit_of_written hwrites, hrun']
    rfl

/-! ### Texts -/

theorem sameText_eq_true {inputs : Json} {text : String} (h : sameText inputs text = true) :
    ∃ input, inputs = .arr [input] ∧ member "type" input = .str "text" ∧
      member "text" input = .str text := by
  unfold sameText at h
  split at h
  next input =>
    simp only [Bool.and_eq_true, decide_eq_true_eq] at h
    exact ⟨input, rfl, h.1.2, h.2⟩
  · cases h

/-- Only an object has a member that is a text. -/
theorem isObj_of_member {key v : String} {value : Json} (h : member key value = .str v) :
    value.isObj = true := by
  cases value with
  | obj kvs => rfl
  | _ => cases h

theorem sameText_iff {inputs : Json} {text : String} :
    sameText inputs text = true ↔ ∃ input, inputs = .arr [input] ∧
      member "type" input = .str "text" ∧ member "text" input = .str text := by
  refine ⟨sameText_eq_true, ?_⟩
  rintro ⟨input, rfl, htype, htext⟩
  simp [sameText, isObj_of_member htype, htype, htext]

end NativeQueueDelivery

end HermesGateway.Client
