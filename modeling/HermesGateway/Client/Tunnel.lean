import HermesGateway.Library.Coroutine
import HermesGateway.Library.Tail
import Mathlib.Algebra.Order.BigOperators.Group.List
import Mathlib.Algebra.Order.Group.Nat
import Mathlib.Algebra.Order.Ring.Unbundled.Rat
import Mathlib.Data.Rat.Defs
import Mathlib.Logic.Function.Basic

/-!
# The owned tunnel

`SSHTunnel`: one daemon-owned ssh process, kept alive by the task `_run`. The task inspects the
configuration of ssh, spawns the forwarding process, waits until its listener answers and the
process itself has said that it listens, and starts over when it ends for a reason that may pass.

The methods are coroutines over the fields of the tunnel and the processes it has spawned. What
comes from outside is an answer: the times, the chances, what the system calls and the awaits come
to. The reader of a process's standard error runs beside them. A task may be cancelled at any await,
so a request to cancel one is no write. Signals are questions too: what they do is that a process
ends, which a process may do at any time. The process handles that the signals go to on one platform
are left out with them.

## Main definitions

* `SSHTunnel.takeIn`, `readStderr` — the reader
* `SSHTunnel.cleanup`, `inspectConfiguration`, `connect`, `attempts`, `run`, `close` — the methods
* `SSHTunnel.Step` — the moves of the task, of the owner and of the world

## Main results

* `SSHTunnel.readStderr_searches` — the bounded buffer is as good as the whole stream
-/

namespace HermesGateway.Client

/-! ### The configuration -/

/-- `text.encode()`. -/
def encode (text : String) : List UInt8 := text.toUTF8.data.toList

theorem encode_eq (text : String) : encode text = text.toList.flatMap String.utf8EncodeChar := by
  rw [encode, String.toUTF8_eq_toByteArray, ← String.utf8Encode_toList, List.utf8Encode]
  simp

/-- A character takes at most four bytes. -/
theorem length_encode_le (text : String) : (encode text).length ≤ 4 * text.length := by
  rw [encode_eq, List.length_flatMap, ← String.length_toList]
  refine (List.sum_le_card_nsmul _ 4 fun n hn => ?_).trans_eq (by simp [mul_comm])
  obtain ⟨c, -, rfl⟩ := List.mem_map.mp hn
  rw [String.length_utf8EncodeChar]
  exact c.utf8Size_le_four

/-- `SSHConfig`, with the checks on its numbers. The identity file is the expanded path. -/
structure SSHConfig where
  host : String
  localPort : ℕ := 18790
  remoteHost : String := "127.0.0.1"
  remotePort : ℕ := 443
  user : Option String := none
  port : Option ℕ := none
  identityFile : Option String := none
  command : String := "ssh"
  connectTimeout : ℕ := 10
  localPort_mem : 1024 ≤ localPort ∧ localPort ≤ 65535 := by decide
  remotePort_mem : 1 ≤ remotePort ∧ remotePort ≤ 65535 := by decide
  port_mem : ∀ p ∈ port, 1 ≤ p ∧ p ≤ 65535 := by decide
  connectTimeout_mem : 1 ≤ connectTimeout ∧ connectTimeout ≤ 60 := by decide

namespace SSHConfig

variable (config : SSHConfig)

/-- The options every ssh process is given. -/
def options : List (String × String) :=
  [("LogLevel", "DEBUG1"), ("BatchMode", "yes"), ("StrictHostKeyChecking", "yes"),
    ("ExitOnForwardFailure", "yes"), ("ConnectTimeout", toString config.connectTimeout),
    ("ConnectionAttempts", "1"), ("ServerAliveInterval", "15"), ("ServerAliveCountMax", "3"),
    ("ControlMaster", "no"), ("ControlPath", "none"), ("ControlPersist", "no"),
    ("ForkAfterAuthentication", "no"), ("PermitLocalCommand", "no"), ("GatewayPorts", "no"),
    ("ForwardAgent", "no"), ("ForwardX11", "no")]

/-- `argv`. -/
def argv (inspect : Bool) : List String :=
  [config.command, "-N", "-T", "-n"] ++
    config.options.flatMap (fun option => ["-o", option.1 ++ "=" ++ option.2]) ++
    (match config.port with
    | some port => ["-p", toString port]
    | none => []) ++
    (match config.user.filter (· ≠ "") with
    | some user => ["-l", user]
    | none => []) ++
    (match config.identityFile.filter (· ≠ "") with
    | some file => ["-i", file, "-o", "IdentitiesOnly=yes"]
    | none => []) ++
    (if inspect then ["-G"]
    else
      let remote :=
        if ':' ∈ config.remoteHost.toList then "[" ++ config.remoteHost ++ "]"
        else config.remoteHost
      ["-L", "127.0.0.1:" ++ toString config.localPort ++ ":" ++ remote ++ ":" ++
        toString config.remotePort]) ++
    ["--", config.host]

/-- What the forwarding process prints when it listens. -/
def confirmation : List UInt8 :=
  encode ("Local forwarding listening on 127.0.0.1 port " ++ toString config.localPort ++ ".")

end SSHConfig

/-! ### Failures -/

/-- The codes of a failure. -/
inductive FailureCode
  | sshIdentityFileUnavailable
  | sshHostKeyFailed
  | sshAuthenticationFailed
  | sshLocalPortInUse
  | sshConfigurationFailed
  | sshConfiguredForwardingNotAllowed
  | sshProcessExited
  | sshNetworkUnavailable
  | sshFailed
  | sshStartupTimeout
  | sshExecutableUnavailable
deriving DecidableEq, Repr

/-- `TunnelFailure`. -/
structure TunnelFailure where
  code : FailureCode
  retryable : Bool := false
deriving DecidableEq, Repr

/-- `text.lower()`. -/
def lower (text : List UInt8) : List UInt8 :=
  text.map fun b => if 65 ≤ b ∧ b ≤ 90 then b + 32 else b

/-- What `classify_failure` looks for, in this order. -/
def fatal : List (FailureCode × List String) :=
  [(.sshHostKeyFailed,
      ["host key verification failed", "remote host identification has changed",
        "no matching host key type", "offending", "host key is known"]),
    (.sshAuthenticationFailed,
      ["permission denied", "authentication failed", "too many authentication failures",
        "no supported authentication methods"]),
    (.sshLocalPortInUse,
      ["address already in use", "cannot listen to port", "could not request local forwarding"]),
    (.sshConfigurationFailed,
      ["bad configuration", "bad configuration option", "unknown option", "invalid port",
        "bad port",
        "no such identity", "bad owner"])]

/-- The signs of a failure that may pass. -/
def transient : List String :=
  ["connection refused", "connection timed out", "operation timed out", "no route to host",
    "network is unreachable", "connection reset", "broken pipe", "connection closed",
    "closed by remote host", "could not resolve hostname", "temporary failure",
    "server not responding", "timeout, server"]

/-- `classify_failure`. -/
def classifyFailure (stderr : List UInt8) (returncode : Option ℤ) : TunnelFailure :=
  let text := lower stderr
  let finds (marker : String) : Bool := decide (encode marker <:+: text)
  if finds "identity file" ∧ finds "not accessible" then ⟨.sshIdentityFileUnavailable, false⟩
  else
    match fatal.find? fun entry => entry.2.any finds with
    | some entry => ⟨entry.1, false⟩
    | none =>
      if returncode.any (· < 0) then ⟨.sshProcessExited, true⟩
      else if returncode = some 0 ∨ transient.any finds then ⟨.sshNetworkUnavailable, true⟩
      else ⟨.sshFailed, false⟩

/-! ### The fields -/

/-- What `state` may be. -/
inductive TunnelState
  | stopped
  | starting
  | ready
  | backoff
  | failed
deriving DecidableEq, Repr

/-- The task of `_run`. -/
inductive RunTask
  | running
  | finished
deriving DecidableEq, Repr

/-- The fields of `SSHTunnel`. A process is named by its number, and the reader by the process whose
standard error it reads. -/
structure SSHTunnel where
  process : Option ℕ := none
  task : Option RunTask := none
  ready : Bool := false
  state : TunnelState := .stopped
  error : Option FailureCode := none
  attempts : ℕ := 0
  retryAt : Option ℚ := none
  generation : ℕ := 0
  stderr : List UInt8 := []
  forwardConfirmed : Bool := false
  readySince : Option ℚ := none
  reader : Option ℕ := none
  childTracker : Bool := false

namespace SSHTunnel

/-! ### The reader -/

/-- The body of the loop of `_read_stderr`. -/
def takeIn (config : SSHConfig) (chunk : List UInt8) (t : SSHTunnel) : SSHTunnel :=
  let stderr := t.stderr ++ chunk
  { t with
    forwardConfirmed := t.forwardConfirmed || decide (config.confirmation <:+: stderr)
    stderr := if 16384 < stderr.length then stderr.rtake 16384 else stderr }

/-- `_read_stderr`, over what the reads come to: the loop ends at an empty chunk. -/
def readStderr (config : SSHConfig) : List (List UInt8) → SSHTunnel → SSHTunnel
  | [], t => t
  | [] :: _, t => t
  | chunk :: chunks, t => readStderr config chunks (t.takeIn config chunk)

/-- What `_connect` clears before it spawns. -/
def cleared (t : SSHTunnel) : SSHTunnel := { t with stderr := [], forwardConfirmed := false }

/-- The buffer and the flag, as a search. -/
def search (t : SSHTunnel) : Tail.Search UInt8 := ⟨t.stderr, t.forwardConfirmed⟩

variable {config : SSHConfig}

/-- The confirmation is far shorter than what is kept. -/
theorem length_confirmation_le (config : SSHConfig) : config.confirmation.length ≤ 16384 + 1 := by
  have hport : (toString config.localPort).length ≤ 5 := by
    refine (Nat.length_repr_le_iff (by decide)).mpr ?_
    have := config.localPort_mem
    omega
  refine (length_encode_le _).trans ?_
  have hstart : "Local forwarding listening on 127.0.0.1 port ".length = 45 := by decide
  rw [String.length_append, String.length_append, hstart]
  have : ".".length = 1 := by decide
  omega

theorem confirmation_ne_nil : config.confirmation ≠ [] := by
  rw [SSHConfig.confirmation, encode_eq, String.toList_append, List.flatMap_append]
  exact List.append_ne_nil_of_right_ne_nil _ (by decide)

@[simp] theorem search_buffer (t : SSHTunnel) : t.search.buffer = t.stderr := rfl

@[simp] theorem search_found (t : SSHTunnel) : t.search.found = t.forwardConfirmed := rfl

theorem search_takeIn (chunk : List UInt8) (t : SSHTunnel) :
    (t.takeIn config chunk).search = t.search.push config.confirmation 16384 chunk := by
  simp only [takeIn, search, Tail.Search.push]
  split_ifs with hlong
  · rfl
  · rw [Tail.rtake_of_length_le (Nat.le_of_not_lt hlong)]
    rfl

theorem search_readStderr {chunks : List (List UInt8)} (h : ∀ chunk ∈ chunks, chunk ≠ [])
    (t : SSHTunnel) :
    (readStderr config chunks t).search =
      chunks.foldl (Tail.Search.push config.confirmation 16384) t.search := by
  induction chunks generalizing t with
  | nil => rfl
  | cons chunk chunks ih =>
    obtain ⟨b, chunk, rfl⟩ := List.exists_cons_of_ne_nil (h chunk List.mem_cons_self)
    rw [List.foldl_cons, ← search_takeIn]
    exact ih (fun c hc => h c (List.mem_cons_of_mem _ hc)) _

theorem readStderr_append {before : List (List UInt8)} (h : ∀ chunk ∈ before, chunk ≠ [])
    (after : List (List UInt8)) (t : SSHTunnel) :
    readStderr config (before ++ after) t =
      readStderr config after (readStderr config before t) := by
  induction before generalizing t with
  | nil => rfl
  | cons chunk before ih =>
    obtain ⟨b, chunk, rfl⟩ := List.exists_cons_of_ne_nil (h chunk List.mem_cons_self)
    exact ih (fun c hc => h c (List.mem_cons_of_mem _ hc)) _

/-- The bounded buffer is as good as the whole stream: at every point of the stream, however it was
cut into chunks, the flag says whether the confirmation has come, and the buffer holds the last
16384 bytes. -/
theorem readStderr_searches (config : SSHConfig) (t : SSHTunnel) {before after : List (List UInt8)}
    (h : ∀ chunk ∈ before ++ after, chunk ≠ [] ∧ chunk.length ≤ 2048) :
    let t' := readStderr config before t.cleared
    readStderr config (before ++ after) t.cleared = readStderr config after t' ∧
      (t'.forwardConfirmed = true ↔ config.confirmation <:+: before.flatten) ∧
      t'.stderr = before.flatten.rtake 16384 ∧
      t'.stderr.length = min before.flatten.length 16384 := by
  have hnonempty (chunk) (hchunk : chunk ∈ before) : chunk ≠ [] :=
    (h chunk (List.mem_append_left _ hchunk)).1
  have hsearch : (readStderr config before t.cleared).search =
      ⟨before.flatten.rtake 16384, decide (config.confirmation <:+: before.flatten)⟩ := by
    have hstart :
      t.cleared.search = ⟨List.rtake [] 16384, decide (config.confirmation <:+: [])⟩ := by
      rw [List.rtake_nil,
        decide_eq_false fun hempty => confirmation_ne_nil (List.infix_nil.mp hempty)]
      rfl
    rw [search_readStderr hnonempty, hstart, Tail.Search.foldl_push (length_confirmation_le config),
      List.nil_append]
  have hbuffer : (readStderr config before t.cleared).stderr = before.flatten.rtake 16384 := by
    rw [← search_buffer, hsearch]
  refine ⟨readStderr_append hnonempty _ _, ?_, hbuffer, ?_⟩
  · rw [← search_found, hsearch, decide_eq_true_iff]
  · rw [hbuffer, Tail.length_rtake]

/-- A confirmation that comes in two chunks is found. -/
theorem readStderr_searches_cut :
    (readStderr { host := "vps" }
      [encode "debug1: Local forwarding list", encode "ening on 127.0.0.1 port 18790.\r\n"]
      (cleared {})).forwardConfirmed = true := by
  have hchunks : ∀ chunk ∈ [encode "debug1: Local forwarding list",
      encode "ening on 127.0.0.1 port 18790.\r\n"] ++ [], chunk ≠ [] ∧ chunk.length ≤ 2048 := by
    decide +kernel
  exact (readStderr_searches { host := "vps" } {} hchunks).2.1.mpr (by decide +kernel)

/-! ### The processes -/

/-- An ssh process. -/
structure Process where
  argv : List String
  /-- The number of the attempt it was spawned in. -/
  attempt : ℕ
  returncode : Option ℤ := none
  /-- What it has written to its standard error. -/
  printed : List UInt8 := []
  /-- How much of that its reader was given. -/
  taken : ℕ := 0
  /-- Its reader is there and not done. -/
  reading : Bool := false

/-- The tunnel with its processes, in the order in which they were spawned. -/
structure Machine where
  tunnel : SSHTunnel := {}
  processes : ℕ → Process := fun _ => { argv := [], attempt := 0 }
  spawned : ℕ := 0
  /-- A failure that is not retried was met since the task of `_run` was created. -/
  fatal : Bool := false
  /-- How often the task of `_run` was created, and how often a `close` went through. -/
  runs : ℕ := 0
  closes : ℕ := 0

/-- `available`. -/
def Machine.available (s : Machine) : Bool :=
  s.tunnel.ready && s.tunnel.process.any fun p => (s.processes p).returncode.isNone

/-! ### Exceptions and questions -/

/-- The exceptions of the methods. -/
inductive Exc
  | cancelled
  | timeout
  | os
  | value
  | failure (f : TunnelFailure)
  | other
deriving DecidableEq

/-- `OSError`, of which `TimeoutError` is one. -/
def Exc.isOSError : Exc → Bool
  | .os | .timeout => true
  | _ => false

/-- What the methods ask. -/
inductive Query
  | isFile
  | monotonic
  | uniform
  | socket
  | bind
  | signal
  | childrenAlive
  | ownedRoot
  | spawning (p : ℕ)
  | line (p : ℕ)
  | exit (p : ℕ)
  | exitWithin (p : ℕ)
  | exitInTime (p : ℕ)
  | reader (p : ℕ)
  | readerWithin (p : ℕ)
  | readerGone (p : ℕ)
  | trackerGone
  | connection
  | writerClosed
  | sleep (seconds : ℚ)
  | taskGone

/-- What they are answered. -/
def Query.Answer : Query → Type
  | .isFile | .childrenAlive | .ownedRoot => Bool
  | .monotonic | .uniform => ℚ
  | .line _ => Option (List UInt8)
  | _ => Unit

/-- The loops. -/
inductive Loop
  | children (deadline : ℚ)
  | lines (p total : ℕ)
  | probes (deadline : ℚ)
  | attempts (failures : ℕ)

/-- What the methods are written over. -/
abbrev lang : Interface := ⟨Machine, Exc, Loop, Query, Query.Answer⟩

/-- A method. -/
abbrev Method := Co lang

/-- A question answered at once. -/
def ask (q : Query) : Method q.Answer := Co.asks (I := lang) q

/-- A question during which others move. -/
def await (q : Query) : Method q.Answer := Co.awaits (I := lang) q

/-- A loop. -/
def loop (i : Loop) : Method Unit := Co.loop (I := lang) i

/-- The fields. -/
def self : Method SSHTunnel := Co.gets (I := lang) Machine.tunnel

/-- A write to the fields. -/
def assign (f : SSHTunnel → SSHTunnel) : Method Unit :=
  Co.modify (I := lang) fun s => { s with tunnel := f s.tunnel }

/-- `raise e`. -/
def raise {α : Type} (e : Exc) : Method α := Co.throw (I := lang) e

/-- A failure is met. -/
def meet (f : TunnelFailure) : Method Unit :=
  Co.modify (I := lang) fun s => { s with fatal := s.fatal || !f.retryable }

/-- `raise TunnelFailure(…)`. -/
def fail {α : Type} (f : TunnelFailure) : Method α := do
  meet f
  raise (.failure f)

/-- `self.process`, where an attribute of it is used. -/
def ownProcess : Method ℕ := do
  match (← self).process with
  | some p => pure p
  | none => raise .other

/-- `self._reader`, where it is awaited. -/
def ownReader : Method ℕ := do
  match (← self).reader with
  | some p => pure p
  | none => raise .other

/-- `self.process.returncode`. -/
def returncode : Method (Option ℤ) := do
  let p ← ownProcess
  Co.gets (I := lang) fun s => (s.processes p).returncode

/-! ### Spawning and cleaning up -/

/-- What a tunnel is made with. -/
structure Setup where
  config : SSHConfig
  inheritJobGroup : Bool := false

variable (u : Setup)

/-- `_capture_owned_root`. -/
def captureOwnedRoot : Method Unit := do
  let t ← self
  Co.when (u.inheritJobGroup = true) <| Co.whenSome t.process fun _ => do
    let code ← returncode
    Co.when (code = none) do
      let owned : Bool ← ask .ownedRoot
      Co.when (owned = true) <| assign fun t => { t with childTracker := true }

/-- `create_subprocess_exec`, begun. -/
def create (argv : List String) : Method ℕ := do
  let p ← Co.gets (I := lang) Machine.spawned
  Co.modify (I := lang) fun s =>
    { s with
      processes := Function.update s.processes p { argv := argv, attempt := s.tunnel.attempts }
      spawned := p + 1 }
  pure p

/-- `_spawn`. -/
def spawn (argv : List String) : Method Unit := do
  let p ← create argv
  Co.catching
    (do
      await (.spawning p)
      assign fun t => { t with process := some p })
    fun
    | .cancelled => do
      -- cancelled or not, the process is owned
      await (.spawning p)
      assign fun t => { t with process := some p }
      captureOwnedRoot u
      raise .cancelled
    | e => raise e
  captureOwnedRoot u

/-- `_signal_owned_group`. -/
def signalOwnedGroup : Method Unit := do
  let t ← self
  Co.when (u.inheritJobGroup = true ∨ t.process.isSome) (ask .signal)

/-- `_cleanup`. -/
def cleanup : Method Unit := do
  assign fun t => { t with ready := false }
  let t ← self
  Co.when (t.childTracker = true) do
    await .trackerGone
    assign fun t => { t with childTracker := false }
  let now : ℚ ← ask .monotonic
  signalOwnedGroup u
  let t ← self
  Co.whenSome t.process fun p =>
    Co.catching (await (.exitWithin p)) fun
      | .timeout => do
        signalOwnedGroup u
        await (.exit p)
      | e => raise e
  Co.when (u.inheritJobGroup = true) do
    loop (.children (now + 3))
    let alive : Bool ← ask .childrenAlive
    Co.when (alive = true) (signalOwnedGroup u)
  let t ← self
  Co.whenSome t.reader fun p => do
    Co.catching (await (.readerWithin p)) fun
      | .timeout => do
        signalOwnedGroup u
        await (.readerGone p)
      | e => raise e
    assign fun t => { t with reader := none }
  assign fun t => { t with process := none }

/-- `create_task(self._read_stderr(…))`, of the standard error of `p`. -/
def startReader (p : ℕ) : Method Unit :=
  Co.modify (I := lang) fun s =>
    { s with
      tunnel := { s.tunnel with reader := some p }
      processes := Function.update s.processes p { s.processes p with reading := true } }

/-! ### The inspection -/

/-- The keywords of a forward of the configuration. -/
def forwards : List (List UInt8) :=
  [encode "localforward", encode "remoteforward", encode "dynamicforward"]

/-- `line.split(b" ", 1)[0].lower()`. -/
def keyword (line : List UInt8) : List UInt8 := lower (line.takeWhile (· ≠ 32))

/-- `_inspect_configuration`. -/
def inspectConfiguration : Method Unit := do
  Co.when (u.config.identityFile.any (· ≠ "") = true) do
    let found : Bool ← ask .isFile
    Co.when (found = false) (fail ⟨.sshIdentityFileUnavailable, false⟩)
  spawn u (u.config.argv true)
  let p ← ownProcess
  assign fun t => { t with stderr := [] }
  startReader p
  Co.ending
    (Co.catching
      (do
        loop (.lines p 0)
        let p ← ownProcess
        await (.exitInTime p)
        let r ← ownReader
        await (.reader r)
        let code ← returncode
        let t ← self
        Co.when (code.any (· ≠ 0) = true) (fail (classifyFailure t.stderr code)))
      fun
      | .timeout | .value => fail ⟨.sshConfigurationFailed, false⟩
      | e => raise e)
    (cleanup u)

/-! ### The connection -/

/-- `_connect`, which never returns. -/
def connect : Method Empty := do
  assign fun t => { t with readySince := none }
  ask .socket
  Co.catching (ask .bind) fun e =>
    if e.isOSError then fail ⟨.sshLocalPortInUse, false⟩ else raise e
  assign cleared
  spawn u (u.config.argv false)
  let p ← ownProcess
  startReader p
  let now : ℚ ← ask .monotonic
  loop (.probes (now + u.config.connectTimeout + 1))
  let code ← returncode
  Co.when (code = none) (fail ⟨.sshStartupTimeout, true⟩)
  let r ← ownReader
  await (.reader r)
  let code ← returncode
  let t ← self
  fail (classifyFailure t.stderr code)

/-- The tunnel becomes ready. -/
def becomeReady (now : ℚ) (t : SSHTunnel) : SSHTunnel :=
  { t with
    state := .ready
    error := none
    readySince := some now
    generation := t.generation + 1
    ready := true }

/-- A round of the loop of `_connect`. -/
def probe (deadline : ℚ) : Method Unit := do
  let answered ← Co.catching
    (do
      await .connection
      pure true)
    fun e => if e.isOSError then pure false else raise e
  if answered then do
    await .writerClosed
    await (.sleep (1 / 20))
    let code ← returncode
    let t ← self
    if code = none ∧ t.forwardConfirmed = true then do
      let now : ℚ ← ask .monotonic
      assign (becomeReady now)
      let p ← ownProcess
      await (.exit p)
    else do
      await (.sleep (1 / 20))
      loop (.probes deadline)
  else do
    await (.sleep (1 / 20))
    loop (.probes deadline)

/-- `retry_delay`, with what the chance came to. -/
def retryDelay (uniform : ℚ) (failures : ℕ) : ℚ :=
  min 30 (uniform * min 30 (2 ^ min (failures - 1) 5))

/-- The inspection within `_run`, and whether `_run` goes on. -/
def inspected : Method Bool :=
  Co.catching
    (do
      inspectConfiguration u
      pure true)
    fun e =>
      match e with
      | .failure f => do
        meet ⟨f.code, false⟩
        assign fun t => { t with state := .failed, error := some f.code }
        pure false
      | .os | .timeout => do
        meet ⟨.sshExecutableUnavailable, false⟩
        assign fun t => { t with state := .failed, error := some .sshExecutableUnavailable }
        pure false
      | e => raise e

/-- The inspection before an attempt, of which the first needs none. -/
def inspectedAgain : Method Bool := do
  let t ← self
  if t.attempts ≠ 0 then inspected u else pure true

/-- The connection within `_run`: the failure it ends with. -/
def connected : Method TunnelFailure :=
  Co.ending
    (Co.catching
      (do
        let never ← connect u
        nomatch never)
      fun e =>
        match e with
        | .os | .timeout => do
          meet ⟨.sshExecutableUnavailable, false⟩
          pure ⟨.sshExecutableUnavailable, false⟩
        | .failure f => pure f
        | e => raise e)
    (cleanup u)

/-- The loops: of `_cleanup`, over the lines of the inspection, of `_connect` and of `_run`. -/
def body : Loop → Method Unit
  | .children deadline => do
    let alive : Bool ← ask .childrenAlive
    Co.when (alive = true) do
      let now : ℚ ← ask .monotonic
      Co.when (now < deadline) do
        await (.sleep (1 / 50))
        loop (.children deadline)
  | .lines p total => do
    let line : Option (List UInt8) ← await (.line p)
    Co.whenSome line fun line => do
      Co.when (256 * 1024 < total + line.length) (fail ⟨.sshConfigurationFailed, false⟩)
      Co.when (keyword line ∈ forwards) (fail ⟨.sshConfiguredForwardingNotAllowed, false⟩)
      loop (.lines p (total + line.length))
  | .probes deadline => do
    let code ← returncode
    Co.when (code = none) do
      let now : ℚ ← ask .monotonic
      Co.when (now < deadline) (probe deadline)
  | .attempts failures => do
    let goes ← inspectedAgain u
    Co.when (goes = true) do
      assign fun t => { t with state := .starting, retryAt := none, attempts := t.attempts + 1 }
      let failure ← connected u
      assign fun t => { t with error := some failure.code }
      if failure.retryable then do
        let now : ℚ ← ask .monotonic
        let t ← self
        let failures := if t.readySince.any (30 ≤ now - ·) then 1 else failures + 1
        let uniform : ℚ ← ask .uniform
        let now : ℚ ← ask .monotonic
        let delay := retryDelay uniform failures
        assign fun t => { t with state := .backoff, retryAt := some (now + delay) }
        await (.sleep delay)
        loop (.attempts failures)
      else
        assign fun t => { t with state := .failed }

/-- `_run`. -/
def run : Method Unit :=
  Co.ending
    (do
      let goes ← inspected u
      Co.when (goes = true) (loop (.attempts 0)))
    (cleanup u)

/-- `close`. -/
def close : Method Unit :=
  Co.ending
    (do
      let t ← self
      Co.when (t.task ≠ none) (await .taskGone))
    (do
      cleanup u
      Co.modify (I := lang) fun s =>
        { s with
          tunnel := { s.tunnel with task := none, state := .stopped, retryAt := none }
          closes := s.closes + 1 })

/-! ### Runs -/

/-- What a question may raise. -/
def Query.raises : Query → List Exc
  | .isFile => [.os, .other]
  | .monotonic | .uniform => []
  | .socket | .bind | .signal => [.os]
  | .childrenAlive | .ownedRoot => [.other]
  | .spawning _ => [.cancelled, .os, .value, .other]
  | .line _ | .reader _ => [.cancelled, .timeout, .os, .value, .other]
  | .exitWithin _ | .exitInTime _ | .readerWithin _ => [.cancelled, .timeout]
  | .exit _ | .readerGone _ | .trackerGone | .sleep _ | .taskGone => [.cancelled]
  | .connection | .writerClosed => [.cancelled, .os, .timeout, .other]

/-- What must have happened before a question is answered. -/
def Query.Settled (s : Machine) : Query → Prop
  | .exit p | .exitWithin p | .exitInTime p => (s.processes p).returncode ≠ none
  | .reader p | .readerWithin p | .readerGone p => (s.processes p).reading = false
  | _ => True

/-- The answers there may be. Who waits for the task of `_run` waits until it is done, also when
cancelled: the cancellation is passed on to the task. -/
def Answers (q : Query) (r : Except Exc q.Answer) (s : Machine) : Prop :=
  (match r with
    | .ok _ => q.Settled s
    | .error e => e ∈ q.raises) ∧
    (q = .taskGone → s.tunnel.task = some .finished)

/-- A change of one process. -/
def Machine.change (s : Machine) (p : ℕ) (f : Process → Process) : Machine :=
  { s with processes := Function.update s.processes p (f (s.processes p)) }

/-- What happens while the methods wait: a process prints or exits, its reader takes a chunk of what
it has printed, or is done. -/
inductive Moves (u : Setup) : Machine → Machine → Prop
  | prints (s : Machine) {p : ℕ} (hp : p < s.spawned) (text : List UInt8) :
      Moves u s (s.change p fun x => { x with printed := x.printed ++ text })
  | exits (s : Machine) {p : ℕ} (hp : p < s.spawned) (hlive : (s.processes p).returncode = none)
      (code : ℤ) : Moves u s (s.change p fun x => { x with returncode := some code })
  | reads (s : Machine) {p : ℕ} (hreading : (s.processes p).reading = true) {chunk : List UInt8}
      (hnonempty : chunk ≠ []) (hlength : chunk.length ≤ 2048)
      (hchunk : chunk <+: (s.processes p).printed.drop (s.processes p).taken) :
      Moves u s
        (Machine.change ⟨s.tunnel.takeIn u.config chunk, s.processes, s.spawned, s.fatal,
          s.runs, s.closes⟩
          p fun x => { x with taken := x.taken + chunk.length })
  | readerEnds (s : Machine) {p : ℕ} (hreading : (s.processes p).reading = true) :
      Moves u s (s.change p fun x => { x with reading := false })

/-- The tunnel, with what is left of its task and of the call its owner is in. -/
structure World where
  machine : Machine := {}
  task : Option (Method Unit) := none
  owner : Option (Method Unit) := none

/-- Whoever it is waits. -/
def Idle (c : Option (Method Unit)) : Prop := ∀ m ∈ c, m.Waits

/-- The coroutine is at its end. -/
def Ended : Method Unit → Prop
  | .pure _ | .throw _ => True
  | _ => False

/-- `start`. -/
def start (u : Setup) (w : World) : World :=
  match w.machine.tunnel.task with
  | some _ => w
  | none =>
    { w with
      machine :=
        { w.machine with
          tunnel := { w.machine.tunnel with task := some .running }
          fatal := false
          runs := w.machine.runs + 1 }
      task := some (run u) }

/-- The steps of a tunnel. Its owner calls `start` and `close` one after the other. -/
inductive Step (u : Setup) : World → World → Prop
  | world {w : World} {m : Machine} (htask : Idle w.task) (howner : Idle w.owner)
      (h : Moves u w.machine m) : Step u w ⟨m, w.task, w.owner⟩
  | task {w : World} {c c' : Method Unit} {m : Machine} (htask : w.task = some c)
      (howner : Idle w.owner) (h : Co.Step (I := lang) (body u) Answers (c, w.machine) (c', m)) :
      Step u w ⟨m, some c', w.owner⟩
  | taskEnds {w : World} {c : Method Unit} (htask : w.task = some c) (hend : Ended c)
      (howner : Idle w.owner) :
      Step u w
        ⟨{ w.machine with tunnel := { w.machine.tunnel with task := some .finished } },
          none, w.owner⟩
  | owner {w : World} {c c' : Method Unit} {m : Machine} (howner : w.owner = some c)
      (htask : Idle w.task) (h : Co.Step (I := lang) (body u) Answers (c, w.machine) (c', m)) :
      Step u w ⟨m, w.task, some c'⟩
  | ownerEnds {w : World} {c : Method Unit} (howner : w.owner = some c) (hend : Ended c)
      (htask : Idle w.task) : Step u w ⟨w.machine, w.task, none⟩
  | starts {w : World} (howner : w.owner = none) (htask : Idle w.task) : Step u w (start u w)
  | closes {w : World} (howner : w.owner = none) (htask : Idle w.task) :
      Step u w ⟨w.machine, w.task, some (close u)⟩

end SSHTunnel

end HermesGateway.Client
