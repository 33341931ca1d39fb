import HermesGateway.Library.JsonRead
import Mathlib.Data.Nat.Digits.Defs
import Mathlib.Data.Fin.Basic
import Mathlib.Order.Fin.Basic

/-!
# Operation snapshots

What the broker publishes about an operation, and what the client stores of it: identifiers,
instants, lifecycle states, error codes and the snapshot record itself, with the JSON object
`BrokerStore._snapshot` builds.

A UUID is its 128-bit value, which is also how PostgreSQL orders the `uuid` type. Its text is
the 36-character form of `str(UUID(…))`, and `nativeUuid` is the client's check on such a text.

## Main definitions

* `Uuid.text`, `nativeUuid` — the text of a UUID, and reading it back
* `iso` — the text of an instant
* `OpState`, `ErrorCode` — lifecycle states and the codes of operation errors
* `Snapshot`, `Snapshot.toJson`

## Main results

* `nativeUuid_text` — a UUID survives its own text
* `Snapshot.tidy_toJson` — the JSON of a snapshot is one that `json.loads` reads back
-/

namespace HermesGateway

/-- The authenticated name of a device. -/
abbrev Device := String

/-- A UUID, by its 128-bit value. -/
abbrev Uuid := Fin (2 ^ 128)

instance (priority := 2000) Uuid.neZero : NeZero (2 ^ 128) := ⟨by decide⟩

instance (priority := 2000) Uuid.lawfulBEq : LawfulBEq Uuid := inferInstance

/-- An instant of `timestamptz`: microseconds since the epoch. -/
abbrev Time := ℕ

/-- `timedelta(seconds=n)`. -/
def seconds (n : ℕ) : ℕ := n * 1000000

/-! ### The text of a UUID -/

/-- The last `n` hexadecimal digits of `v`, most significant first. -/
def hexChars : ℕ → ℕ → List Char
  | 0, _ => []
  | n + 1, v => hexChars n (v / 16) ++ [Nat.digitChar (v % 16)]

/-- The groups of `str(UUID(…))`, joined by hyphens. -/
def hyphenated (cs : List Char) : List Char :=
  cs.take 8 ++ '-' :: ((cs.drop 8).take 4 ++ '-' :: ((cs.drop 12).take 4 ++
    '-' :: ((cs.drop 16).take 4 ++ '-' :: cs.drop 20)))

/-- The characters of `str(UUID(…))`. -/
def Uuid.chars (u : Uuid) : List Char := hyphenated (hexChars 32 u.val)

/-- `str(UUID(…))`. -/
def Uuid.text (u : Uuid) : String := String.ofList u.chars

/-- `int(hex, 16)` on hexadecimal digits. -/
def hexNumber (cs : List Char) : Option ℕ :=
  cs.foldlM (fun acc c => (Json.hexValue c).map fun d => acc * 16 + d) 0

/-- `UUID(value)`: 32 hexadecimal digits once the hyphens are gone. The constructor also drops
braces and the `urn:uuid:` mark, but a text with one of those is not the text of its UUID and
fails the comparison that follows. -/
def readUuid (cs : List Char) : Option Uuid :=
  let hex := cs.filter (· ≠ '-')
  if hex.length = 32 then
    (hexNumber hex).bind fun n => if h : n < 2 ^ 128 then some ⟨n, h⟩ else none
  else none

/-- `native_uuid`: a text that is, up to letter case, the text of the UUID it denotes. -/
def nativeUuid (value : String) : Option Uuid :=
  (readUuid value.toList).filter fun u => u.chars = value.toList.map Char.toLower

theorem length_hexChars (n v : ℕ) : (hexChars n v).length = n := by
  induction n generalizing v with
  | zero => rfl
  | succ n ih => simp [hexChars, ih]

/-- A hexadecimal digit as `hexChars` writes it. -/
theorem digitChar_lower : ∀ d < 16, Nat.digitChar d ≠ '-' ∧
    (Nat.digitChar d).toLower = Nat.digitChar d := by decide

theorem mem_hexChars {n v : ℕ} {c : Char} (h : c ∈ hexChars n v) :
    ∃ d < 16, c = Nat.digitChar d := by
  induction n generalizing v with
  | zero => simp [hexChars] at h
  | succ n ih =>
    rw [hexChars, List.mem_append, List.mem_singleton] at h
    rcases h with h | h
    · exact ih h
    · exact ⟨v % 16, Nat.mod_lt _ (by decide), h⟩

theorem hexNumber_hexChars (n v : ℕ) (hv : v < 16 ^ n) : hexNumber (hexChars n v) = some v := by
  induction n generalizing v with
  | zero =>
    have : v = 0 := by simpa using hv
    simp [hexChars, hexNumber, this]
  | succ n ih =>
    have hdiv : v / 16 < 16 ^ n := by
      rw [Nat.div_lt_iff_lt_mul (by decide)]
      rwa [pow_succ] at hv
    have hdigit : Json.hexValue (Nat.digitChar (v % 16)) = some (v % 16) :=
      Json.hexValue_digitChar _ (Nat.mod_lt _ (by decide))
    have hih := ih (v / 16) hdiv
    rw [hexNumber] at hih ⊢
    rw [hexChars, List.foldlM_append, hih]
    simp [hdigit, Nat.div_add_mod']

theorem mem_hyphenated {cs : List Char} {c : Char} (h : c ∈ hyphenated cs) : c = '-' ∨ c ∈ cs := by
  simp only [hyphenated, List.mem_append, List.mem_cons] at h
  rcases h with h | h | h | h | h | h | h | h | h
  · exact .inr (List.mem_of_mem_take h)
  · exact .inl h
  · exact .inr (List.mem_of_mem_drop (List.mem_of_mem_take h))
  · exact .inl h
  · exact .inr (List.mem_of_mem_drop (List.mem_of_mem_take h))
  · exact .inl h
  · exact .inr (List.mem_of_mem_drop (List.mem_of_mem_take h))
  · exact .inl h
  · exact .inr (List.mem_of_mem_drop h)

theorem mem_uuidChars {u : Uuid} {c : Char} (h : c ∈ u.chars) :
    c = '-' ∨ ∃ d < 16, c = Nat.digitChar d :=
  (mem_hyphenated h).imp_right mem_hexChars

theorem filter_hyphenated {cs : List Char} (h : ∀ c ∈ cs, c ≠ '-') :
    (hyphenated cs).filter (· ≠ '-') = cs := by
  have hself : ∀ {l : List Char}, (∀ c ∈ l, c ∈ cs) → l.filter (· ≠ '-') = l := by
    intro l hl
    exact List.filter_eq_self.mpr fun c hc => by simpa using h c (hl c hc)
  have hdrop : ∀ n, ∀ c ∈ cs.drop n, c ∈ cs := fun n c hc => List.mem_of_mem_drop hc
  have htake : ∀ n m, ∀ c ∈ (cs.drop n).take m, c ∈ cs := fun n m c hc =>
    List.mem_of_mem_drop (List.mem_of_mem_take hc)
  have hjoin : ∀ n m, (cs.drop n).take m ++ cs.drop (n + m) = cs.drop n := by
    intro n m
    rw [← List.drop_drop, List.take_append_drop]
  have hdash : ∀ l : List Char, ('-' :: l).filter (· ≠ '-') = l.filter (· ≠ '-') := by simp
  rw [hyphenated]
  simp only [List.filter_append, hdash]
  rw [hself (htake 8 4), hself (htake 12 4), hself (htake 16 4), hself (hdrop 20),
    hself fun c hc => List.mem_of_mem_take hc, hjoin 16 4, hjoin 12 4, hjoin 8 4,
    List.take_append_drop]

/-- The case of its letters does not change the text of a UUID. -/
theorem map_toLower_chars (u : Uuid) : u.chars.map Char.toLower = u.chars := by
  have hlower : ∀ c ∈ u.chars, c.toLower = c := by
    intro c hc
    obtain rfl | ⟨d, hd, rfl⟩ := mem_uuidChars hc
    · decide
    · exact (digitChar_lower d hd).2
  rw [List.map_congr_left hlower, List.map_id']

theorem readUuid_chars (u : Uuid) : readUuid u.chars = some u := by
  have hchars : ∀ c ∈ hexChars 32 u.val, c ≠ '-' := by
    intro c hc
    obtain ⟨d, hd, rfl⟩ := mem_hexChars hc
    exact (digitChar_lower d hd).1
  have hval : u.val < 16 ^ 32 := lt_of_lt_of_eq u.isLt (by norm_num)
  have hnumber := hexNumber_hexChars 32 u.val hval
  have hlength := length_hexChars 32 u.val
  rw [Uuid.chars]
  generalize hexChars 32 u.val = cs at hchars hnumber hlength
  rw [readUuid, filter_hyphenated hchars, if_pos hlength, hnumber, Option.bind_some, dif_pos u.isLt]

/-- **A UUID survives its own text.** -/
theorem nativeUuid_text (u : Uuid) : nativeUuid u.text = some u := by
  rw [nativeUuid, Uuid.text, String.toList_ofList, readUuid_chars, Option.filter_some,
    map_toLower_chars]
  simp

theorem text_injective : Function.Injective Uuid.text := by
  intro u v h
  have := congrArg nativeUuid h
  rwa [nativeUuid_text, nativeUuid_text, Option.some.injEq] at this

/-! ### The text of an instant -/

/-- The civil date of a day since the epoch: year, month, day. Years run from March, so that the
leap day is the last one. -/
def civil (days : ℕ) : ℕ × ℕ × ℕ :=
  let shifted := days + 719468
  let era := shifted / 146097
  let dayOfEra := shifted % 146097
  let yearOfEra := (dayOfEra - dayOfEra / 1460 + dayOfEra / 36524 - dayOfEra / 146096) / 365
  let dayOfYear := dayOfEra - (365 * yearOfEra + yearOfEra / 4 - yearOfEra / 100)
  let march := (5 * dayOfYear + 2) / 153
  let month := if march < 10 then march + 3 else march - 9
  (yearOfEra + era * 400 + (if month ≤ 2 then 1 else 0), month,
    dayOfYear - (153 * march + 2) / 5 + 1)

/-- `n` in at least `width` decimal digits. -/
def padded (width n : ℕ) : List Char :=
  let digits := Nat.toDigits 10 n
  List.replicate (width - digits.length) '0' ++ digits

/-- `iso(value)`: the UTC text of an instant, microseconds only where there are some. -/
def iso (t : Time) : String :=
  let (year, month, day) := civil (t / 86400000000)
  let second := t / 1000000 % 86400
  let fraction := t % 1000000
  String.ofList (padded 4 year ++ '-' :: (padded 2 month ++ '-' :: (padded 2 day ++
    'T' :: (padded 2 (second / 3600) ++ ':' :: (padded 2 (second / 60 % 60) ++
    ':' :: (padded 2 (second % 60) ++ (if fraction = 0 then [] else '.' :: padded 6 fraction) ++
    ['Z']))))))

example : iso 1789908645000120 = "2026-09-20T12:50:45.000120Z" := by decide

/-! ### Lifecycle states -/

/-- The state of an operation. -/
inductive OpState
  | accepted
  | running
  | completed
  | failed
  | canceled
  | outcomeUnknown
deriving DecidableEq, Repr

namespace OpState

/-- The text of a state. -/
def text : OpState → String
  | accepted => "accepted"
  | running => "running"
  | completed => "completed"
  | failed => "failed"
  | canceled => "canceled"
  | outcomeUnknown => "outcome_unknown"

/-- Membership in `FINAL`: the definitive states. -/
def Final (s : OpState) : Prop := s = completed ∨ s = failed ∨ s = canceled

/-- Membership in `TERMINAL`: definitive, or `outcome_unknown`. -/
def Terminal (s : OpState) : Prop := s.Final ∨ s = outcomeUnknown

instance (s : OpState) : Decidable s.Final := inferInstanceAs (Decidable (_ ∨ _))

instance (s : OpState) : Decidable s.Terminal := inferInstanceAs (Decidable (_ ∨ _))

/-- The state a text denotes. -/
def ofText? (s : String) : Option OpState :=
  [accepted, running, completed, failed, canceled, outcomeUnknown].find? fun state => state.text = s

theorem ofText?_text (s : OpState) : ofText? s.text = some s := by
  cases s <;> decide

theorem text_of_ofText? {s : String} {state : OpState} (h : ofText? s = some state) :
    state.text = s := by
  simpa using List.find?_some h

end OpState

/-! ### Errors of an operation -/

/-- The codes of operation errors and of refused requests. -/
inductive ErrorCode
  | notFound
  | idConflict
  | admissionFull
  | invalidArtifacts
  | unsupportedArtifact
  | artifactsTooLarge
  | payloadExpired
  | artifactExpired
  | resultTooLarge
  | resultExpired
  | invalidPeerHandle
  | peerHandleConflict
  | submissionUnknown
  | restartUnknown
  | cancelUnconfirmed
  | peerRequiresInput
  | peerRejected
  | retentionGap
  | invalidCursor
  | resultConflict
  | artifactTooLarge
  | digestMismatch
  | invalidContentType
  | artifactQuota
  | artifactCorrupt
  | unsupportedPeerArtifact
  | invalidPeerArtifact
deriving DecidableEq, Repr

/-- The text of a code. -/
def ErrorCode.text : ErrorCode → String
  | notFound => "not_found"
  | idConflict => "id_conflict"
  | admissionFull => "admission_full"
  | invalidArtifacts => "invalid_artifacts"
  | unsupportedArtifact => "unsupported_artifact"
  | artifactsTooLarge => "artifacts_too_large"
  | payloadExpired => "payload_expired"
  | artifactExpired => "artifact_expired"
  | resultTooLarge => "result_too_large"
  | resultExpired => "result_expired"
  | invalidPeerHandle => "invalid_peer_handle"
  | peerHandleConflict => "peer_handle_conflict"
  | submissionUnknown => "submission_unknown"
  | restartUnknown => "restart_unknown"
  | cancelUnconfirmed => "cancel_unconfirmed"
  | peerRequiresInput => "peer_requires_input"
  | peerRejected => "peer_rejected"
  | retentionGap => "retention_gap"
  | invalidCursor => "invalid_cursor"
  | resultConflict => "result_conflict"
  | artifactTooLarge => "artifact_too_large"
  | digestMismatch => "digest_mismatch"
  | invalidContentType => "invalid_content_type"
  | artifactQuota => "artifact_quota"
  | artifactCorrupt => "artifact_corrupt"
  | unsupportedPeerArtifact => "unsupported_peer_artifact"
  | invalidPeerArtifact => "invalid_peer_artifact"

theorem ErrorCode.text_injective : Function.Injective ErrorCode.text := by
  intro a b h
  cases a <;> cases b <;> first | rfl | exact absurd h (by decide)

/-- The reasons of `REASONS`. -/
inductive PeerReason
  | contextRateLimited
  | contextTurnLimit
  | inputRequired
  | peerRejected
deriving DecidableEq, Repr

/-- The text of a reason. -/
def PeerReason.text : PeerReason → String
  | contextRateLimited => "context_rate_limited"
  | contextTurnLimit => "context_turn_limit"
  | inputRequired => "input_required"
  | peerRejected => "peer_rejected"

/-- The actions of `ACTIONS`. -/
inductive PeerAction
  | waitThenSubmitNew
  | inspectOperation
  | contactOperator
  | provideInput
deriving DecidableEq, Repr

/-- The text of an action. -/
def PeerAction.text : PeerAction → String
  | waitThenSubmitNew => "wait_then_submit_new"
  | inspectOperation => "inspect_operation"
  | contactOperator => "contact_operator"
  | provideInput => "provide_input"

/-- The details `peer_error_details` builds for a task the peer turned away. -/
structure PeerDetails where
  reason : PeerReason
  peerState : String
  recommendedAction : PeerAction
  executionStarted : Option Bool
  retryAfterSeconds : Option (Fin 86401)
  retryAt : Option String
deriving DecidableEq

/-- The dictionary of the details. -/
def PeerDetails.toJson (d : PeerDetails) : Json :=
  .obj ([("reason", .str d.reason.text), ("peer_state", .str d.peerState),
      ("recommended_action", .str d.recommendedAction.text)] ++
    (d.executionStarted.map fun b => ("execution_started", Json.bool b)).toList ++
    (d.retryAfterSeconds.map fun n => ("retry_after_seconds", Json.int n.val)).toList ++
    (d.retryAt.map fun s => ("retry_at", Json.str s)).toList)

/-! ### Results -/

/-- The largest value `max_artifact_bytes` may be configured to. -/
def artifactByteLimit : ℕ := 104857600

/-- `_descriptor(row)`: what is published about a stored artifact. -/
structure Descriptor where
  artifactId : Uuid
  sha256 : String
  size : Fin (artifactByteLimit + 1)
  contentType : String
  expiresAt : Time
deriving DecidableEq

/-- The dictionary of a descriptor. -/
def Descriptor.toJson (d : Descriptor) : Json :=
  .obj [("artifact_id", .str d.artifactId.text), ("sha256", .str d.sha256),
    ("size", .int d.size.val), ("content_type", .str d.contentType),
    ("expires_at", .str (iso d.expiresAt))]

/-- What `finish` is given as a result: the output of a task, or the details of a refusal. -/
inductive ResultBody
  | output (text : String) (artifacts : List Descriptor)
  | errorDetails (details : PeerDetails)
deriving DecidableEq

/-- The dictionary of a result. -/
def ResultBody.toJson : ResultBody → Json
  | output text artifacts =>
    .obj [("text", .str text), ("artifacts", .arr (artifacts.map Descriptor.toJson))]
  | errorDetails details => .obj [("_gateway_error_details", details.toJson)]

/-- The `error` member of a snapshot. -/
structure SnapshotError where
  code : ErrorCode
  message : Option String
  details : Option PeerDetails
deriving DecidableEq

/-- The dictionary of an error. -/
def SnapshotError.toJson (e : SnapshotError) : Json :=
  .obj ([("code", .str e.code.text), ("message", (e.message.map Json.str).getD .null)] ++
    (e.details.map fun d => ("details", d.toJson)).toList)

/-- What `_snapshot` returns. -/
structure Snapshot where
  operationId : Uuid
  flowId : Uuid
  state : OpState
  resultId : Option Uuid
  result : Option ResultBody
  error : Option SnapshotError
  remoteTaskId : Option String
  createdAt : Time
  updatedAt : Time
deriving DecidableEq

/-- The dictionary of a snapshot. -/
def Snapshot.toJson (s : Snapshot) : Json :=
  .obj [("operation_id", .str s.operationId.text), ("flow_id", .str s.flowId.text),
    ("state", .str s.state.text),
    ("result_id", (s.resultId.map fun u => Json.str u.text).getD .null),
    ("result", (s.result.map ResultBody.toJson).getD .null),
    ("error", (s.error.map SnapshotError.toJson).getD .null),
    ("remote_task_id", (s.remoteTaskId.map Json.str).getD .null),
    ("created_at", .str (iso s.createdAt)), ("updated_at", .str (iso s.updatedAt))]

/-! ### Snapshots survive the wire -/

theorem tidy_int_of_lt {n : ℕ} (h : n < 10 ^ 10) : (Json.int n).Tidy := by
  rw [Json.Tidy, Int.natAbs_natCast]
  calc (Nat.toDigits 10 n).length ≤ 10 := (Nat.length_toDigits_le_iff (by decide) (by decide)).2 h
    _ ≤ Json.maxIntDigits := by decide

theorem PeerDetails.tidy_toJson (d : PeerDetails) : d.toJson.Tidy := by
  have hretry : ∀ n : Fin 86401, (Json.int n.val).Tidy := fun n =>
    tidy_int_of_lt (lt_trans n.isLt (by norm_num))
  obtain ⟨reason, peerState, action, started, after, instant⟩ := d
  cases started <;> cases after <;> cases instant <;>
    simp [toJson, Json.Tidy, Json.TidyMembers] <;> exact hretry _

theorem Descriptor.tidy_toJson (d : Descriptor) : d.toJson.Tidy := by
  have hsize : (Json.int d.size.val).Tidy :=
    tidy_int_of_lt (lt_of_lt_of_le d.size.isLt (by norm_num [artifactByteLimit]))
  simpa [toJson, Json.Tidy, Json.TidyMembers] using hsize

theorem ResultBody.tidy_toJson (r : ResultBody) : r.toJson.Tidy := by
  cases r with
  | output text artifacts =>
    have harts : Json.TidyElems (artifacts.map Descriptor.toJson) := by
      induction artifacts with
      | nil => trivial
      | cons d ds ih => exact ⟨d.tidy_toJson, ih⟩
    simpa [toJson, Json.Tidy, Json.TidyMembers] using harts
  | errorDetails details => simpa [toJson, Json.Tidy, Json.TidyMembers] using details.tidy_toJson

theorem SnapshotError.tidy_toJson (e : SnapshotError) : e.toJson.Tidy := by
  obtain ⟨code, message, details⟩ := e
  cases message <;> cases details <;>
    simp [toJson, Json.Tidy, Json.TidyMembers, PeerDetails.tidy_toJson]

/-- The JSON of a snapshot is one that `json.loads` reads back. -/
theorem Snapshot.tidy_toJson (s : Snapshot) : s.toJson.Tidy := by
  obtain ⟨op, flow, state, resultId, result, error, handle, created, updated⟩ := s
  cases resultId <;> cases result <;> cases error <;> cases handle <;>
    simp [toJson, Json.Tidy, Json.TidyMembers, ResultBody.tidy_toJson, SnapshotError.tidy_toJson]

end HermesGateway
