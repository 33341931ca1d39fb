import HermesGateway.Broker.Store
import HermesGateway.Client.Merge
import HermesGateway.Client.Rows
import HermesGateway.Library.Decimal

/-!
# The event stream on the wire

The broker writes an event as three lines and an empty one, the third holding the canonical text of
the snapshot. The client reads lines, as `str.splitlines` cuts the decoded text, and ingests what
was collected at every empty line.

The canonical text is written without ASCII escaping. Control characters are escaped in it, but the
three boundaries of `splitlines` above the control range are not: a text that holds one is cut
there, and the frame is lost. Nothing else in a text can disturb the framing.

## Main definitions

* `Chunk`, `streamBytes` — what the broker writes
* `Parser.step`, `readLines`, `ingested` — what the client makes of it

## Main results

* `lines_stream` — a stream without such a boundary is cut into the lines of its frames
* `chars_of_ingested` — no ingested value holds such a boundary
* `event_stream_round_trip` — when the client ingests exactly what was sent
-/

namespace HermesGateway.Wire

open Client ClientStore

/-! ### The broker's side -/

/-- A frame of the stream, or a comment that keeps it alive. -/
inductive Chunk
  | event (sequence : ℕ) (snapshot : Snapshot)
  | keepalive
deriving DecidableEq

/-- The start of the first line of a frame. -/
def idField : List Char := "id: ".toList

/-- Its second line. -/
def eventLine : List Char := "event: operation".toList

/-- The start of its third line. -/
def dataField : List Char := "data: ".toList

/-- The comment that keeps the stream alive. -/
def comment : List Char := ": keepalive".toList

/-- The text of a chunk. -/
def Chunk.text : Chunk → List Char
  | .event sequence snapshot =>
    idField ++ Nat.toDigits 10 sequence ++ ['\n'] ++ eventLine ++ ['\n'] ++ dataField ++
      snapshot.toJson.canonical ++ ['\n', '\n']
  | .keepalive => comment ++ ['\n', '\n']

/-- What `stream` yields for a chunk. -/
def Chunk.bytes (c : Chunk) : ByteArray := (String.ofList c.text).toUTF8

/-- The body of the response. -/
def streamBytes (chunks : List Chunk) : ByteArray :=
  chunks.foldr (fun c rest => c.bytes ++ rest) ByteArray.empty

/-- The events among the chunks. -/
def events (chunks : List Chunk) : List (ℕ × Snapshot) :=
  chunks.filterMap fun
    | .event sequence snapshot => some (sequence, snapshot)
    | .keepalive => none

/-! ### The client's side -/

/-- What ends the reading of a stream. -/
inductive StreamFailure
  | value (message : String)
  | int
  | json
  | store (failure : Failure)
deriving DecidableEq

/-- The fields the client looks for. -/
def idKey : List Char := "id:".toList

@[inherit_doc idKey]
def eventKey : List Char := "event:".toList

@[inherit_doc idKey]
def dataKey : List Char := "data:".toList

/-- The type of the events it takes. -/
def operationType : List Char := "operation".toList

/-- The variables of the loop of `_events`. -/
structure Parser where
  eventId : Option ℤ
  eventType : List Char
  data : List (List Char)
  size : ℕ
deriving DecidableEq

/-- Their values after an empty line. -/
def Parser.fresh : Parser := ⟨none, "message".toList, [], 0⟩

/-- The bound on an event, in characters. -/
def maxEventSize : ℕ := 2 * 1024 * 1024

/-- What an empty line makes the client ingest. -/
def Parser.dispatch (p : Parser) (cursor : ℕ) : Except StreamFailure (Option (ℤ × Json)) :=
  if p.data ≠ [] ∧ p.eventType = operationType then
    match p.eventId with
    | none => .error (.value "SSE operation requires a durable cursor")
    | some id =>
      if (cursor : ℤ) < id then
        match Json.loads (List.intercalate ['\n'] p.data) with
        | none => .error .json
        | some v => .ok (some (id, v))
      else .ok none
  else .ok none

/-- One pass of the loop: the variables after the line, and what is to be ingested. -/
def Parser.step (p : Parser) (cursor : ℕ) (line : List Char) :
    Except StreamFailure (Parser × Option (ℤ × Json)) :=
  let size := p.size + line.length
  if maxEventSize < size then .error (.value "SSE event exceeds client bound")
  else if line = [] then
    match p.dispatch cursor with
    | .error e => .error e
    | .ok call => .ok (Parser.fresh, call)
  else if idKey.isPrefixOf line then
    match intOf (strip (line.drop 3)) with
    | none => .error .int
    | some id => .ok ({ p with eventId := some id, size := size }, none)
  else if eventKey.isPrefixOf line then
    .ok ({ p with eventType := strip (line.drop 6), size := size }, none)
  else if dataKey.isPrefixOf line then
    .ok ({ p with data := p.data ++ [(line.drop 5).dropWhile (· = ' ')], size := size }, none)
  else .ok ({ p with size := size }, none)

/-- The loop: what the client ingests, up to the first failure. -/
def readLines (store : ClientStore) : List (List Char) → Parser → Session → List (ℤ × Json)
  | [], _, _ => []
  | line :: lines, p, σ =>
    match p.step σ.tables.cursor line with
    | .error _ => []
    | .ok (p', none) => readLines store lines p' σ
    | .ok (p', some (id, v)) =>
      match store.ingest v (some id) none σ with
      | .error _ => []
      | .ok (_, σ') => (id, v) :: readLines store lines p' σ'

/-- What the client ingests of a response. The bytes of the broker are always UTF-8. -/
def ingested (store : ClientStore) (bytes : ByteArray) (σ : Session) : List (ℤ × Json) :=
  match String.fromUTF8? bytes with
  | none => []
  | some text => readLines store (splitlines text.toList) Parser.fresh σ

/-! ### Bytes and text -/

theorem streamBytes_eq (chunks : List Chunk) :
    streamBytes chunks = (String.ofList (chunks.flatMap Chunk.text)).toUTF8 := by
  induction chunks with
  | nil => rfl
  | cons c chunks ih =>
    rw [streamBytes, List.foldr_cons, ← streamBytes, ih, Chunk.bytes, List.flatMap_cons,
      String.ofList_append]
    exact String.toByteArray_append.symm

theorem ingested_streamBytes (store : ClientStore) (chunks : List Chunk) (σ : Session) :
    ingested store (streamBytes chunks) σ =
      readLines store (splitlines (chunks.flatMap Chunk.text)) Parser.fresh σ := by
  have hvalid := (String.ofList (chunks.flatMap Chunk.text)).isValidUTF8
  have hdecode : String.fromUTF8? (streamBytes chunks) =
      some (String.ofList (chunks.flatMap Chunk.text)) := by
    rw [streamBytes_eq, String.fromUTF8?, String.toUTF8_eq_toByteArray, dif_pos hvalid]
    rfl
  rw [ingested, hdecode]
  simp only [String.toList_ofList]

/-! ### Lines without a boundary -/

/-- No text in the snapshot holds a boundary that its canonical text does not escape. -/
def Unbroken (s : Snapshot) : Prop :=
  ∀ c ∈ s.toJson.chars, c ≠ '\u0085' ∧ c ≠ '\u2028' ∧ c ≠ '\u2029'

/-- The lines of a chunk. -/
def Chunk.lines : Chunk → List (List Char)
  | .event sequence snapshot =>
    [idField ++ Nat.toDigits 10 sequence, eventLine, dataField ++ snapshot.toJson.canonical, []]
  | .keepalive => [comment, []]

/-- The canonical text of an unbroken snapshot is one line. -/
theorem canonical_unbroken {s : Snapshot} (h : Unbroken s) :
    ∀ c ∈ s.toJson.canonical, isLineBreak c = false := by
  intro c hc
  rcases Json.mem_dumps (Json.tidy_sortKeys s.tidy_toJson) hc with hprint | ⟨hmem, hle⟩
  · exact not_isLineBreak_of_printable hprint
  · have hne := h c ((Json.mem_chars_sortKeys _ c).mp hmem)
    by_contra hbreak
    rw [Bool.not_eq_false] at hbreak
    rcases isLineBreak_of_le hle hbreak with rfl | rfl | rfl
    · exact hne.1 rfl
    · exact hne.2.1 rfl
    · exact hne.2.2 rfl

/-- The literals hold no boundary. -/
theorem literals_unbroken :
    ∀ c ∈ idField ++ eventLine ++ dataField ++ comment, isLineBreak c = false := by
  decide +kernel

/-- A chunk is cut into its lines. -/
theorem splitlines_chunk {c : Chunk} (h : ∀ n s, c = .event n s → Unbroken s) (rest : List Char) :
    splitlines (c.text ++ rest) = c.lines ++ splitlines rest := by
  have hempty : ∀ rest, splitlines ('\n' :: rest) = [] :: splitlines rest := fun rest =>
    splitlines_append rest (a := []) (by simp)
  have hliteral := literals_unbroken
  simp only [List.mem_append] at hliteral
  cases c with
  | keepalive =>
    have htext : Chunk.keepalive.text ++ rest = comment ++ '\n' :: '\n' :: rest := by
      simp [Chunk.text]
    rw [htext, splitlines_append _ fun c hc => hliteral c (.inr hc), hempty]
    simp [Chunk.lines]
  | event n s =>
    have htext : (Chunk.event n s).text ++ rest = (idField ++ Nat.toDigits 10 n) ++ '\n' ::
        (eventLine ++ '\n' :: ((dataField ++ s.toJson.canonical) ++ '\n' :: '\n' :: rest)) := by
      simp [Chunk.text]
    have hid : ∀ c ∈ idField ++ Nat.toDigits 10 n, isLineBreak c = false := by
      intro c hc
      rcases List.mem_append.mp hc with hc | hc
      · exact hliteral c (.inl (.inl (.inl hc)))
      · exact not_isLineBreak_of_printable
          (Json.printable_of_isDigit (Json.isDigit_toDigits n c hc))
    have hdata : ∀ c ∈ dataField ++ s.toJson.canonical, isLineBreak c = false := by
      intro c hc
      rcases List.mem_append.mp hc with hc | hc
      · exact hliteral c (.inl (.inr hc))
      · exact canonical_unbroken (h n s rfl) c hc
    rw [htext, splitlines_append _ hid,
      splitlines_append _ fun c hc => hliteral c (.inl (.inl (.inr hc))), splitlines_append _ hdata,
      hempty]
    simp [Chunk.lines]

/-- **A stream of unbroken snapshots is cut into the lines of its chunks.** -/
theorem lines_stream {chunks : List Chunk} (h : ∀ x ∈ events chunks, Unbroken x.2) :
    splitlines (chunks.flatMap Chunk.text) = chunks.flatMap Chunk.lines := by
  induction chunks with
  | nil => rfl
  | cons c chunks ih =>
    have hc : ∀ n s, c = .event n s → Unbroken s := by
      rintro n s rfl
      exact h (n, s) (List.mem_filterMap.mpr ⟨_, List.mem_cons_self, rfl⟩)
    have hrest : ∀ x ∈ events chunks, Unbroken x.2 := by
      intro x hx
      obtain ⟨c', hc', hx'⟩ := List.mem_filterMap.mp hx
      exact h x (List.mem_filterMap.mpr ⟨c', List.mem_cons_of_mem c hc', hx'⟩)
    rw [List.flatMap_cons, splitlines_chunk hc, ih hrest, List.flatMap_cons]

/-! ### Reading a frame -/

section

variable {store : ClientStore} {p : Parser} {cursor n : ℕ} {s : Snapshot}

/-- How the broker's literals are made up of the client's. -/
theorem literals :
    idField = idKey ++ [' '] ∧ dataField = dataKey ++ [' '] ∧
      eventLine = eventKey ++ ' ' :: operationType ∧ idKey = ['i', 'd', ':'] ∧
      eventKey = ['e', 'v', 'e', 'n', 't', ':'] ∧ dataKey = ['d', 'a', 't', 'a', ':'] ∧
      comment = ':' :: ' ' :: "keepalive".toList ∧ ∀ c ∈ operationType, isSpace c = false := by
  decide +kernel

theorem isSpace_of_isDigit {c : Char} (h : c.isDigit = true) : isSpace c = false := by
  have hc : 48 ≤ c.toNat ∧ c.toNat ≤ 57 := by
    simp only [Char.isDigit, Bool.and_eq_true, decide_eq_true_eq, UInt32.le_iff_toNat_le] at h
    exact h
  have hall : ∀ k < 58, 48 ≤ k → isSpace (Char.ofNat k) = false := by decide
  rw [← Char.ofNat_toNat c]
  exact hall c.toNat (by omega) hc.1

theorem step_id (hn : (Nat.toDigits 10 n).length ≤ Json.maxIntDigits)
    (hsize : p.size + (idField ++ Nat.toDigits 10 n).length ≤ maxEventSize) :
    p.step cursor (idField ++ Nat.toDigits 10 n) =
      .ok ({ p with
        eventId := some n
        size := p.size + (idField ++ Nat.toDigits 10 n).length }, none) := by
  obtain ⟨hid, -, -, hkey, -⟩ := literals
  have hstrip : strip ((idField ++ Nat.toDigits 10 n).drop 3) = Nat.toDigits 10 n := by
    rw [hid, hkey]
    exact strip_cons (by decide) fun c hc => isSpace_of_isDigit (Json.isDigit_toDigits n c hc)
  have hline : idField ++ Nat.toDigits 10 n ≠ [] := by
    rw [hid, hkey]
    simp
  have hfield : idKey.isPrefixOf (idField ++ Nat.toDigits 10 n) = true := by
    rw [hid, List.append_assoc, List.isPrefixOf_iff_prefix]
    exact List.prefix_append _ _
  simp only [Parser.step, if_neg (not_lt.mpr hsize), if_neg hline, if_pos hfield, hstrip,
    intOf_toDigits hn]

theorem step_event (hsize : p.size + eventLine.length ≤ maxEventSize) :
    p.step cursor eventLine =
      .ok ({ p with
        eventType := operationType
        size := p.size + eventLine.length }, none) := by
  obtain ⟨-, -, hline, hid, hevent, -, -, htype⟩ := literals
  have hne : eventLine ≠ [] := by
    rw [hline, hevent]
    simp
  have hnot : ¬ idKey.isPrefixOf eventLine = true := by
    rw [hline, hevent, hid]
    simp
  have hfield : eventKey.isPrefixOf eventLine = true := by
    rw [hline, List.isPrefixOf_iff_prefix]
    exact List.prefix_append _ _
  have hstrip : strip (eventLine.drop 6) = operationType := by
    rw [hline, hevent]
    exact strip_cons (by decide) htype
  simp only [Parser.step, if_neg (not_lt.mpr hsize), if_neg hne, if_neg hnot, if_pos hfield, hstrip]

theorem step_data (hsize : p.size + (dataField ++ s.toJson.canonical).length ≤ maxEventSize) :
    p.step cursor (dataField ++ s.toJson.canonical) =
      .ok ({ p with
        data := p.data ++ [s.toJson.canonical]
        size := p.size + (dataField ++ s.toJson.canonical).length }, none) := by
  obtain ⟨-, hdata, -, hid, hevent, hkey, -⟩ := literals
  have hne : dataField ++ s.toJson.canonical ≠ [] := by
    rw [hdata, hkey]
    simp
  have hnotId : ¬ idKey.isPrefixOf (dataField ++ s.toJson.canonical) = true := by
    rw [hdata, hkey, hid]
    simp
  have hnotEvent : ¬ eventKey.isPrefixOf (dataField ++ s.toJson.canonical) = true := by
    rw [hdata, hkey, hevent]
    simp
  have hfield : dataKey.isPrefixOf (dataField ++ s.toJson.canonical) = true := by
    rw [hdata, List.append_assoc, List.isPrefixOf_iff_prefix]
    exact List.prefix_append _ _
  have hdrop : ((dataField ++ s.toJson.canonical).drop 5).dropWhile (· = ' ') =
      s.toJson.canonical := by
    obtain ⟨c, t, hc, hblank, -⟩ := Json.dumps_head (Json.tidy_sortKeys s.tidy_toJson)
    have hspace : c ≠ ' ' := by
      rintro rfl
      exact absurd hblank (by decide)
    rw [hdata, hkey, Json.canonical, hc]
    simp [hspace]
  simp only [Parser.step, if_neg (not_lt.mpr hsize), if_neg hne, if_neg hnotId, if_neg hnotEvent,
    if_pos hfield, hdrop]

theorem step_comment (hsize : p.size + comment.length ≤ maxEventSize) :
    p.step cursor comment = .ok ({ p with size := p.size + comment.length }, none) := by
  obtain ⟨-, -, -, hid, hevent, hdata, hcomment, -⟩ := literals
  have hne : comment ≠ [] := by
    rw [hcomment]
    simp
  have hnot : ¬ idKey.isPrefixOf comment = true ∧ ¬ eventKey.isPrefixOf comment = true ∧
      ¬ dataKey.isPrefixOf comment = true := by
    rw [hid, hevent, hdata, hcomment]
    simp
  simp only [Parser.step, if_neg (not_lt.mpr hsize), if_neg hne, if_neg hnot.1, if_neg hnot.2.1,
    if_neg hnot.2.2]

/-- A character takes one to four bytes. -/
theorem length_le_size (cs : List Char) :
    cs.length ≤ (String.ofList cs).toUTF8.size ∧
      (String.ofList cs).toUTF8.size ≤ 4 * cs.length := by
  rw [String.toUTF8_eq_toByteArray, String.toByteArray_ofList]
  induction cs with
  | nil => simp
  | cons c cs ih =>
    rw [List.utf8Encode_cons, ByteArray.size_append, List.length_cons]
    have hpos := c.utf8Size_pos
    have hle := c.utf8Size_le_four
    rw [List.utf8Encode_singleton, List.size_toByteArray, String.length_utf8EncodeChar]
    omega

theorem step_empty (hsize : p.size ≤ maxEventSize) {call : Option (ℤ × Json)}
    (h : p.dispatch cursor = .ok call) : p.step cursor [] = .ok (Parser.fresh, call) := by
  have hbound : ¬ maxEventSize < p.size + ([] : List Char).length := not_lt.mpr hsize
  simp only [Parser.step, if_neg hbound, if_true, h]

/-- A line that only changes the variables. -/
theorem readLines_next {σ : Session} {line : List Char} {p' : Parser} (rest : List (List Char))
    (h : p.step σ.tables.cursor line = .ok (p', none)) :
    readLines store (line :: rest) p σ = readLines store rest p' σ := by
  rw [readLines, h]

/-- A line that makes the client ingest a snapshot. -/
theorem readLines_call {σ σ' : Session} {line : List Char} {p' : Parser} {id : ℤ} {v : Json}
    (rest : List (List Char)) (h : p.step σ.tables.cursor line = .ok (p', some (id, v)))
    (hingest : store.ingest v (some id) none σ = .ok ((), σ')) :
    readLines store (line :: rest) p σ = (id, v) :: readLines store rest p' σ' := by
  rw [readLines, h]
  simp only [hingest]

/-- The lines of a frame leave its event in the variables. -/
theorem dispatch_event (hnew : cursor < n) (size : ℕ) :
    Parser.dispatch ⟨some n, operationType, [s.toJson.canonical], size⟩ cursor =
      .ok (some ((n : ℤ), stored s)) := by
  have hcursor : (cursor : ℤ) < (n : ℤ) := by exact_mod_cast hnew
  have hloads : Json.loads s.toJson.canonical = some (stored s) :=
    Json.loads_dumps (Json.tidy_sortKeys s.tidy_toJson)
  simp only [Parser.dispatch, List.intercalate_singleton, hloads, if_pos hcursor]
  simp

/-- A frame whose event is new to the client makes it ingest the snapshot. -/
theorem readLines_event {σ σ' : Session} (hn : n < Broker.BrokerStore.bigintLimit)
    (hnew : σ.tables.cursor < n) (hsize : (Chunk.event n s).bytes.size ≤ maxEventSize)
    (hingest : store.ingest (stored s) (some n) none σ = .ok ((), σ')) (rest : List (List Char)) :
    readLines store ((Chunk.event n s).lines ++ rest) Parser.fresh σ =
      ((n : ℤ), stored s) :: readLines store rest Parser.fresh σ' := by
  have hdigits : (Nat.toDigits 10 n).length ≤ Json.maxIntDigits := by
    calc (Nat.toDigits 10 n).length ≤ 20 := (Nat.length_toDigits_le_iff (by decide) (by decide)).2
          (hn.trans (by norm_num [Broker.BrokerStore.bigintLimit]))
      _ ≤ Json.maxIntDigits := by decide
  have hlength := (length_le_size _).1.trans hsize
  simp only [Chunk.text, List.length_append, List.length_cons, List.length_nil] at hlength
  -- the variables after each of the three lines
  have hid := @step_id Parser.fresh σ.tables.cursor n hdigits (by
    simp only [Parser.fresh, List.length_append]
    omega)
  have hevent := @step_event ⟨some n, "message".toList, [],
      0 + (idField ++ Nat.toDigits 10 n).length⟩ σ.tables.cursor (by
    simp only [List.length_append]
    omega)
  have hdata := @step_data ⟨some n, operationType, [], 0 + (idField ++ Nat.toDigits 10 n).length +
      eventLine.length⟩ σ.tables.cursor s (by
    simp only [List.length_append]
    omega)
  have hempty := step_empty (p := ⟨some n, operationType, [] ++ [s.toJson.canonical],
      0 + (idField ++ Nat.toDigits 10 n).length + eventLine.length +
        (dataField ++ s.toJson.canonical).length⟩) (by
    simp only [List.length_append]
    omega) (dispatch_event hnew _)
  simp only [Chunk.lines, List.cons_append, List.nil_append]
  exact (readLines_next _ hid).trans ((readLines_next _ hevent).trans
    ((readLines_next _ hdata).trans (readLines_call _ hempty hingest)))

/-- A comment makes it do nothing. -/
theorem readLines_keepalive {σ : Session} (rest : List (List Char)) :
    readLines store (Chunk.keepalive.lines ++ rest) Parser.fresh σ =
      readLines store rest Parser.fresh σ := by
  have hsize : 0 + comment.length ≤ maxEventSize := by decide +kernel
  have hcomment := @step_comment Parser.fresh σ.tables.cursor hsize
  have hempty := @step_empty ⟨none, "message".toList, [], 0 + comment.length⟩ σ.tables.cursor hsize
    none (by simp [Parser.dispatch])
  simp only [Chunk.lines, List.cons_append, List.nil_append]
  exact (readLines_next _ hcomment).trans (readLines_next _ hempty)

end

/-! ### Reading a stream -/

/-- The events of a stream are such as the broker sends to a client with these tables: numbered
upwards from beyond its cursor, no frame over the bound, every terminal snapshot with its result
identifier, and the flows as the client knows them. -/
structure Sendable (T : Tables) (chunks : List Chunk) : Prop where
  numbered : (T.cursor :: (events chunks).map Prod.fst).Pairwise (· < ·)
  bigint : ∀ x ∈ events chunks, x.1 < Broker.BrokerStore.bigintLimit
  size : ∀ x ∈ events chunks, (Chunk.event x.1 x.2).bytes.size ≤ maxEventSize
  resultId : ∀ x ∈ events chunks, x.2.state.Terminal → x.2.resultId ≠ none
  flow : ∀ x ∈ events chunks, ∀ r, T.operation? x.2.operationId = some r → r.flowId = x.2.flowId

section

variable {store : ClientStore}

theorem events_event (n : ℕ) (s : Snapshot) (chunks : List Chunk) :
    events (.event n s :: chunks) = (n, s) :: events chunks := rfl

/-- The cursor and the flows after an event. -/
theorem tables_of_ingest {v : Json} {n : ℕ} {σ σ' : Session}
    (h : store.ingest v (some n) none σ = .ok ((), σ')) :
    σ'.tables.cursor = max σ.tables.cursor n ∧
      ∀ op r', σ'.tables.operation? op = some r' →
        ∃ r, σ.tables.operation? op = some r ∧ r'.flowId = r.flowId := by
  obtain ⟨op', -, -, -, hcursor, -, u, e, hrows⟩ := acceptSnapshot_eq_ok (ingest_eq_ok h).2
  refine ⟨hcursor, fun op r' hr' => ?_⟩
  rw [hrows op] at hr'
  split_ifs at hr'
  · obtain ⟨r, hr, rfl⟩ := Option.map_eq_some_iff.mp hr'
    refine ⟨r, hr, ?_⟩
    split_ifs
    · rfl
    · exact (merged_columns r v u e).2.1
  · exact ⟨r', hr', rfl⟩

/-- After its first event the rest of a stream is still sendable. -/
theorem Sendable.tail {n : ℕ} {s : Snapshot} {chunks : List Chunk} {σ σ' : Session} {v : Json}
    (h : Sendable σ.tables (.event n s :: chunks))
    (hingest : store.ingest v (some n) none σ = .ok ((), σ')) : Sendable σ'.tables chunks := by
  obtain ⟨hcursor, hflow⟩ := tables_of_ingest hingest
  have hnum := h.numbered
  rw [events_event, List.map_cons, List.pairwise_cons] at hnum
  obtain ⟨hfirst, hrest⟩ := hnum
  have hn : σ.tables.cursor < n := hfirst n List.mem_cons_self
  refine ⟨?_, fun x hx => h.bigint x (List.mem_cons_of_mem _ hx),
    fun x hx => h.size x (List.mem_cons_of_mem _ hx),
    fun x hx => h.resultId x (List.mem_cons_of_mem _ hx), fun x hx r' hr' => ?_⟩
  · rw [hcursor, max_eq_right hn.le]
    exact hrest
  · obtain ⟨r, hr, heq⟩ := hflow _ r' hr'
    exact heq.trans (h.flow x (List.mem_cons_of_mem _ hx) r hr)

/-- From the lines of its chunks the client ingests the events of a stream. -/
theorem readLines_stream : ∀ {chunks : List Chunk} {σ : Session}, Sendable σ.tables chunks →
    readLines store (chunks.flatMap Chunk.lines) Parser.fresh σ =
      (events chunks).map fun x => ((x.1 : ℤ), stored x.2)
  | [], _, _ => rfl
  | .keepalive :: chunks, σ, h => by
    rw [List.flatMap_cons, readLines_keepalive]
    exact readLines_stream ⟨h.numbered, h.bigint, h.size, h.resultId, h.flow⟩
  | .event n s :: chunks, σ, h => by
    have hmem : (n, s) ∈ events (.event n s :: chunks) := List.mem_cons_self
    have hnew : σ.tables.cursor < n :=
      (List.pairwise_cons.mp h.numbered).1 n (List.mem_map_of_mem hmem)
    have hseq : ∀ m : ℤ, some (n : ℤ) = some m → 0 ≤ m := by
      intro m hm
      rw [← Option.some.inj hm]
      exact Int.natCast_nonneg n
    obtain ⟨σ', hingest⟩ := @Reads.ingest store σ s _ (reads_stored s) (h.resultId _ hmem) _ hseq
      (h.flow _ hmem)
    rw [List.flatMap_cons, readLines_event (h.bigint _ hmem) hnew (h.size _ hmem) hingest,
      readLines_stream (h.tail hingest), events_event, List.map_cons]

end

/-! ### What cannot be ingested -/

section

open Json

variable {store : ClientStore}

/-- The text of a line: no boundary in it, and every backslash starts an escape. -/
def Clean (line : List Char) : Prop := EscSafe line ∧ ∀ c ∈ line, isLineBreak c = false

/-- A text that was joined from clean lines says nothing with a boundary above the control range. -/
theorem clean_loads {data : List (List Char)} (h : ∀ line ∈ data, Clean line) {v : Json}
    (hv : loads (List.intercalate ['\n'] data) = some v) :
    ∀ c ∈ v.chars, 128 ≤ c.toNat → isLineBreak c = false := by
  have hjoin : ∀ data : List (List Char), (∀ line ∈ data, Clean line) →
      EscSafe (List.intercalate ['\n'] data) ∧
        ∀ c ∈ List.intercalate ['\n'] data, c = '\n' ∨ isLineBreak c = false := by
    intro data hdata
    induction data with
    | nil => exact ⟨.nil, by simp [List.intercalate]⟩
    | cons line rest ih =>
      obtain ⟨hesc, hbreak⟩ := hdata line List.mem_cons_self
      cases rest with
      | nil =>
        rw [List.intercalate_singleton]
        exact ⟨hesc, fun c hc => .inr (hbreak c hc)⟩
      | cons next rest =>
        obtain ⟨ihesc, ihbreak⟩ := ih fun l hl => hdata l (List.mem_cons_of_mem _ hl)
        rw [List.intercalate_cons_cons]
        refine ⟨(hesc.append (.plain (by decide) .nil)).append ihesc, fun c hc => ?_⟩
        rcases List.mem_append.mp hc with hc | hc
        · rcases List.mem_append.mp hc with hc | hc
          · exact .inr (hbreak c hc)
          · exact .inl (List.mem_singleton.mp hc)
        · exact ihbreak c hc
  obtain ⟨hesc, hbreak⟩ := hjoin data h
  intro c hc hascii
  rcases hbreak c (chars_of_loads hesc hv hc hascii) with rfl | hc
  · exact absurd hascii (by decide)
  · exact hc

/-- What a line leaves to be collected, and what it makes the client ingest. -/
theorem step_clean {p p' : Parser} {cursor : ℕ} {line : List Char} {call : Option (ℤ × Json)}
    (hp : ∀ l ∈ p.data, Clean l) (hline : Clean line)
    (h : p.step cursor line = .ok (p', call)) :
    (∀ l ∈ p'.data, Clean l) ∧
      ∀ id v, call = some (id, v) → ∀ c ∈ v.chars, 128 ≤ c.toNat → isLineBreak c = false := by
  unfold Parser.step at h
  dsimp only at h
  split_ifs at h with hsize hempty hid hevent hdata
  · cases hdispatch : p.dispatch cursor with
    | error e => simp [hdispatch] at h
    | ok call' =>
      simp only [hdispatch, Except.ok.injEq, Prod.mk.injEq] at h
      obtain ⟨rfl, rfl⟩ := h
      refine ⟨fun l hl => absurd hl List.not_mem_nil, ?_⟩
      rintro id v rfl
      unfold Parser.dispatch at hdispatch
      split_ifs at hdispatch with hoperation
      · cases hid : p.eventId with
        | none => simp [hid] at hdispatch
        | some id' =>
          simp only [hid] at hdispatch
          split_ifs at hdispatch with hnew
          · cases hloads : loads (List.intercalate ['\n'] p.data) with
            | none => simp [hloads] at hdispatch
            | some v' =>
              simp only [hloads, Except.ok.injEq, Option.some.injEq, Prod.mk.injEq] at hdispatch
              rw [← hdispatch.2]
              exact clean_loads hp hloads
          · cases hdispatch
      · cases hdispatch
  · cases hint : intOf (strip (line.drop 3)) with
    | none => simp [hint] at h
    | some id =>
      simp only [hint, Except.ok.injEq, Prod.mk.injEq] at h
      obtain ⟨rfl, rfl⟩ := h
      exact ⟨hp, by simp⟩
  · obtain ⟨rfl, rfl⟩ := Prod.mk.inj (Except.ok.inj h)
    exact ⟨hp, by simp⟩
  · obtain ⟨rfl, rfl⟩ := Prod.mk.inj (Except.ok.inj h)
    refine ⟨fun l hl => ?_, by simp⟩
    rcases List.mem_append.mp hl with hl | hl
    · exact hp l hl
    · -- the field name holds no backslash, so what follows it is still escape-safe
      rw [List.mem_singleton.mp hl]
      obtain ⟨rest, rfl⟩ := List.isPrefixOf_iff_prefix.mp hdata
      have hkey : dataKey = ['d', 'a', 't', 'a', ':'] := literals.2.2.2.2.2.1
      have hdrop : (dataKey ++ rest).drop 5 = rest := by
        rw [hkey]
        rfl
      have hplain : ∀ c ∈ dataKey, c ≠ '\\' := by
        rw [hkey]
        decide
      rw [hdrop]
      refine ⟨(hline.1.of_append hplain).dropWhile (by decide), fun c hc => ?_⟩
      exact hline.2 c (List.mem_append_right _ (List.dropWhile_subset _ hc))
  · obtain ⟨rfl, rfl⟩ := Prod.mk.inj (Except.ok.inj h)
    exact ⟨hp, by simp⟩

/-- From clean lines no boundary above the control range is ingested. -/
theorem readLines_clean : ∀ {lines : List (List Char)} {p : Parser} {σ : Session},
    (∀ l ∈ p.data, Clean l) → (∀ l ∈ lines, Clean l) →
    ∀ x ∈ readLines store lines p σ, ∀ c ∈ x.2.chars, 128 ≤ c.toNat → isLineBreak c = false
  | [], _, _, _, _ => fun x hx => absurd hx List.not_mem_nil
  | line :: lines, p, σ, hp, hlines => by
    have hline := hlines line List.mem_cons_self
    have hrest := fun l hl => hlines l (List.mem_cons_of_mem line hl)
    intro x hx
    rw [readLines] at hx
    cases hstep : p.step σ.tables.cursor line with
    | error e =>
      rw [hstep] at hx
      exact absurd hx List.not_mem_nil
    | ok y =>
      obtain ⟨p', call⟩ := y
      obtain ⟨hp', hcall⟩ := step_clean hp hline hstep
      rw [hstep] at hx
      cases call with
      | none => exact readLines_clean hp' hrest x hx
      | some y =>
        obtain ⟨id, v⟩ := y
        dsimp only at hx
        cases hingest : store.ingest v (some id) none σ with
        | error e =>
          rw [hingest] at hx
          exact absurd hx List.not_mem_nil
        | ok z =>
          rw [hingest] at hx
          rcases List.mem_cons.mp hx with rfl | hx
          · exact hcall id v rfl
          · exact readLines_clean hp' hrest x hx

theorem escSafe_text (c : Chunk) : EscSafe c.text := by
  have hliteral : ∀ c ∈ idField ++ eventLine ++ dataField ++ comment, c ≠ '\\' := by
    decide +kernel
  simp only [List.mem_append] at hliteral
  have hfeed : EscSafe ['\n'] := .plain (by decide) .nil
  have hfeeds : EscSafe ['\n', '\n'] := .plain (by decide) hfeed
  cases c with
  | keepalive => exact (escSafe_of_forall_ne fun c hc => hliteral c (.inr hc)).append hfeeds
  | event n s =>
    have hdigits : EscSafe (Nat.toDigits 10 n) := by
      refine escSafe_of_forall_ne fun c hc => ?_
      rintro rfl
      exact absurd (isDigit_toDigits n _ hc) (by decide)
    have hid := escSafe_of_forall_ne fun c hc => hliteral c (.inl (.inl (.inl hc)))
    have hevent := escSafe_of_forall_ne fun c hc => hliteral c (.inl (.inl (.inr hc)))
    have hdata := escSafe_of_forall_ne fun c hc => hliteral c (.inl (.inr hc))
    have hcanonical : EscSafe s.toJson.canonical := escSafe_dumps (tidy_sortKeys s.tidy_toJson)
    exact ((((((hid.append hdigits).append hfeed).append hevent).append hfeed).append hdata).append
      hcanonical).append hfeeds

/-- **No boundary above the control range is ingested**, whatever the stream holds. -/
theorem chars_of_ingested {chunks : List Chunk} {σ : Session} :
    ∀ x ∈ ingested store (streamBytes chunks) σ, ∀ c ∈ x.2.chars, 128 ≤ c.toNat →
      isLineBreak c = false := by
  have hsafe : EscSafe (chunks.flatMap Chunk.text) := by
    induction chunks with
    | nil => exact .nil
    | cons c chunks ih => exact (escSafe_text c).append ih
  rw [ingested_streamBytes]
  refine readLines_clean (fun l hl => absurd hl List.not_mem_nil) fun l hl => ⟨?_, ?_⟩
  · exact escSafe_of_mem_splitlines hsafe hl
  · exact fun c hc => not_isLineBreak_of_mem_splitlines hl hc

/-- A broken snapshot is not among what is ingested. -/
theorem ne_of_broken {chunks : List Chunk} {σ : Session} {x : ℕ × Snapshot}
    (hx : x ∈ events chunks) (h : ¬ Unbroken x.2) :
    ingested store (streamBytes chunks) σ ≠
      (events chunks).map fun x => ((x.1 : ℤ), stored x.2) := by
  intro heq
  have hmem : ((x.1 : ℤ), stored x.2) ∈ ingested store (streamBytes chunks) σ := by
    rw [heq]
    exact List.mem_map_of_mem hx
  refine h fun c hc => ?_
  have hclean := chars_of_ingested _ hmem c ((mem_chars_sortKeys _ c).mpr hc)
  refine ⟨?_, ?_, ?_⟩ <;>
    · rintro rfl
      exact absurd (hclean (by decide)) (by decide)

end

/-- **Round trip of the event stream.** For every stream of events such as the broker sends to a
client, with comments between them, the client ingests exactly these events, in order, if and only
if no text in their snapshots holds one of the three boundaries that are not escaped. -/
theorem event_stream_round_trip {store : ClientStore} {σ : Session} {chunks : List Chunk}
    (h : Sendable σ.tables chunks) :
    ingested store (streamBytes chunks) σ = ((events chunks).map fun x => ((x.1 : ℤ), stored x.2)) ↔
      ∀ x ∈ events chunks, Unbroken x.2 := by
  constructor
  · intro heq x hx
    by_contra hbroken
    exact ne_of_broken hx hbroken heq
  · intro hunbroken
    rw [ingested_streamBytes, lines_stream hunbroken, readLines_stream h]

/-- What a client without operations can be sent. -/
theorem sendable_empty {chunks : List Chunk}
    (hnumbered : (0 :: (events chunks).map Prod.fst).Pairwise (· < ·))
    (h : ∀ x ∈ events chunks, x.1 < Broker.BrokerStore.bigintLimit ∧
      4 * (Chunk.event x.1 x.2).text.length ≤ maxEventSize ∧
      (x.2.state.Terminal → x.2.resultId ≠ none)) : Sendable Tables.empty chunks where
  numbered := hnumbered
  bigint x hx := (h x hx).1
  size x hx := (length_le_size _).2.trans (h x hx).2.1
  resultId x hx := (h x hx).2.2
  flow x _ r hr := by cases hr

/-- The snapshot of an operation that is running. -/
def runningSnapshot : Snapshot := ⟨1, 2, .running, none, none, none, some "t", 5, 5⟩

/-- The snapshot of an operation that has completed with a text. -/
def textSnapshot (text : String) : Snapshot :=
  ⟨1, 2, .completed, some 3, some (.output text []), none, some "t", 5, 6⟩

theorem event_stream_round_trip_two :
    ingested ⟨ClientSettings.default, fun _ => ""⟩
        (streamBytes [.event 1 runningSnapshot, .keepalive, .event 4 (textSnapshot "a\u000ab")])
        ⟨Tables.empty, fun _ => 5, fun _ => 0⟩ =
      [(1, stored runningSnapshot), (4, stored (textSnapshot "a\u000ab"))] := by
  refine (event_stream_round_trip (sendable_empty (by decide) (by decide +kernel))).mpr ?_
  intro x hx c hc
  rcases List.mem_pair.mp hx with rfl | rfl
  all_goals
    revert c
    decide +kernel

/-- A text with a line separator in it. The frame is cut there, and the client finds no JSON. -/
theorem event_stream_broken :
    Sendable Tables.empty [.keepalive, .event 1 (textSnapshot "a\u2028b")] ∧
      ingested ⟨ClientSettings.default, fun _ => ""⟩
          (streamBytes [.keepalive, .event 1 (textSnapshot "a\u2028b")])
          ⟨Tables.empty, fun _ => 5, fun _ => 0⟩ ≠
        [(1, stored (textSnapshot "a\u2028b"))] := by
  refine ⟨sendable_empty (by decide) (by decide +kernel), ?_⟩
  refine ne_of_broken (x := (1, textSnapshot "a\u2028b")) List.mem_cons_self fun h => ?_
  exact (h '\u2028' (by decide +kernel)).2.1 rfl

end HermesGateway.Wire
