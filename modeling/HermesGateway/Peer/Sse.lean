import HermesGateway.Peer.Provenance

/-!
# Reading the stream of a submission

Hermes writes every event of a stream on one line, as the text of an envelope without ASCII
escaping, and an empty line after it. `A2AClient._sse` takes every line of the response that starts
with `data:` for a whole event.

Three of the boundaries at which the response is cut into lines lie above the control range, and
stand unescaped in the text of a string. An envelope that holds one is cut inside that string, and
what is before the cut is no JSON text: the stream ends there.

`Json.loads` also refuses two kinds of text that Python's reader does not answer with a
`JSONDecodeError`, integers beyond the conversion limit and lone surrogates. Hermes writes neither.

## Main definitions

* `A2AClient.sseLine`, `A2AClient.sse` — the generator
* `SseChunk`, `sseText` — what Hermes writes
* `Decodes` — the generator yields what was sent, up to the first envelope it has to refuse

## Main results

* `sse_decodes_iff` — it does exactly if every string of what it has to yield is free of the three
  boundaries
-/

namespace HermesGateway.Peer

/-- `A2AError`. -/
structure A2AError where
  code : String
  message : String
deriving DecidableEq

/-- The lines of a response that hold an event start with it. -/
def dataField : List Char := "data:".toList

namespace A2AClient

variable (client : A2AClient)

/-! ### The generator -/

/-- `str(err.get("message") if isinstance(err, dict) else err)` of `err = envelope.get("error") or
{}`. -/
def errorText (envelope : Json) : String :=
  match (client.member? envelope "error").getD (.obj []) with
  | .obj ms => client.text (((Json.obj ms).get? "message").getD .null)
  | err => client.text err

/-- What an envelope makes the generator do: it yields a result, goes on or raises an error. -/
def sseEnvelope (method id : String) (envelope : Json) : Except A2AError (Option Json) :=
  if method = "SendStreamingMessage" ∧
      (envelope.get? "jsonrpc" ≠ some (.str "2.0") ∨ envelope.get? "id" ≠ some (.str id)) then
    .error ⟨"correlation_mismatch", "stream response does not match request ID"⟩
  else if (envelope.get? "error").isSome then
    .error ⟨"a2a_rpc_error", client.errorText envelope⟩
  else
    let result := (envelope.get? "result").getD envelope
    if result.isObj then .ok (some result) else .ok none

/-- The loop body of `_sse`. -/
def sseLine (method id : String) (line : List Char) : Except A2AError (Option Json) :=
  if line = [] ∨ line.head? = some ':' then .ok none
  else if ¬ dataField.isPrefixOf line then .ok none
  else
    let raw := strip (line.drop 5)
    if raw = [] then .ok none
    else
      match Json.loads raw with
      | none => .error ⟨"a2a_invalid_sse", "A2A SSE contained invalid JSON"⟩
      | some envelope =>
        if envelope.isObj then client.sseEnvelope method id envelope else .ok none

/-- The loop of `_sse`: what the generator yields, and the error it ends with, if it does not end
with the lines. -/
def sseLines (method id : String) : List (List Char) → List Json × Option A2AError
  | [] => ([], none)
  | line :: lines =>
    match client.sseLine method id line with
    | .error e => ([], some e)
    | .ok none => sseLines method id lines
    | .ok (some result) =>
      let (results, e) := sseLines method id lines
      (result :: results, e)

/-- `_sse`, on the decoded text of the response. -/
def sse (method id : String) (text : List Char) : List Json × Option A2AError :=
  client.sseLines method id (splitlines text)

end A2AClient

/-! ### The writer -/

/-- A JSON-RPC envelope as Hermes has one. -/
structure Envelope where
  members : List (String × Json)
  sound : (Json.obj members).Sound

namespace Envelope

variable (e : Envelope)

/-- The envelope as a value. -/
def json : Json := .obj e.members

/-- What the generator is to yield of it. -/
def result : Json := (e.json.get? "result").getD e.json

/-- It answers the request: it has the version and the identifier, and no error. -/
def Answers (id : String) : Prop :=
  e.json.get? "jsonrpc" = some (.str "2.0") ∧ e.json.get? "id" = some (.str id) ∧
    e.json.get? "error" = none

instance (id : String) : Decidable (e.Answers id) := inferInstanceAs (Decidable (_ ∧ _))

/-- No string of it holds a boundary that is written unescaped. -/
def Unbroken : Prop := ∀ c ∈ e.json.chars, c ≠ '\u0085' ∧ c ≠ '\u2028' ∧ c ≠ '\u2029'

instance : Decidable e.Unbroken := List.decidableBAll _ _

end Envelope

/-- `jsonrpc_result`. -/
def jsonrpcResult (id : String) (payload : Json) (h : payload.Sound) : Envelope where
  members := [("jsonrpc", .str "2.0"), ("id", .str id), ("result", payload)]
  sound :=
    have hkeys : ["jsonrpc", "id", "result"].Nodup := by decide
    ⟨hkeys, trivial, trivial, h, trivial⟩

/-- A part of the stream: an event, a comment, or an empty line. -/
inductive SseChunk
  | data (envelope : Envelope)
  | comment (text : {s : List Char // ∀ c ∈ s, isLineBreak c = false})
  | blank

/-- The line `sse_data` writes for an envelope. -/
def dataLine (e : Envelope) : List Char := dataField ++ ' ' :: e.json.spaced [' ']

/-- The text of a part. -/
def SseChunk.text : SseChunk → List Char
  | .data e => dataLine e ++ ['\n', '\n']
  | .comment s => ':' :: s.val ++ ['\n']
  | .blank => ['\n']

/-- The text of a stream. -/
def sseText (chunks : List SseChunk) : List Char := chunks.flatMap SseChunk.text

/-- The envelopes of a stream. -/
def envelopes : List SseChunk → List Envelope
  | [] => []
  | .data e :: chunks => e :: envelopes chunks
  | .comment _ :: chunks | .blank :: chunks => envelopes chunks

/-- The stream is decoded: the generator yields the results of the envelopes that answer the
request, up to the first that does not, and raises an error exactly if there is one. -/
def Decodes (client : A2AClient) (id : String) (chunks : List SseChunk) : Prop :=
  (client.sse "SendStreamingMessage" id (sseText chunks)).1 =
      ((envelopes chunks).takeWhile (·.Answers id)).map Envelope.result ∧
    ((client.sse "SendStreamingMessage" id (sseText chunks)).2 = none ↔
      ∀ e ∈ envelopes chunks, e.Answers id)

/-! ### One line -/

section

variable {client : A2AClient} {method id : String} {e : Envelope}

theorem dataField_eq : dataField = ['d', 'a', 't', 'a', ':'] := by decide +kernel

/-- The only blank between the tokens of an envelope. -/
theorem gap_blank : ∀ c ∈ [' '], c = ' ' := by decide

/-- The text of an envelope starts and ends with a brace. -/
theorem spaced_json (e : Envelope) : ∃ t, e.json.spaced [' '] = '\x7b' :: (t ++ ['\x7d']) := by
  have hmembers : ∀ kvs, ∃ t, Json.spacedMembers [' '] kvs = t ++ ['\x7d'] := by
    intro kvs
    induction kvs with
    | nil => exact ⟨[], rfl⟩
    | cons kv kvs ih =>
      obtain ⟨t, ht⟩ := ih
      refine ⟨',' :: ([' '] ++ (Json.quote kv.1 ++ ':' :: ([' '] ++ (kv.2.spaced [' '] ++ t)))), ?_⟩
      rw [Json.spacedMembers, ht]
      simp only [List.append_assoc, List.cons_append]
  rw [Envelope.json]
  cases e.members with
  | nil => exact ⟨[], rfl⟩
  | cons kv kvs =>
    obtain ⟨t, ht⟩ := hmembers kvs
    refine ⟨Json.quote kv.1 ++ ':' :: ([' '] ++ (kv.2.spaced [' '] ++ t)), ?_⟩
    rw [Json.spaced, ht]
    simp only [List.append_assoc, List.cons_append]

/-- A line that holds something after its field is read as an envelope. -/
theorem sseLine_data {raw : List Char} (hraw : strip (' ' :: raw) ≠ []) :
    client.sseLine method id (dataField ++ ' ' :: raw) =
      match Json.loads (strip (' ' :: raw)) with
      | none => .error ⟨"a2a_invalid_sse", "A2A SSE contained invalid JSON"⟩
      | some envelope =>
        if envelope.isObj then client.sseEnvelope method id envelope else .ok none := by
  rw [A2AClient.sseLine, dataField_eq, if_neg (by simp), if_neg (by simp)]
  simp only [List.cons_append, List.nil_append, List.drop_succ_cons, List.drop_zero, if_neg hraw]

/-- The line of an envelope is read as that envelope. -/
theorem sseLine_dataLine (e : Envelope) :
    client.sseLine method id (dataLine e) = client.sseEnvelope method id e.json := by
  obtain ⟨t, ht⟩ := spaced_json e
  have hstrip : strip (' ' :: e.json.spaced [' ']) = e.json.spaced [' '] := by
    rw [ht]
    exact strip_of_ends (by decide) (by decide) (by decide)
  have hne : strip (' ' :: e.json.spaced [' ']) ≠ [] := by
    rw [hstrip, ht]
    exact List.cons_ne_nil _ _
  have hloads : Json.loads (e.json.spaced [' ']) = some e.json :=
    Json.loads_spaced gap_blank e.sound
  rw [dataLine, sseLine_data hne, hstrip, hloads]
  rfl

/-- What is left of the line of an envelope that is cut inside a string is refused. -/
theorem sseLine_cut {p rest : List Char} {c : Char} (h : e.json.spaced [' '] = p ++ c :: rest)
    (hc : 128 ≤ c.toNat) :
    client.sseLine method id (dataField ++ ' ' :: p) =
      .error ⟨"a2a_invalid_sse", "A2A SSE contained invalid JSON"⟩ := by
  have hopen : Json.opens p = true := Json.opens_of_cut gap_blank e.sound h hc
  obtain ⟨t, ht⟩ := spaced_json e
  cases p with
  | nil => cases hopen
  | cons d p =>
    rw [ht, List.cons_append, List.cons.injEq] at h
    obtain ⟨rfl, -⟩ := h
    obtain ⟨w, hw, hspace⟩ := strip_append (b := ' ') (c := '\x7b') (s := p) (by decide) (by decide)
    have hplain : ∀ d ∈ w, d ≠ '\x22' ∧ d ≠ '\\' := by
      intro d hd
      have hblank := hspace d hd
      constructor <;> rintro rfl <;> exact absurd hblank (by decide)
    have hraw : Json.opens (strip (' ' :: '\x7b' :: p)) = true :=
      (Json.open_of_append hplain _).1 (by rw [hw]; exact hopen)
    have hne : strip (' ' :: '\x7b' :: p) ≠ [] := by
      intro hnil
      rw [hnil] at hraw
      cases hraw
    rw [sseLine_data hne, Json.loads_of_opens hraw]

theorem sseLine_comment (s : List Char) : client.sseLine method id (':' :: s) = .ok none :=
  if_pos (Or.inr rfl)

theorem sseLine_nil : client.sseLine method id [] = .ok none := if_pos (Or.inl rfl)

end

/-! ### One part of the stream -/

section

variable {client : A2AClient} {method id : String} {e : Envelope} {text : List Char}

/-- A first line that yields nothing. -/
theorem sse_skip {line : List Char} (hline : ∀ c ∈ line, isLineBreak c = false)
    (h : client.sseLine method id line = .ok none) :
    client.sse method id (line ++ '\n' :: text) = client.sse method id text := by
  rw [A2AClient.sse, splitlines_append text hline, A2AClient.sseLines, h]
  rfl

theorem sse_blank : client.sse method id ('\n' :: text) = client.sse method id text :=
  @sse_skip _ _ _ _ [] (fun _ h => absurd h List.not_mem_nil) sseLine_nil

theorem dataField_blank_unbroken {s : List Char} (h : ∀ c ∈ s, isLineBreak c = false) :
    ∀ c ∈ dataField ++ ' ' :: s, isLineBreak c = false := by
  intro c hc
  rcases List.mem_append.mp hc with hc | hc
  · have hall : ∀ c ∈ ['d', 'a', 't', 'a', ':'], isLineBreak c = false := by decide
    exact hall c (dataField_eq ▸ hc)
  · rcases List.mem_cons.mp hc with rfl | hc
    · decide
    · exact h c hc

/-- The line of an unbroken envelope is one line. -/
theorem dataLine_unbroken (h : e.Unbroken) : ∀ c ∈ dataLine e, isLineBreak c = false := by
  refine dataField_blank_unbroken fun c hc => ?_
  rcases Json.mem_spaced gap_blank (v := e.json) e.sound hc with hprint | ⟨hmem, hle⟩
  · exact not_isLineBreak_of_printable hprint
  · have hne := h c hmem
    by_contra hbreak
    rw [Bool.not_eq_false] at hbreak
    rcases isLineBreak_of_le hle hbreak with rfl | rfl | rfl
    · exact hne.1 rfl
    · exact hne.2.1 rfl
    · exact hne.2.2 rfl

/-- An unbroken envelope is read whole. -/
theorem sse_unbroken (h : e.Unbroken) :
    client.sse method id ((SseChunk.data e).text ++ text) =
      match client.sseEnvelope method id e.json with
      | .error err => ([], some err)
      | .ok none => client.sse method id text
      | .ok (some result) =>
        (result :: (client.sse method id text).1, (client.sse method id text).2) := by
  have htext : (SseChunk.data e).text ++ text = dataLine e ++ '\n' :: '\n' :: text := by
    simp [SseChunk.text]
  rw [htext, A2AClient.sse, splitlines_append _ (dataLine_unbroken h), A2AClient.sseLines,
    sseLine_dataLine]
  have hblank : client.sseLines method id (splitlines ('\n' :: text)) =
      client.sse method id text := sse_blank
  rw [hblank]

/-- An envelope that is not unbroken is cut, and ends the stream. -/
theorem sse_broken (h : ¬ e.Unbroken) :
    client.sse method id ((SseChunk.data e).text ++ text) =
      ([], some ⟨"a2a_invalid_sse", "A2A SSE contained invalid JSON"⟩) := by
  -- the first boundary in the text of the envelope
  have hbreak : ∃ c ∈ e.json.spaced [' '], isLineBreak c = true := by
    simp only [Envelope.Unbroken, not_forall] at h
    obtain ⟨c, hc, hne⟩ := h
    have hcases : c = '\u0085' ∨ c = '\u2028' ∨ c = '\u2029' := by
      by_contra hnot
      rw [not_or, not_or] at hnot
      exact hne hnot
    refine ⟨c, Json.mem_spaced_of_le _ hc ?_, ?_⟩ <;> rcases hcases with rfl | rfl | rfl <;> decide
  obtain ⟨c, hfind⟩ := Option.isSome_iff_exists.mp (List.find?_isSome.mpr hbreak)
  obtain ⟨hc, p, rest, hcut, hp⟩ := List.find?_eq_some_iff_append.mp hfind
  have hascii : 128 ≤ c.toNat := by
    have hmem : c ∈ e.json.spaced [' '] := by
      rw [hcut]
      exact List.mem_append_right _ (List.mem_cons_self ..)
    have hle : 32 ≤ c.toNat := by
      rcases Json.mem_spaced gap_blank (v := e.json) e.sound hmem with hprint | ⟨-, hle⟩
      · exact hprint.1
      · exact hle
    rcases isLineBreak_of_le hle hc with rfl | rfl | rfl <;> decide
  have htext : (SseChunk.data e).text ++ text =
      (dataField ++ ' ' :: p) ++ c :: (rest ++ '\n' :: '\n' :: text) := by
    simp [SseChunk.text, dataLine, hcut]
  have hline : ∀ d ∈ dataField ++ ' ' :: p, isLineBreak d = false :=
    dataField_blank_unbroken fun d hd => by simpa using hp d hd
  obtain ⟨lines, hlines⟩ := splitlines_cut (rest ++ '\n' :: '\n' :: text) hline hc
  rw [htext, A2AClient.sse, hlines, A2AClient.sseLines, sseLine_cut hcut hascii]

end

/-! ### The stream -/

section

variable {client : A2AClient} {id : String} {e : Envelope}

/-- An envelope that answers the request yields its result. -/
theorem sseEnvelope_answers (h : e.Answers id) (hobj : e.result.isObj = true) :
    client.sseEnvelope "SendStreamingMessage" id e.json = .ok (some e.result) := by
  obtain ⟨hversion, hid, herror⟩ := h
  rw [A2AClient.sseEnvelope, if_neg (by simp [hversion, hid]), if_neg (by simp [herror])]
  exact if_pos hobj

/-- Any other is refused. -/
theorem sseEnvelope_refuses (h : ¬ e.Answers id) :
    ∃ err, client.sseEnvelope "SendStreamingMessage" id e.json = .error err := by
  rw [A2AClient.sseEnvelope]
  split_ifs with hcorr herror
  · exact ⟨_, rfl⟩
  · exact ⟨_, rfl⟩
  · -- nothing is left that could be wrong with it
    rw [not_and, not_or, not_not, not_not] at hcorr
    rw [Option.not_isSome_iff_eq_none] at herror
    exact absurd ⟨(hcorr rfl).1, (hcorr rfl).2, herror⟩ h

end

/-- One part of the stream and the rest of it. An envelope that is to be refused may be cut. -/
theorem decodes_data {client : A2AClient} {id : String} {e : Envelope} {chunks : List SseChunk}
    (hobj : e.Answers id → e.result.isObj = true) :
    Decodes client id (.data e :: chunks) ↔
      (e.Answers id → e.Unbroken ∧ Decodes client id chunks) := by
  have htext : sseText (.data e :: chunks) = (SseChunk.data e).text ++ sseText chunks :=
    List.flatMap_cons
  unfold Decodes
  rw [htext]
  simp only [envelopes, List.forall_mem_cons]
  by_cases hans : e.Answers id
  · rw [List.takeWhile_cons_of_pos (by simpa using hans), List.map_cons]
    by_cases hbreak : e.Unbroken
    · rw [sse_unbroken hbreak, sseEnvelope_answers hans (hobj hans)]
      simp [hans, hbreak]
    · rw [sse_broken hbreak]
      simp [hans, hbreak]
  · rw [List.takeWhile_cons_of_neg (by simpa using hans), List.map_nil]
    -- either way the generator raises before it yields anything
    have hraise : ∃ err, client.sse "SendStreamingMessage" id
        ((SseChunk.data e).text ++ sseText chunks) = ([], some err) := by
      by_cases hbreak : e.Unbroken
      · obtain ⟨err, herr⟩ := @sseEnvelope_refuses client _ _ hans
        exact ⟨err, by rw [sse_unbroken hbreak, herr]⟩
      · exact ⟨_, sse_broken hbreak⟩
    obtain ⟨err, herr⟩ := hraise
    rw [herr]
    simp [hans]

/-- **Decoding of a stream.** The generator yields what was sent, up to the first envelope it has to
refuse, exactly if no string of what it has to yield holds a boundary that is written unescaped. -/
theorem sse_decodes_iff (client : A2AClient) {id : String} {chunks : List SseChunk}
    (hobj : ∀ e ∈ envelopes chunks, e.Answers id → e.result.isObj = true) :
    Decodes client id chunks ↔ ∀ e ∈ (envelopes chunks).takeWhile (·.Answers id), e.Unbroken := by
  induction chunks with
  | nil =>
    simp [Decodes, envelopes, sseText, A2AClient.sse, splitlines, splitFrom, A2AClient.sseLines]
  | cons chunk chunks ih =>
    cases chunk with
    | data e =>
      obtain ⟨he, hrest⟩ := List.forall_mem_cons.mp hobj
      rw [decodes_data he, ih hrest, envelopes]
      by_cases hans : e.Answers id
      · rw [List.takeWhile_cons_of_pos (by simpa using hans), List.forall_mem_cons]
        exact ⟨fun h => h hans, fun h _ => h⟩
      · rw [List.takeWhile_cons_of_neg (by simpa using hans)]
        exact ⟨fun _ _ h => absurd h List.not_mem_nil, fun _ h => absurd h hans⟩
    | comment s =>
      have htext : sseText (.comment s :: chunks) = ':' :: s.val ++ '\n' :: sseText chunks := by
        simp [sseText, SseChunk.text]
      have hline : ∀ c ∈ ':' :: s.val, isLineBreak c = false :=
        List.forall_mem_cons.mpr ⟨by decide, s.property⟩
      rw [envelopes, ← ih hobj, Decodes, Decodes, htext, sse_skip hline (sseLine_comment s.val),
        envelopes]
    | blank =>
      have htext : sseText (.blank :: chunks) = '\n' :: sseText chunks := rfl
      rw [envelopes, ← ih hobj, Decodes, Decodes, htext, sse_blank, envelopes]

/-- An event with a text, as an answer to a request. -/
def textAnswer (id text : String) : Envelope := jsonrpcResult id (.obj [("text", .str text)])
  ⟨List.nodup_singleton "text", trivial, trivial⟩

/-- A stream that ends with the answer to another request. -/
def misdirected : List SseChunk :=
  [.data (textAnswer "bridge-1" "é\n"), .comment ⟨" done".toList, by decide +kernel⟩, .blank,
    .data (textAnswer "bridge-2" "\u2028")]

theorem sse_decodes_misdirected : Decodes A2AClient.plain "bridge-1" misdirected :=
  (@sse_decodes_iff A2AClient.plain "bridge-1" misdirected (by decide +kernel)).mpr
    (by decide +kernel)

/-- A line separator inside a text ends the stream before the event is read. -/
theorem line_separator_ends_stream :
    (textAnswer "bridge-1" "a\u2028b").Answers "bridge-1" ∧
      (textAnswer "bridge-1" "a\u2028b").result = .obj [("text", .str "a\u2028b")] ∧
      A2AClient.plain.sse "SendStreamingMessage" "bridge-1"
          (sseText [.data (textAnswer "bridge-1" "a\u2028b")]) =
        ([], some ⟨"a2a_invalid_sse", "A2A SSE contained invalid JSON"⟩) ∧
      ¬ Decodes A2AClient.plain "bridge-1" [.data (textAnswer "bridge-1" "a\u2028b")] := by
  have hrun : A2AClient.plain.sse "SendStreamingMessage" "bridge-1"
      (sseText [.data (textAnswer "bridge-1" "a\u2028b")]) =
        ([], some ⟨"a2a_invalid_sse", "A2A SSE contained invalid JSON"⟩) := by decide +kernel
  refine ⟨by decide +kernel, by decide +kernel, hrun, fun h => ?_⟩
  have hnone := h.1
  rw [hrun] at hnone
  exact absurd hnone (by decide +kernel)

end HermesGateway.Peer
