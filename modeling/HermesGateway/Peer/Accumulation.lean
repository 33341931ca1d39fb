import HermesGateway.Peer.Agreement

/-!
# What a stream accumulates

The results of a stream, from its events. An artifact that is sent in pieces, each the only part of
an update, is kept as one artifact with one part, whose content is the pieces one after the other:
where they were cut does not show. An update for one identity leaves the artifacts of the others
alone, and what is yielded stays within the size limit and is about one task.

An artifact is kept under its identifier as a text; under `part-0` if it has none, or one that
counts as false. So an update without an identifier is for the artifact that is called `part-0`.

A piece is refused only for what it would make of the snapshot: the check of the lengths before two
raw parts are joined never refuses more than the check of the size after it. Nor is a status of the
task refused for anything else, if it can be read.

## Main definitions

* `HermesBrokerPeer.collect` — what `submit` makes of the events of a stream
* `Piece`, `Aside` — an event that brings a piece of an artifact, and one that is for others
* `Feeds` — the pieces of an artifact, in order, with anything for others in between

## Main results

* `stream_accumulates` — what the last result holds, and what a stream can end early for
* `unnamed_update_replaces` — an update without an identifier, and the artifact `part-0`
-/

namespace HermesGateway.Peer

open Broker

/-! ### Streams -/

/-- The results `submit` yields for the events of a stream, and how it ends. -/
def HermesBrokerPeer.collect (peer : HermesBrokerPeer) (context : String) :
    StreamState → List Json → List TaskResult × Except Failure StreamState
  | st, [] => ([], .ok st)
  | st, event :: rest =>
    match peer.next context st event with
    | .error e => ([], .error e)
    | .ok none => peer.collect context st rest
    | .ok (some (result, st')) =>
      (result :: (peer.collect context st' rest).1, (peer.collect context st' rest).2)

/-- The event is read as an artifact update. -/
def Updates (event : Json) (update : List (String × Json)) : Prop :=
  (event.get? "task").any Json.isObj = false ∧ (event.get? "statusUpdate").any Json.isObj = false ∧
    event.get? "artifactUpdate" = some (.obj update)

/-- The artifact of an update. -/
def artifactOf (client : A2AClient) (update : List (String × Json)) : Json :=
  (client.member? (.obj update) "artifact").getD (.obj [])

/-- The event is no task, and if it is an artifact update, then one for another identity. -/
def Aside (peer : HermesBrokerPeer) (id : String) (event : Json) : Prop :=
  (event.get? "task").any Json.isObj = false ∧
    ∀ update, Updates event update → peer.identity 0 (artifactOf peer.client update) ≠ id

/-- The artifact has the identifier, and one part, which carries the content. -/
def Holds {α : Type} (Carries : α → Json → Prop) (id : String) (content : α) (artifact : Json) :
    Prop :=
  artifact.get? "artifactId" = some (.str id) ∧
    ∃ part, artifact.get? "parts" = some (.arr [part]) ∧ Carries content part

/-- The event is an update that brings a piece of the artifact `id`. -/
def Piece {α : Type} (peer : HermesBrokerPeer) (Carries : α → Json → Prop) (id : String)
    (append : Bool) (piece : α) (event : Json) : Prop :=
  ∃ update artifact, Updates event update ∧
    (Json.obj update).get? "artifact" = some (.obj artifact) ∧
    Holds Carries id piece (.obj artifact) ∧ peer.appends event = append

/-- The events bring the pieces of the artifact `id` one after the other, with anything for others
in between. All but the first are appended: `started` tells whether it has come. -/
inductive Feeds {α : Type} (peer : HermesBrokerPeer) (Carries : α → Json → Prop) (id : String) :
    Bool → List α → List Json → Prop
  | nil (started : Bool) : Feeds peer Carries id started [] []
  | aside {started : Bool} {pieces : List α} {event : Json} {events : List Json}
      (haside : Aside peer id event) (h : Feeds peer Carries id started pieces events) :
      Feeds peer Carries id started pieces (event :: events)
  | piece {started append : Bool} {piece : α} {pieces : List α} {event : Json} {events : List Json}
      (hpiece : Piece peer Carries id append piece event) (happend : started = true → append = true)
      (h : Feeds peer Carries id true pieces events) :
      Feeds peer Carries id started (piece :: pieces) (event :: events)

/-- A raw part with the bytes, as it is written. -/
def RawPart (bytes : ByteArray) (part : Json) : Prop :=
  part.get? "raw" = some (.str (Base64.encode bytes)) ∧ ∀ s, ("text", Json.str s) ∉ members part

/-- A part with the text. -/
def TextPart (text : String) (part : Json) : Prop := part.get? "text" = some (.str text)

/-- What an event may end the stream for, other than what is accumulated: it is an update for
another artifact, or no piece and cannot be read, or it is about another task than the stream, or
none. -/
def Excused (peer : HermesBrokerPeer) (context id : String) (st : StreamState)
    (event : Json) : Prop :=
  (Aside peer id event ∧ ((∃ update, Updates event update) ∨
      ∃ e, peer.client.parseStreamEvent event context = .error e)) ∨
    ∃ parsed, peer.client.parseStreamEvent event context = .ok (some parsed) ∧
      (parsed.taskId = "" ∨ st.handle.any (· ≠ parsed.taskId) = true)

/-- The peer with another size limit. -/
def HermesBrokerPeer.limited (peer : HermesBrokerPeer) (limit : ℕ) : HermesBrokerPeer :=
  { peer with maxSnapshotBytes := limit }

/-- The snapshot the event accumulates, by a peer with a limit that is large enough, is larger than
the limit, or cannot be written. -/
def Overflows (peer : HermesBrokerPeer) (context : String) (st : StreamState)
    (event : Json) : Prop :=
  ∃ parsed limit artifacts, peer.client.parseStreamEvent event context = .ok (some parsed) ∧
    (peer.limited limit).retainAll (peer.appends event) (st.kept event parsed) 0 parsed.artifacts =
      .ok artifacts ∧
    ¬ peer.Fits (artifacts.map Prod.snd) parsed.text

/-! ### Sizes -/

theorem length_le_utf8Length (cs : List Char) : cs.length ≤ utf8Length cs := by
  induction cs with
  | nil => exact Nat.zero_le _
  | cons c cs ih =>
    have hc : 0 < c.utf8Size := Char.utf8Size_pos c
    simp only [utf8Length, List.map_cons, List.sum_cons, List.length_cons] at ih ⊢
    omega

theorem utf8Length_append (cs ds : List Char) :
    utf8Length (cs ++ ds) = utf8Length cs + utf8Length ds := by
  rw [utf8Length, List.map_append, List.sum_append]
  rfl

theorem utf8Length_child {w v : Json} (h : Json.Child w v) :
    utf8Length w.canonical + 2 ≤ utf8Length v.canonical := by
  obtain ⟨l, r, hl, hr, heq⟩ := h.exists_canonical
  have hl' := (List.length_pos_of_ne_nil hl).trans_le (length_le_utf8Length l)
  have hr' := (List.length_pos_of_ne_nil hr).trans_le (length_le_utf8Length r)
  rw [heq, utf8Length_append, utf8Length_append]
  omega

theorem length_lt_utf8Length_str (s : String) : s.length < utf8Length (Json.str s).canonical := by
  refine lt_of_lt_of_le ?_ (length_le_utf8Length _)
  change s.length < (Json.quote s).length
  have hescape := Json.length_le_length_escape s.toList
  rw [String.length_toList] at hescape
  rw [Json.quote, List.length_cons, List.length_append]
  omega

/-- The artifacts of a snapshot are within its size. -/
theorem utf8Length_artifacts (artifacts : List Json) (text : String) :
    utf8Length (Json.canonical (.arr artifacts)) + 2 ≤ snapshotSize artifacts text :=
  utf8Length_child (.inr ⟨"artifacts", _, rfl, List.mem_cons_self⟩)

/-- So is the one part of one of them. -/
theorem utf8Length_part {artifacts : List Json} {artifact part : Json} (h : artifact ∈ artifacts)
    (hparts : artifact.get? "parts" = some (.arr [part])) (text : String) :
    utf8Length part.canonical + 8 ≤ snapshotSize artifacts text := by
  have hpart := utf8Length_child (.inl ⟨[part], rfl, List.mem_singleton_self part⟩)
  have hlist := utf8Length_child (Json.child_of_get? hparts)
  have hartifact := utf8Length_child (.inl ⟨artifacts, rfl, h⟩)
  have hsize := utf8Length_artifacts artifacts text
  omega

/-! ### Joining two parts -/

theorem mem_merged {a b : List (String × Json)} {m : String × Json} (h : m ∈ merged a b) :
    m ∈ a ∨ m ∈ b := by
  induction b generalizing a with
  | nil => exact .inl h
  | cons q b ih =>
    rcases ih h with h | h
    · rcases Json.mem_setKey h with rfl | h
      · exact .inr List.mem_cons_self
      · exact .inl h
    · exact .inr (List.mem_cons_of_mem _ h)

theorem lookup_merged {a b : List (String × Json)} (hb : (b.map Prod.fst).Nodup) (key : String) :
    (merged a b).lookup key = (b.lookup key).or (a.lookup key) := by
  induction b generalizing a with
  | nil => rfl
  | cons q b ih =>
    obtain ⟨hq, hb⟩ := List.nodup_cons.mp hb
    change (merged (Json.setKey q.1 q.2 a) b).lookup key = _
    rw [ih hb, Json.lookup_setKey, List.lookup_cons]
    by_cases hkey : key = q.1
    · have hnone : b.lookup key = none := by
        rw [List.lookup_eq_none_iff]
        intro m hm
        exact bne_iff_ne.mpr fun heq => hq (List.mem_map.mpr ⟨m, hm, heq.symm.trans hkey⟩)
      rw [hnone, if_pos hkey, hkey, beq_self_eq_true]
      rfl
    · rw [if_neg hkey, beq_false_of_ne hkey]

/-- How parts with a content are continued: by one part with both contents, and for no other reason
than its size they are not. -/
def Continues {α : Type} (append : α → α → α) (Carries : α → Json → Prop) : Prop :=
  ∀ {x y : α} {prior part : Json}, Carries x prior → Carries y part → ∃ joined,
    Carries (append x y) joined ∧ ∀ peer : HermesBrokerPeer,
      (∀ parts, peer.continued [prior] part = .ok parts → parts = [joined]) ∧
      (utf8Length joined.canonical + 8 ≤ peer.maxSnapshotBytes →
        peer.continued [prior] part = .ok [joined])

theorem exists_of_get? {part v : Json} {key : String} (h : part.get? key = some v) :
    ∃ ms, part = .obj ms := by
  cases part with
  | obj ms => exact ⟨ms, rfl⟩
  | null | bool | int | float | str | arr => cases h

theorem continues_text : Continues (· ++ ·) TextPart := by
  intro x y prior part hprior hpart
  obtain ⟨ms, rfl⟩ := exists_of_get? hprior
  obtain ⟨ms', rfl⟩ := exists_of_get? hpart
  refine ⟨.obj (Json.setKey "text" (.str (x ++ y)) (merged ms ms')), ?_, fun peer => ?_⟩
  · rw [TextPart, Json.get?, Json.lookup_setKey, if_pos rfl]
  · have hcontinued : peer.continued [.obj ms] (.obj ms') =
        .ok [.obj (Json.setKey "text" (.str (x ++ y)) (merged ms ms'))] := by
      rw [TextPart] at hprior hpart
      unfold HermesBrokerPeer.continued
      simp only [List.getLast?_singleton, hprior, hpart]
      rfl
    exact ⟨fun parts h => (Except.ok.inj (hcontinued.symm.trans h)).symm, fun _ => hcontinued⟩

theorem RawPart.get?_text {bytes : ByteArray} {part : Json} (h : RawPart bytes part) (s : String) :
    part.get? "text" ≠ some (.str s) := by
  intro htext
  obtain ⟨ms, rfl⟩ := exists_of_get? htext
  rw [Json.get?, List.lookup_eq_some_iff] at htext
  obtain ⟨l, r, rfl, -⟩ := htext
  exact h.2 s (by simp [members])

theorem continues_raw : Continues (· ++ ·) RawPart := by
  intro x y prior part hprior hpart
  have hnotext := hprior.get?_text
  obtain ⟨hraw, hmem⟩ := hprior
  obtain ⟨hraw', hmem'⟩ := hpart
  obtain ⟨ms, rfl⟩ := exists_of_get? hraw
  obtain ⟨ms', rfl⟩ := exists_of_get? hraw'
  have hjoined : RawPart (x ++ y)
      (.obj (Json.setKey "raw" (.str (Base64.encode (x ++ y))) (merged ms ms'))) := by
    refine ⟨by rw [Json.get?, Json.lookup_setKey, if_pos rfl], fun s hs => ?_⟩
    rcases Json.mem_setKey hs with heq | hs
    · have hkey : "text" = "raw" := congrArg Prod.fst heq
      exact absurd hkey (by decide)
    · exact (mem_merged hs).elim (hmem s) (hmem' s)
  refine ⟨_, hjoined, fun peer => ?_⟩
  have hcontinued : peer.continued [.obj ms] (.obj ms') =
      if peer.maxSnapshotBytes < (Base64.encode x).length + (Base64.encode y).length then
        .error (brokerError .resultTooLarge "peer stream result exceeds configured limit" 502)
      else
        .ok [.obj (Json.setKey "raw" (.str (Base64.encode (x ++ y))) (merged ms ms'))] := by
    unfold HermesBrokerPeer.continued
    simp only [List.getLast?_singleton, hraw, hraw']
    split
    next htext _ => exact absurd htext (hnotext _)
    next hx hy _ =>
      cases hx
      cases hy
      rw [Base64.decode_encode, Base64.decode_encode]
      rfl
    next h => exact (h _ _ rfl rfl).elim
  refine ⟨fun parts h => ?_, fun hfits => ?_⟩
  · rw [hcontinued] at h
    split_ifs at h
    exact (Except.ok.inj h).symm
  · rw [hcontinued, if_neg]
    -- the two padded texts are at most four characters longer than the text of both
    have hstr := length_lt_utf8Length_str (Base64.encode (x ++ y))
    have hchild := utf8Length_child (Json.child_of_get? hjoined.1)
    have hsize : (x ++ y).size = x.size + y.size := ByteArray.size_append
    rw [Base64.length_encode, hsize] at hstr
    rw [Base64.length_encode, Base64.length_encode]
    omega

/-! ### One event -/

section

variable {peer : HermesBrokerPeer} {context : String} {st st' : StreamState} {event : Json}
  {result : TaskResult}

/-- What an event that yields a result does. -/
theorem next_eq_some (h : peer.next context st event = .ok (some (result, st'))) : ∃ parsed,
    peer.client.parseStreamEvent event context = .ok (some parsed) ∧ parsed.taskId ≠ "" ∧
      (∀ handle ∈ st.handle, handle = parsed.taskId) ∧
      peer.retainAll (peer.appends event) (st.kept event parsed) 0 parsed.artifacts =
        .ok st'.artifacts ∧
      peer.gathered parsed (st'.artifacts.map Prod.snd) = .ok result ∧
      st'.handle = some parsed.taskId := by
  obtain ⟨found, hfound, h⟩ := Except.bind_eq_ok.mp h
  cases found with
  | none => cases h
  | some parsed =>
    dsimp only at h
    split_ifs at h with hhandle
    obtain ⟨artifacts, hartifacts, h⟩ := Except.bind_eq_ok.mp h
    obtain ⟨gathered, hgathered, h⟩ := Except.bind_eq_ok.mp h
    obtain ⟨rfl, rfl⟩ := Prod.mk.inj (Option.some.inj (Except.ok.inj h))
    obtain ⟨hid, hsame⟩ := not_or.mp hhandle
    refine ⟨parsed, hfound, hid, fun handle hmem => ?_, hartifacts, hgathered, rfl⟩
    rw [Option.mem_def.mp hmem] at hsame
    simpa using hsame

/-- A result has the artifacts that are kept, within the limit, and they can be read. -/
theorem gathered_artifacts {parsed : TaskResult} {retained : List Json}
    (h : peer.gathered parsed retained = .ok result) :
    result.artifacts = retained ∧ result.taskId = parsed.taskId ∧
      peer.Fits retained parsed.text ∧
      ∃ texts, retained.mapM peer.client.messageText = .ok texts := by
  have hfits := HermesBrokerPeer.fits_of_gathered h
  rw [HermesBrokerPeer.gathered_of_fits hfits] at h
  obtain ⟨text, htext, h⟩ := Except.bind_eq_ok.mp h
  obtain ⟨texts, htexts, -⟩ := Except.bind_eq_ok.mp htext
  obtain rfl := Except.ok.inj h
  exact ⟨rfl, rfl, hfits, texts, htexts⟩

theorem next_of_gathered {parsed : TaskResult} {artifacts : List (String × Json)}
    (hparsed : peer.client.parseStreamEvent event context = .ok (some parsed))
    (hmine : ¬ (parsed.taskId = "" ∨ st.handle.any (· ≠ parsed.taskId) = true))
    (hretain : peer.retainAll (peer.appends event) (st.kept event parsed) 0 parsed.artifacts =
      .ok artifacts) (h : peer.gathered parsed (artifacts.map Prod.snd) = .ok result) :
    peer.next context st event = .ok (some (result, ⟨artifacts, some parsed.taskId⟩)) := by
  refine Except.bind_eq_ok.mpr ⟨some parsed, hparsed, ?_⟩
  dsimp only
  rw [if_neg hmine]
  exact Except.bind_eq_ok.mpr ⟨artifacts, hretain, Except.bind_eq_ok.mpr ⟨result, h, rfl⟩⟩

theorem exists_gathered {parsed : TaskResult} {retained : List Json}
    (hfits : peer.Fits retained parsed.text)
    (htexts : ∃ texts, retained.mapM peer.client.messageText = .ok texts) :
    ∃ result, peer.gathered parsed retained = .ok result := by
  obtain ⟨texts, htexts⟩ := htexts
  rw [HermesBrokerPeer.gathered_of_fits hfits, HermesBrokerPeer.textOf, htexts]
  exact ⟨_, rfl⟩

theorem kept_of_not_task (htask : (event.get? "task").any Json.isObj = false)
    (parsed : TaskResult) : st.kept event parsed = st.artifacts := by
  rw [StreamState.kept, if_neg]
  rintro ⟨h, -⟩
  rw [htask] at h
  cases h

theorem eq_obj_of_isObj {v : Json} (h : v.isObj = true) : ∃ ms, v = .obj ms := by
  cases v with
  | obj ms => exact ⟨ms, rfl⟩
  | null | bool | int | float | str | arr => cases h

/-- The task that is made up for an artifact update. -/
def updateTask (client : A2AClient) (update : List (String × Json)) : Json :=
  .obj [("id", ((Json.obj update).get? "taskId").getD .null),
    ("contextId", ((Json.obj update).get? "contextId").getD .null),
    ("status", .obj [("state", .str "TASK_STATE_WORKING")]),
    ("artifacts", .arr [artifactOf client update]),
    ("metadata", ((Json.obj update).get? "metadata").getD (.obj []))]

theorem eventTask_update {client : A2AClient} {update : List (String × Json)}
    (h : Updates event update) : client.eventTask event = some (updateTask client update) := by
  obtain ⟨htask, hstatus, hupdate⟩ := h
  unfold A2AClient.eventTask
  split
  next h =>
    rw [h] at htask
    cases htask
  next h _ =>
    rw [h] at hstatus
    cases hstatus
  next update' h _ _ =>
    rw [hupdate] at h
    obtain rfl := Json.obj.inj (Option.some.inj h)
    rfl
  next h => exact (h _ hupdate).elim

theorem parseTask_artifacts {client : A2AClient} {content task : Json} {items : List Json}
    {parsed : TaskResult} (h : client.parseTask content context = .ok parsed)
    (htask : unwrapTask content = .ok task) (hitems : client.items task "artifacts" = .ok items) :
    parsed.artifacts = items.filter Json.isObj := by
  obtain ⟨task', htask', h⟩ := Except.bind_eq_ok.mp h
  obtain rfl := Except.ok.inj (htask.symm.trans htask')
  obtain ⟨status, -, h⟩ := Except.bind_eq_ok.mp h
  obtain ⟨items', hitems', h⟩ := Except.bind_eq_ok.mp h
  obtain rfl := Except.ok.inj (hitems.symm.trans hitems')
  obtain ⟨text, -, h⟩ := Except.bind_eq_ok.mp h
  obtain rfl := Except.ok.inj h
  rfl

theorem parseStreamEvent_eq_some {client : A2AClient} {parsed : TaskResult}
    (h : client.parseStreamEvent event context = .ok (some parsed)) : ∃ task,
    client.eventTask event = some task ∧ client.parseTask task context = .ok parsed := by
  unfold A2AClient.parseStreamEvent at h
  cases hevent : client.eventTask event with
  | none =>
    rw [hevent] at h
    cases h
  | some task =>
    rw [hevent] at h
    obtain ⟨parsed', hparsed, h⟩ := Except.bind_eq_ok.mp h
    obtain rfl := Option.some.inj (Except.ok.inj h)
    exact ⟨task, rfl, hparsed⟩

theorem artifacts_of_updates {client : A2AClient} {parsed : TaskResult}
    {update : List (String × Json)} (hupdates : Updates event update)
    (h : client.parseStreamEvent event context = .ok (some parsed)) :
    parsed.artifacts = [artifactOf client update].filter Json.isObj := by
  obtain ⟨task, htask, hparsed⟩ := parseStreamEvent_eq_some h
  obtain rfl := Option.some.inj ((eventTask_update hupdates).symm.trans htask)
  exact parseTask_artifacts hparsed rfl rfl

/-- An event that is neither a task nor an artifact update brings no artifact. -/
theorem artifacts_of_not_updates {client : A2AClient} {parsed : TaskResult}
    (htask : (event.get? "task").any Json.isObj = false) (hnot : ∀ update, ¬ Updates event update)
    (h : client.parseStreamEvent event context = .ok (some parsed)) : parsed.artifacts = [] := by
  obtain ⟨task, hevent, hparsed⟩ := parseStreamEvent_eq_some h
  unfold A2AClient.eventTask at hevent
  split at hevent
  next hobj =>
    rw [hobj] at htask
    cases htask
  · obtain rfl := Option.some.inj hevent
    exact parseTask_artifacts hparsed rfl rfl
  next update hupdate hnotTask hnotStatus =>
    refine (hnot update ⟨htask, ?_, hupdate⟩).elim
    cases hstatus : event.get? "statusUpdate" with
    | none => rfl
    | some v =>
      cases hv : v.isObj with
      | false => rw [Option.any_some, hv]
      | true =>
        obtain ⟨ms, rfl⟩ := eq_obj_of_isObj hv
        exact (hnotStatus ms hstatus).elim
  · cases hevent

/-- What becomes of an artifact with another that continues it. -/
def joined (previous : Json) (ms : List (String × Json)) (parts : List Json) : Json :=
  .obj (Json.setKey "parts" (.arr parts) (merged (members previous) ms))

theorem retain_append {artifacts : List (String × Json)} {previous : Json}
    {ms : List (String × Json)}
    (hlookup : artifacts.lookup (peer.identity 0 (.obj ms)) = some previous) :
    peer.retain true artifacts 0 (.obj ms) = (do
      let parts ← (← partList (.obj ms)).foldlM peer.continued (← partList previous)
      return Json.setKey (peer.identity 0 (.obj ms)) (joined previous ms parts) artifacts) := by
  unfold HermesBrokerPeer.retain
  simp only [hlookup]
  rfl

theorem retain_fresh {append : Bool} {artifacts : List (String × Json)} {artifact : Json}
    (h : append = true → artifacts.lookup (peer.identity 0 artifact) = none) :
    peer.retain append artifacts 0 artifact =
      .ok (Json.setKey (peer.identity 0 artifact) artifact artifacts) := by
  unfold HermesBrokerPeer.retain
  cases append with
  | false => rfl
  | true => simp only [h rfl]

/-- What is kept under the identity of an artifact when it comes. -/
theorem retain_eq_ok {append : Bool} {artifacts artifacts' : List (String × Json)}
    {ms : List (String × Json)} (h : peer.retain append artifacts 0 (.obj ms) = .ok artifacts') :
    artifacts' = Json.setKey (peer.identity 0 (.obj ms)) (.obj ms) artifacts ∨
      ∃ previous parts, artifacts.lookup (peer.identity 0 (.obj ms)) = some previous ∧
        artifacts' = Json.setKey (peer.identity 0 (.obj ms)) (joined previous ms parts)
          artifacts := by
  cases hlookup : artifacts.lookup (peer.identity 0 (.obj ms)) with
  | none =>
    rw [retain_fresh fun _ => hlookup] at h
    exact .inl (Except.ok.inj h).symm
  | some previous =>
    cases append with
    | false =>
      have hfresh : (Except.ok _ : Except Failure _) = .ok artifacts' :=
        (retain_fresh Bool.noConfusion).symm.trans h
      exact .inl (Except.ok.inj hfresh).symm
    | true =>
      rw [retain_append hlookup] at h
      obtain ⟨new, -, h⟩ := Except.bind_eq_ok.mp h
      obtain ⟨old, -, h⟩ := Except.bind_eq_ok.mp h
      obtain ⟨parts, -, h⟩ := Except.bind_eq_ok.mp h
      exact .inr ⟨previous, parts, rfl, (Except.ok.inj h).symm⟩

theorem retain_of_updates {update ms : List (String × Json)} (hupdates : Updates event update)
    (hms : artifactOf peer.client update = .obj ms)
    (h : peer.next context st event = .ok (some (result, st'))) :
    peer.retain (peer.appends event) st.artifacts 0 (.obj ms) = .ok st'.artifacts := by
  obtain ⟨parsed, hparsed, -, -, hretain, -⟩ := next_eq_some h
  rw [kept_of_not_task hupdates.1, artifacts_of_updates hupdates hparsed, hms] at hretain
  obtain ⟨artifacts, hartifacts, hnil⟩ := Except.bind_eq_ok.mp hretain
  exact hartifacts.trans hnil

/-- An event that is no task leaves the artifacts as they are, or retains one of an update. -/
theorem retained_of_next (htask : (event.get? "task").any Json.isObj = false)
    (h : peer.next context st event = .ok (some (result, st'))) :
    st'.artifacts = st.artifacts ∨ ∃ update ms, Updates event update ∧
      artifactOf peer.client update = .obj ms ∧
      peer.retain (peer.appends event) st.artifacts 0 (.obj ms) = .ok st'.artifacts := by
  obtain ⟨parsed, hparsed, -, -, hretain, -⟩ := next_eq_some h
  rw [kept_of_not_task htask] at hretain
  by_cases hupdate : ∃ update, Updates event update
  · obtain ⟨update, hupdates⟩ := hupdate
    cases hobj : (artifactOf peer.client update).isObj with
    | true =>
      obtain ⟨ms, hms⟩ := eq_obj_of_isObj hobj
      exact .inr ⟨update, ms, hupdates, hms, retain_of_updates hupdates hms h⟩
    | false =>
      rw [artifacts_of_updates hupdates hparsed,
        List.filter_cons_of_neg (by simp [hobj])] at hretain
      exact .inl (Except.ok.inj hretain).symm
  · rw [artifacts_of_not_updates htask (not_exists.mp hupdate) hparsed] at hretain
    exact .inl (Except.ok.inj hretain).symm

/-- **Isolation.** An update leaves what is kept under the other identities alone. -/
theorem lookup_of_aside {id : String} (haside : Aside peer id event)
    (h : peer.next context st event = .ok (some (result, st'))) :
    st'.artifacts.lookup id = st.artifacts.lookup id := by
  rcases retained_of_next haside.1 h with heq | ⟨update, ms, hupdates, hms, hretain⟩
  · rw [heq]
  · have hother : id ≠ peer.identity 0 (.obj ms) := fun heq =>
      haside.2 update hupdates (by rw [hms, heq])
    rcases retain_eq_ok hretain with heq | ⟨previous, parts, -, heq⟩
    · rw [heq, Json.lookup_setKey, if_neg hother]
    · rw [heq, Json.lookup_setKey, if_neg hother]

/-! ### A whole stream -/

theorem get?_members (v : Json) (key : String) : (members v).lookup key = v.get? key := by
  cases v <;> rfl

theorem get?_joined {previous : Json} {ms : List (String × Json)} (hms : (ms.map Prod.fst).Nodup)
    (parts : List Json) {key : String} (hkey : key ≠ "parts") :
    (joined previous ms parts).get? key = ((Json.obj ms).get? key).or (previous.get? key) := by
  rw [joined, Json.get?, Json.lookup_setKey, if_neg hkey, lookup_merged hms, get?_members]
  rfl

theorem identity_joined {previous : Json} {ms : List (String × Json)}
    (hms : (ms.map Prod.fst).Nodup) (parts : List Json)
    (h : peer.identity 0 previous = peer.identity 0 (.obj ms)) :
    peer.identity 0 (joined previous ms parts) = peer.identity 0 (.obj ms) := by
  unfold HermesBrokerPeer.identity A2AClient.member? at *
  rw [get?_joined hms parts (by decide)]
  cases hid : (Json.obj ms).get? "artifactId" with
  | some v => rfl
  | none =>
    rw [hid] at h
    exact h

/-- The variables of a stream without tasks: each identity comes once, an artifact is kept under its
own, and the texts of all of them can be read. -/
structure Neat (peer : HermesBrokerPeer) (st : StreamState) : Prop where
  nodup : (st.artifacts.map Prod.fst).Nodup
  named : ∀ kv ∈ st.artifacts, peer.identity 0 kv.2 = kv.1
  legible : ∃ texts, (st.artifacts.map Prod.snd).mapM peer.client.messageText = .ok texts

theorem Neat.initial : Neat peer .initial := ⟨List.nodup_nil, fun _ h => (nomatch h), [], rfl⟩

theorem named_setKey {artifacts : List (String × Json)} {key : String} {v : Json}
    (h : ∀ kv ∈ artifacts, peer.identity 0 kv.2 = kv.1) (hv : peer.identity 0 v = key) :
    ∀ kv ∈ Json.setKey key v artifacts, peer.identity 0 kv.2 = kv.1 := by
  intro kv hkv
  rcases Json.mem_setKey hkv with rfl | hkv
  · exact hv
  · exact h kv hkv

theorem Neat.next (hneat : Neat peer st) (htask : (event.get? "task").any Json.isObj = false)
    (hkeyed : ∀ update, Updates event update → (artifactOf peer.client update).Keyed)
    (h : peer.next context st event = .ok (some (result, st'))) : Neat peer st' := by
  have hlegible := (gathered_artifacts (next_eq_some h).choose_spec.2.2.2.2.1).2.2.2
  rcases retained_of_next htask h with heq | ⟨update, ms, hupdates, hms, hretain⟩
  · exact ⟨heq ▸ hneat.nodup, heq ▸ hneat.named, hlegible⟩
  · have hnodup : (ms.map Prod.fst).Nodup := hkeyed update hupdates ms hms
    rcases retain_eq_ok hretain with heq | ⟨previous, parts, hlookup, heq⟩
    · rw [heq] at hlegible
      exact ⟨heq ▸ Json.nodup_setKey hneat.nodup, heq ▸ named_setKey hneat.named rfl,
        heq ▸ hlegible⟩
    · have hprevious := hneat.named _ ((Json.lookup_eq_some_iff_mem hneat.nodup).mp hlookup)
      refine ⟨heq ▸ Json.nodup_setKey hneat.nodup, ?_, hlegible⟩
      rw [heq]
      exact named_setKey hneat.named (identity_joined hnodup parts hprevious)

theorem mapM_eq_ok_iff {α β : Type} {f : α → Except Failure β} {xs : List α} :
    (∃ ys, xs.mapM f = .ok ys) ↔ ∀ x ∈ xs, ∃ y, f x = .ok y := by
  induction xs with
  | nil => exact ⟨fun _ _ h => (nomatch h), fun _ => ⟨[], rfl⟩⟩
  | cons x xs ih =>
    rw [List.forall_mem_cons, ← ih, List.mapM_cons]
    constructor
    · rintro ⟨ys, h⟩
      obtain ⟨y, hy, h⟩ := Except.bind_eq_ok.mp h
      obtain ⟨ys, hys, -⟩ := Except.bind_eq_ok.mp h
      exact ⟨⟨y, hy⟩, ys, hys⟩
    · rintro ⟨⟨y, hy⟩, ys, hys⟩
      exact ⟨y :: ys, Except.bind_eq_ok.mpr ⟨y, hy, Except.bind_eq_ok.mpr ⟨ys, hys, rfl⟩⟩⟩

variable {α : Type} {Carries : α → Json → Prop} {append : α → α → α} {id : String}

/-- What is kept of an artifact whose pieces so far make `content`. -/
def Kept (Carries : α → Json → Prop) (id : String) (artifacts : List (String × Json)) :
    Option α → Prop
  | none => artifacts.lookup id = none
  | some content =>
    ∃ artifact, artifacts.lookup id = some artifact ∧ Holds Carries id content artifact

/-- The content of an artifact after another piece. -/
def grown (append : α → α → α) (content : Option α) (piece : α) : α :=
  content.elim piece (append · piece)

theorem identity_of_get? {artifact : Json} (hid : id ≠ "")
    (h : artifact.get? "artifactId" = some (.str id)) : peer.identity 0 artifact = id := by
  have htruthy : peer.client.truthy (.str id) = true := by simp [A2AClient.truthy, hid]
  rw [HermesBrokerPeer.identity, A2AClient.member?, h, Option.filter_some_pos htruthy]
  rfl

theorem partList_of_get? {artifact part : Json}
    (h : artifact.get? "parts" = some (.arr [part])) : partList artifact = .ok [part] := by
  rw [partList, BrokerDispatcher.partsOf, h]
  rfl

theorem Holds.messageText {content : α} {artifact : Json} (h : Holds Carries id content artifact)
    (client : A2AClient) : ∃ text, client.messageText artifact = .ok text := by
  obtain ⟨-, part, hparts, -⟩ := h
  refine ⟨_, messageText_eq fun v hv => ⟨[part], ?_⟩⟩
  exact Option.some.inj (hv.symm.trans hparts)

/-- A piece is kept with the pieces before it, by every peer whose limit the snapshot is within. -/
theorem retain_piece {content : Option α} {artifacts : List (String × Json)} {piece : α}
    {ms : List (String × Json)} {flag : Bool} (hc : Continues append Carries) (hid : id ≠ "")
    (hkept : Kept Carries id artifacts content) (hms : (ms.map Prod.fst).Nodup)
    (hpiece : Holds Carries id piece (.obj ms)) (hflag : content.isSome = true → flag = true) :
    ∃ artifact, Holds Carries id (grown append content piece) artifact ∧ ∀ peer : HermesBrokerPeer,
      (∀ artifacts', peer.retain flag artifacts 0 (.obj ms) = .ok artifacts' →
        artifacts' = Json.setKey id artifact artifacts) ∧
      ∀ text, snapshotSize ((Json.setKey id artifact artifacts).map Prod.snd) text ≤
          peer.maxSnapshotBytes →
        peer.retain flag artifacts 0 (.obj ms) = .ok (Json.setKey id artifact artifacts) := by
  have hidentity := fun peer => @identity_of_get? peer _ _ hid hpiece.1
  cases content with
  | none =>
    refine ⟨.obj ms, hpiece, fun peer => ?_⟩
    have hfresh : peer.retain flag artifacts 0 (.obj ms) =
        .ok (Json.setKey id (.obj ms) artifacts) := by
      rw [retain_fresh fun _ => (hidentity peer).symm ▸ hkept, hidentity]
    exact ⟨fun _ h => (Except.ok.inj (hfresh.symm.trans h)).symm, fun _ _ => hfresh⟩
  | some content =>
    obtain rfl := hflag rfl
    obtain ⟨previous, hlookup, hprevious, prior, hprior, hcarried⟩ := hkept
    obtain ⟨hnew, part, hpart, hcarries⟩ := hpiece
    obtain ⟨both, hboth, hcontinued⟩ := hc hcarried hcarries
    have hparts : (joined previous ms [both]).get? "parts" = some (.arr [both]) := by
      rw [joined, Json.get?, Json.lookup_setKey, if_pos rfl]
    have hholds : Holds Carries id (append content piece) (joined previous ms [both]) := by
      refine ⟨?_, both, hparts, hboth⟩
      rw [get?_joined hms [both] (by decide), hnew]
      rfl
    refine ⟨joined previous ms [both], hholds, fun peer => ?_⟩
    have hretain : peer.retain true artifacts 0 (.obj ms) =
        (peer.continued [prior] part >>= fun parts =>
          .ok (Json.setKey id (joined previous ms parts) artifacts)) := by
      rw [retain_append ((hidentity peer).symm ▸ hlookup), partList_of_get? hpart,
        partList_of_get? hprior, hidentity]
      change (List.foldlM peer.continued [prior] [part] >>= _) = _
      rw [List.foldlM_cons]
      cases peer.continued [prior] part <;> rfl
    obtain ⟨hone, hfits⟩ := hcontinued peer
    refine ⟨fun artifacts' h => ?_, fun text hsize => ?_⟩
    · rw [hretain] at h
      obtain ⟨parts, hjoined, h⟩ := Except.bind_eq_ok.mp h
      rw [← Except.ok.inj h, hone parts hjoined]
    · have hmem : joined previous ms [both] ∈
          (Json.setKey id (joined previous ms [both]) artifacts).map Prod.snd := by
        have hset := Json.lookup_setKey id (joined previous ms [both]) artifacts id
        rw [if_pos rfl, List.lookup_eq_some_iff] at hset
        obtain ⟨l, r, heq, -⟩ := hset
        simp [heq]
      rw [hretain, hfits ((utf8Length_part hmem hparts text).trans hsize)]
      rfl

theorem artifactOf_eq {update artifact : List (String × Json)} {client : A2AClient}
    (h : (Json.obj update).get? "artifact" = some (.obj artifact)) (hne : artifact ≠ []) :
    artifactOf client update = .obj artifact := by
  have htruthy : client.truthy (.obj artifact) = true := by
    rw [A2AClient.truthy, List.isEmpty_eq_false_iff.mpr hne]
    rfl
  rw [artifactOf, A2AClient.member?, h, Option.filter_some_pos htruthy]
  rfl

theorem Holds.ne_nil {content : α} {ms : List (String × Json)}
    (h : Holds Carries id content (.obj ms)) : ms ≠ [] := by
  rintro rfl
  cases h.1

/-- A piece that yields a result is kept. -/
theorem Kept.piece {content : Option α} {piece : α} {flag : Bool} (hc : Continues append Carries)
    (hid : id ≠ "") (hkept : Kept Carries id st.artifacts content)
    (hpiece : Piece peer Carries id flag piece event) (hflag : content.isSome = true → flag = true)
    (hkeyed : ∀ update, Updates event update → (artifactOf peer.client update).Keyed)
    (h : peer.next context st event = .ok (some (result, st'))) :
    Kept Carries id st'.artifacts (some (grown append content piece)) := by
  obtain ⟨update, ms, hupdates, hartifact, hholds, rfl⟩ := hpiece
  have hms := @artifactOf_eq _ _ peer.client hartifact hholds.ne_nil
  obtain ⟨artifact, hgrown, hretain⟩ :=
    retain_piece hc hid hkept (hkeyed update hupdates ms hms) hholds hflag
  have heq := (hretain peer).1 _ (retain_of_updates hupdates hms h)
  exact ⟨artifact, by rw [heq, Json.lookup_setKey, if_pos rfl], hgrown⟩

/-- The event of a piece can be read. -/
theorem parse_piece {piece : α} {update ms : List (String × Json)} (hupdates : Updates event update)
    (hms : artifactOf peer.client update = .obj ms) (hholds : Holds Carries id piece (.obj ms)) :
    ∃ parsed, peer.client.parseStreamEvent event context = .ok (some parsed) := by
  obtain ⟨text, htext⟩ := hholds.messageText peer.client
  have hfirst : peer.client.firstText [.obj ms] = .ok text := by
    rw [A2AClient.firstText, htext]
    change (if text = "" then peer.client.firstText [] else Except.ok text) = _
    split_ifs with hempty
    · rw [hempty]
      rfl
    · rfl
  have htaskText : ∀ status, status.get? "message" = none →
      peer.client.taskText (updateTask peer.client update) status [.obj ms] = .ok text := by
    intro status hstatus
    rw [A2AClient.taskText, hfirst, hstatus]
    by_cases hempty : text = ""
    · subst hempty
      rfl
    · simp only [bind, Except.bind, hempty, if_false, false_and]
  have hitems : peer.client.items (updateTask peer.client update) "artifacts" = .ok [.obj ms] := by
    rw [← hms]
    rfl
  have hparsed : peer.client.parseTask (updateTask peer.client update) context = .ok
      { taskId := peer.client.taskIdOf (updateTask peer.client update)
        contextId :=
          (peer.client.member? (updateTask peer.client update) "contextId").elim context
            peer.client.text
        state := peer.client.stateOf
          (peer.client.stateText (.obj [("state", .str "TASK_STATE_WORKING")]))
        text := text
        artifacts := [Json.obj ms].filter Json.isObj
        raw := updateTask peer.client update } :=
    Except.bind_eq_ok.mpr ⟨_, rfl, Except.bind_eq_ok.mpr ⟨_, rfl, Except.bind_eq_ok.mpr
      ⟨_, hitems, Except.bind_eq_ok.mpr ⟨_, htaskText _ rfl, rfl⟩⟩⟩⟩
  obtain ⟨parsed, hparsed⟩ : ∃ parsed,
      peer.client.parseTask (updateTask peer.client update) context =
    .ok parsed := ⟨_, hparsed⟩
  refine ⟨parsed, ?_⟩
  rw [A2AClient.parseStreamEvent, eventTask_update hupdates]
  exact Except.bind_eq_ok.mpr ⟨parsed, hparsed, rfl⟩

/-- A piece that ends the stream is about another task than the stream, or makes it too large. -/
theorem piece_error {content : Option α} {piece : α} {flag : Bool} {e : Failure}
    (hc : Continues append Carries) (hid : id ≠ "") (hneat : Neat peer st)
    (hkept : Kept Carries id st.artifacts content)
    (hpiece : Piece peer Carries id flag piece event) (hflag : content.isSome = true → flag = true)
    (hkeyed : ∀ update, Updates event update → (artifactOf peer.client update).Keyed)
    (h : peer.next context st event = .error e) :
    Excused peer context id st event ∨ Overflows peer context st event := by
  obtain ⟨update, ms, hupdates, hartifact, hholds, rfl⟩ := hpiece
  have hms := @artifactOf_eq _ _ peer.client hartifact hholds.ne_nil
  obtain ⟨artifact, hgrown, hretain⟩ :=
    retain_piece hc hid hkept (hkeyed update hupdates ms hms) hholds hflag
  obtain ⟨parsed, hparsed⟩ := @parse_piece peer context _ _ _ _ _ _ _ hupdates hms hholds
  by_cases hforeign : parsed.taskId = "" ∨ st.handle.any (· ≠ parsed.taskId) = true
  · exact .inl (.inr ⟨parsed, hparsed, hforeign⟩)
  have hone : parsed.artifacts = [.obj ms] := by
    rw [artifacts_of_updates hupdates hparsed, hms]
    rfl
  have hkept' : st.kept event parsed = st.artifacts := kept_of_not_task hupdates.1 parsed
  have hall : ∀ q : HermesBrokerPeer, q.retain (peer.appends event) st.artifacts 0 (.obj ms) =
      .ok (Json.setKey id artifact st.artifacts) →
      q.retainAll (peer.appends event) (st.kept event parsed) 0 parsed.artifacts =
        .ok (Json.setKey id artifact st.artifacts) := by
    intro q hq
    rw [hkept', hone]
    exact Except.bind_eq_ok.mpr ⟨_, hq, rfl⟩
  by_cases hfits : peer.Fits ((Json.setKey id artifact st.artifacts).map Prod.snd) parsed.text
  · -- nothing is left that could fail
    exfalso
    have htexts : ∃ texts, ((Json.setKey id artifact st.artifacts).map Prod.snd).mapM
        peer.client.messageText = .ok texts := by
      refine mapM_eq_ok_iff.mpr fun a ha => ?_
      obtain ⟨kv, hkv, rfl⟩ := List.mem_map.mp ha
      rcases Json.mem_setKey hkv with rfl | hkv
      · exact hgrown.messageText peer.client
      · exact mapM_eq_ok_iff.mp hneat.legible _ (List.mem_map_of_mem hkv)
    obtain ⟨result, hresult⟩ := exists_gathered hfits htexts
    cases (next_of_gathered hparsed hforeign (hall peer ((hretain peer).2 _ hfits.2))
      hresult).symm.trans h
  · refine .inr
      ⟨parsed, _, _, hparsed, hall (peer.limited _) ((hretain (peer.limited _)).2 parsed.text
      le_rfl), hfits⟩

/-- So is an event for others that ends it, or it is an update or cannot be read. -/
theorem aside_error {e : Failure} (hneat : Neat peer st) (haside : Aside peer id event)
    (h : peer.next context st event = .error e) :
    Excused peer context id st event ∨ Overflows peer context st event := by
  by_cases hupdate : ∃ update, Updates event update
  · exact .inl (.inl ⟨haside, .inl hupdate⟩)
  match hfound : peer.client.parseStreamEvent event context with
  | .error e' => exact .inl (.inl ⟨haside, .inr ⟨e', hfound⟩⟩)
  | .ok none =>
    rw [HermesBrokerPeer.next, hfound] at h
    cases h
  | .ok (some parsed) =>
    by_cases hforeign : parsed.taskId = "" ∨ st.handle.any (· ≠ parsed.taskId) = true
    · exact .inl (.inr ⟨parsed, hfound, hforeign⟩)
    have hnone : parsed.artifacts = [] :=
      artifacts_of_not_updates haside.1 (not_exists.mp hupdate) hfound
    have hretain : peer.retainAll (peer.appends event) (st.kept event parsed) 0 parsed.artifacts =
        .ok st.artifacts := by
      rw [kept_of_not_task haside.1, hnone]
      rfl
    refine .inr ⟨parsed, peer.maxSnapshotBytes, st.artifacts, hfound, hretain, fun hfits => ?_⟩
    obtain ⟨result, hresult⟩ := exists_gathered hfits hneat.legible
    cases (next_of_gathered hfound hforeign hretain hresult).symm.trans h

/-- No key of an artifact that is sent comes twice, as in any dictionary. -/
def Dictionaries (client : A2AClient) (events : List Json) : Prop :=
  ∀ event ∈ events, ∀ update, Updates event update → (artifactOf client update).Keyed

/-- The content of an artifact after more pieces. -/
def total (append : α → α → α) (content : Option α) (pieces : List α) : Option α :=
  pieces.foldl (fun content piece => some (grown append content piece)) content

/-- The run rule of a stream: what every event keeps holds at its end, and where it ends early. -/
theorem collect_rec {P : StreamState → List Json → Prop}
    (hnone : ∀ {st event rest}, P st (event :: rest) → peer.next context st event = .ok none →
      P st rest)
    (hsome : ∀ {st event rest result st'}, P st (event :: rest) →
      peer.next context st event = .ok (some (result, st')) → P st' rest)
    {events : List Json} : ∀ {st : StreamState} {results : List TaskResult}
      {ending : Except Failure StreamState}, P st events →
      peer.collect context st events = (results, ending) →
      (∀ st', ending = .ok st' → P st' []) ∧
      ∀ e, ending = .error e → ∃ before event after st', events = before ++ event :: after ∧
        peer.collect context st before = (results, .ok st') ∧ P st' (event :: after) ∧
        peer.next context st' event = .error e := by
  induction events with
  | nil =>
    intro st results ending hP h
    obtain ⟨-, rfl⟩ := Prod.mk.inj h
    exact ⟨fun st' heq => Except.ok.inj heq ▸ hP, fun e heq => nomatch heq⟩
  | cons event events ih =>
    intro st results ending hP h
    rw [HermesBrokerPeer.collect] at h
    match hnext : peer.next context st event with
    | .error e =>
      rw [hnext] at h
      obtain ⟨rfl, rfl⟩ := Prod.mk.inj h
      refine ⟨fun st' heq => (nomatch heq), fun e' heq => ⟨[], event, events, st, rfl, rfl, hP, ?_⟩⟩
      rw [hnext, Except.error.inj heq]
    | .ok none =>
      rw [hnext] at h
      obtain ⟨hend, herror⟩ := ih (hnone hP hnext) h
      refine ⟨hend, fun e heq => ?_⟩
      obtain ⟨before, last, after, st', hsplit, hbefore, hrest⟩ := herror e heq
      refine ⟨event :: before, last, after, st', by rw [hsplit, List.cons_append], ?_, hrest⟩
      rw [HermesBrokerPeer.collect, hnext]
      exact hbefore
    | .ok (some (result, st'')) =>
      rw [hnext] at h
      obtain ⟨rfl, rfl⟩ := Prod.mk.inj h
      obtain ⟨hend, herror⟩ := ih (hsome hP hnext) rfl
      refine ⟨hend, fun e heq => ?_⟩
      obtain ⟨before, last, after, st', hsplit, hbefore, hrest⟩ := herror e heq
      refine ⟨event :: before, last, after, st', by rw [hsplit, List.cons_append], ?_, hrest⟩
      rw [HermesBrokerPeer.collect, hnext]
      dsimp only
      rw [hbefore]

/-- A stream on its way: with what is kept and the pieces still to come, the artifact will have the
content `whole`. -/
def Underway (peer : HermesBrokerPeer) (append : α → α → α) (Carries : α → Json → Prop)
    (id : String)
    (whole : Option α) (st : StreamState) (events : List Json) : Prop :=
  Neat peer st ∧ Dictionaries peer.client events ∧ ∃ started content pieces,
    Feeds peer Carries id started pieces events ∧ (content.isSome = true → started = true) ∧
    Kept Carries id st.artifacts content ∧ total append content pieces = whole

section

variable {whole : Option α} {events : List Json}

/-- A piece yields a result, if it does not end the stream. -/
theorem next_piece_ne_none {piece : α} {flag : Bool} (h : Piece peer Carries id flag piece event) :
    peer.next context st event ≠ .ok none := by
  obtain ⟨update, ms, hupdates, hartifact, hholds, -⟩ := h
  have hms := @artifactOf_eq _ _ peer.client hartifact hholds.ne_nil
  obtain ⟨parsed, hparsed⟩ := @parse_piece peer context _ _ _ _ _ _ _ hupdates hms hholds
  intro hnone
  obtain ⟨found, hfound, hbody⟩ := Except.bind_eq_ok.mp hnone
  obtain rfl := Except.ok.inj (hparsed.symm.trans hfound)
  dsimp only at hbody
  split_ifs at hbody
  obtain ⟨_, -, hbody⟩ := Except.bind_eq_ok.mp hbody
  obtain ⟨_, -, hbody⟩ := Except.bind_eq_ok.mp hbody
  cases hbody

theorem Underway.pass (h : Underway peer append Carries id whole st (event :: events))
    (hnext : peer.next context st event = .ok none) :
    Underway peer append Carries id whole st events := by
  obtain ⟨hneat, hkeyed, started, content, pieces, hfeeds, hstarted, hrest⟩ := h
  refine ⟨hneat, (List.forall_mem_cons.mp hkeyed).2, started, content, pieces, ?_, hstarted, hrest⟩
  cases hfeeds with
  | aside _ hfeeds => exact hfeeds
  | piece hpiece => exact absurd hnext (next_piece_ne_none hpiece)

theorem Underway.yield (hc : Continues append Carries) (hid : id ≠ "")
    (h : Underway peer append Carries id whole st (event :: events))
    (hnext : peer.next context st event = .ok (some (result, st'))) :
    Underway peer append Carries id whole st' events := by
  obtain ⟨hneat, hkeyed, started, content, pieces, hfeeds, hstarted, hkept, htotal⟩ := h
  obtain ⟨hkeyed, hkeyed'⟩ := List.forall_mem_cons.mp hkeyed
  cases hfeeds with
  | aside haside hfeeds =>
    refine ⟨hneat.next haside.1 hkeyed hnext, hkeyed', started, content, pieces, hfeeds, hstarted,
      ?_, htotal⟩
    have hlookup := lookup_of_aside haside hnext
    cases content with
    | none => exact hlookup.trans hkept
    | some content => exact hkept.imp fun _ ha => ⟨hlookup.trans ha.1, ha.2⟩
  | piece hpiece happend hfeeds =>
    have htask : (event.get? "task").any Json.isObj = false := hpiece.choose_spec.choose_spec.1.1
    exact ⟨hneat.next htask hkeyed hnext, hkeyed', true, _, _, hfeeds, fun _ => rfl,
      hkept.piece hc hid hpiece (fun hsome => happend (hstarted hsome)) hkeyed hnext, htotal⟩

theorem Underway.kept (h : Underway peer append Carries id whole st []) :
    Neat peer st ∧ Kept Carries id st.artifacts whole := by
  obtain ⟨hneat, -, started, content, pieces, hfeeds, -, hkept, rfl⟩ := h
  cases hfeeds
  exact ⟨hneat, hkept⟩

/-- What a stream on its way can end early for. -/
theorem Underway.blamed {e : Failure} (hc : Continues append Carries) (hid : id ≠ "")
    (h : Underway peer append Carries id whole st (event :: events))
    (hnext : peer.next context st event = .error e) :
    Excused peer context id st event ∨ Overflows peer context st event := by
  obtain ⟨hneat, hkeyed, started, content, pieces, hfeeds, hstarted, hkept, -⟩ := h
  cases hfeeds with
  | aside haside => exact aside_error hneat haside hnext
  | piece hpiece happend =>
    exact piece_error hc hid hneat hkept hpiece (fun hsome => happend (hstarted hsome))
      (hkeyed event List.mem_cons_self) hnext

end

/-! ### What is yielded -/

/-- The last result has the artifacts that are kept at the end. -/
theorem getLast?_collect {events : List Json} :
    ∀ {st st' : StreamState} {results : List TaskResult},
    peer.collect context st events = (results, .ok st') →
      results = [] ∧ st'.artifacts = st.artifacts ∨
      ∃ last, results.getLast? = some last ∧ last.artifacts = st'.artifacts.map Prod.snd := by
  induction events with
  | nil =>
    intro st st' results h
    obtain ⟨rfl, hending⟩ := Prod.mk.inj h
    exact .inl ⟨rfl, congrArg StreamState.artifacts (Except.ok.inj hending).symm⟩
  | cons event events ih =>
    intro st st' results h
    rw [HermesBrokerPeer.collect] at h
    match hnext : peer.next context st event with
    | .error e =>
      rw [hnext] at h
      cases (Prod.mk.inj h).2
    | .ok none =>
      rw [hnext] at h
      exact ih h
    | .ok (some (result, st'')) =>
      rw [hnext] at h
      have hartifacts := (gathered_artifacts (next_eq_some hnext).choose_spec.2.2.2.2.1).1
      right
      match hrest : peer.collect context st'' events with
      | (rest, ending) =>
        dsimp only at h
        rw [hrest] at h
        obtain ⟨rfl, rfl⟩ := Prod.mk.inj h
        rcases ih hrest with ⟨rfl, heq⟩ | ⟨last, hlast, hlastArtifacts⟩
        · exact ⟨result, rfl, by rw [hartifacts, heq]⟩
        · refine ⟨last, ?_, hlastArtifacts⟩
          rw [List.getLast?_cons, hlast]
          rfl

/-- The artifacts of every result are within the limit. -/
theorem size_of_collect {events : List Json} : ∀ {st : StreamState},
    ∀ result ∈ (peer.collect context st events).1,
      utf8Length (Json.canonical (.arr result.artifacts)) ≤ peer.maxSnapshotBytes := by
  induction events with
  | nil => exact fun _ h => (nomatch h)
  | cons event events ih =>
    intro st result h
    rw [HermesBrokerPeer.collect] at h
    match hnext : peer.next context st event with
    | .error e =>
      rw [hnext] at h
      cases h
    | .ok none =>
      rw [hnext] at h
      exact ih result h
    | .ok (some (first, st')) =>
      rw [hnext] at h
      rcases List.mem_cons.mp h with rfl | h
      · obtain ⟨parsed, -, -, -, -, hgathered, -⟩ := next_eq_some hnext
        obtain ⟨hartifacts, -, ⟨-, hfits⟩, -⟩ := gathered_artifacts hgathered
        have hsize := utf8Length_artifacts (st'.artifacts.map Prod.snd) parsed.text
        rw [hartifacts]
        omega
      · exact ih result h

/-- All results are about one task: the task of the stream, once it has one. -/
theorem task_of_collect {events : List Json} : ∀ {st : StreamState}, ∃ handle,
    (∀ first ∈ st.handle, first = handle) ∧
      ∀ result ∈ (peer.collect context st events).1, result.taskId = handle := by
  induction events with
  | nil =>
    intro st
    refine ⟨st.handle.getD "", fun first hfirst => ?_, fun _ h => (nomatch h)⟩
    rw [Option.mem_def.mp hfirst]
    rfl
  | cons event events ih =>
    intro st
    rw [HermesBrokerPeer.collect]
    match hnext : peer.next context st event with
    | .error e =>
      refine ⟨st.handle.getD "", fun first hfirst => ?_, fun _ h => (nomatch h)⟩
      rw [Option.mem_def.mp hfirst]
      rfl
    | .ok none => exact ih
    | .ok (some (result, st')) =>
      obtain ⟨parsed, -, -, hmine, -, hgathered, hhandle⟩ := next_eq_some hnext
      obtain ⟨handle, hfirst, hrest⟩ := @ih st'
      have hparsed : parsed.taskId = handle := hfirst _ hhandle
      refine ⟨handle, fun first h => (hmine first h).trans hparsed, fun result' h => ?_⟩
      rcases List.mem_cons.mp h with rfl | h
      · exact (gathered_artifacts hgathered).2.1.trans hparsed
      · exact hrest result' h

end

/-! ### Pieces -/

/-- The result has one artifact with the identifier, and it has one part, which carries the
content. -/
def Delivers {α : Type} (Carries : α → Json → Prop) (id : String) (content : α)
    (result : TaskResult) : Prop :=
  ∃ artifact ∈ result.artifacts, Holds Carries id content artifact ∧
    ∀ other ∈ result.artifacts, other.get? "artifactId" = some (.str id) → other = artifact

section

variable {peer : HermesBrokerPeer} {context id : String} {α : Type} {Carries : α → Json → Prop}
  {append : α → α → α} {pieces : List α} {events : List Json} {results : List TaskResult}

theorem total_some (append : α → α → α) (content : α) (pieces : List α) :
    total append (some content) pieces = some (pieces.foldl append content) := by
  induction pieces generalizing content with
  | nil => rfl
  | cons piece pieces ih => exact ih (append content piece)

theorem underway_of_feeds (hfeeds : Feeds peer Carries id false pieces events)
    (hkeyed : Dictionaries peer.client events) :
    Underway peer append Carries id (total append none pieces) .initial events :=
  ⟨.initial, hkeyed, false, none, pieces, hfeeds, fun h => (nomatch h), rfl, rfl⟩

/-- A stream to its end: its last result has the pieces one after the other. -/
theorem delivers_of_collect {piece : α} (hc : Continues append Carries) (hid : id ≠ "")
    (hfeeds : Feeds peer Carries id false (piece :: pieces) events)
    (hkeyed : Dictionaries peer.client events) {st : StreamState}
    (h : peer.collect context .initial events = (results, .ok st)) :
    ∃ last, results.getLast? = some last ∧
      Delivers Carries id (pieces.foldl append piece) last := by
  have hunderway := @underway_of_feeds _ _ _ _ append _ _ hfeeds hkeyed
  obtain ⟨hneat, hkept⟩ := ((collect_rec (fun h hnext => h.pass hnext)
    (fun h hnext => h.yield hc hid hnext) hunderway h).1 st rfl).kept
  rw [show total append none (piece :: pieces) = some (pieces.foldl append piece) from
    total_some append piece pieces] at hkept
  obtain ⟨artifact, hlookup, hholds⟩ := hkept
  rcases getLast?_collect h with ⟨-, heq⟩ | ⟨last, hlast, hartifacts⟩
  · rw [heq] at hlookup
    cases hlookup
  · have hmem := (Json.lookup_eq_some_iff_mem hneat.nodup).mp hlookup
    refine ⟨last, hlast, artifact, ?_, hholds, fun other hother hsame => ?_⟩
    · rw [hartifacts]
      exact List.mem_map_of_mem hmem
    · rw [hartifacts] at hother
      obtain ⟨kv, hkv, rfl⟩ := List.mem_map.mp hother
      have hkey : kv.1 = id := (hneat.named kv hkv).symm.trans (identity_of_get? hid hsame)
      have hlookup' := (Json.lookup_eq_some_iff_mem hneat.nodup).mpr (show (id, kv.2) ∈ _ from
        hkey ▸ hkv)
      exact Option.some.inj (hlookup'.symm.trans hlookup)

/-- A stream that ends early: the event it ends with is excused, or its snapshot does not fit. -/
theorem blamed_of_collect {e : Failure} (hc : Continues append Carries) (hid : id ≠ "")
    (hfeeds : Feeds peer Carries id false pieces events)
    (hkeyed : Dictionaries peer.client events)
    (h : peer.collect context .initial events = (results, .error e)) :
    ∃ before event after st, events = before ++ event :: after ∧
      peer.collect context .initial before = (results, .ok st) ∧
      (Excused peer context id st event ∨ Overflows peer context st event) := by
  have hunderway := @underway_of_feeds _ _ _ _ append _ _ hfeeds hkeyed
  obtain ⟨before, event, after, st, hsplit, hbefore, hst, hnext⟩ :=
    (collect_rec (fun h hnext => h.pass hnext) (fun h hnext => h.yield hc hid hnext) hunderway h).2
      e rfl
  exact ⟨before, event, after, st, hsplit, hbefore, hst.blamed hc hid hnext⟩

end

/-- A raw part that decodes to the bytes. -/
def DecodesTo (bytes : ByteArray) (part : Json) : Prop :=
  ∃ raw, part.get? "raw" = some (.str raw) ∧ Base64.decode raw = some bytes

/-- An artifact that is sent in pieces is delivered as one part with all of them, by the last result
of a stream that gets to its end; and what one that does not ends with. -/
def Accumulates {α : Type} (peer : HermesBrokerPeer) (context : String) (append : α → α → α)
    (Sent Read : α → Json → Prop) : Prop :=
  ∀ (id : String) (piece : α) (pieces : List α) (events : List Json) (results : List TaskResult)
    (ending : Except Failure StreamState), id ≠ "" → Dictionaries peer.client events →
    Feeds peer Sent id false (piece :: pieces) events →
    peer.collect context .initial events = (results, ending) →
    (∀ st, ending = .ok st → ∃ last, results.getLast? = some last ∧
      Delivers Read id (pieces.foldl append piece) last) ∧
    ∀ e, ending = .error e → ∃ before event after st, events = before ++ event :: after ∧
      peer.collect context .initial before = (results, .ok st) ∧
      (Excused peer context id st event ∨ Overflows peer context st event)

theorem accumulates_of_continues {α : Type} {append : α → α → α} {Sent Read : α → Json → Prop}
    (hc : Continues append Sent) (hread : ∀ {content part}, Sent content part → Read content part)
    (peer : HermesBrokerPeer) (context : String) : Accumulates peer context append Sent Read := by
  intro id piece pieces events results ending hid hkeyed hfeeds h
  refine ⟨fun st hend => ?_, fun e hend => ?_⟩
  · obtain ⟨last, hlast, artifact, hmem, ⟨hartifactId, part, hparts, hpart⟩, hunique⟩ :=
      delivers_of_collect hc hid hfeeds hkeyed (h.trans (by rw [hend]))
    exact ⟨last, hlast, artifact, hmem, ⟨hartifactId, part, hparts, hread hpart⟩, hunique⟩
  · exact blamed_of_collect hc hid hfeeds hkeyed (h.trans (by rw [hend]))

/-- However an artifact is cut, its pieces are put together again, bytes and texts alike; an update
leaves the artifacts of the other identities alone; and all results are within the limit and about
one task. -/
theorem stream_accumulates (peer : HermesBrokerPeer) (context : String) :
    Accumulates peer context (· ++ ·) RawPart DecodesTo ∧
    Accumulates peer context (· ++ ·) TextPart TextPart ∧
    (∀ id event st result st', Aside peer id event →
      peer.next context st event = .ok (some (result, st')) →
      st'.artifacts.lookup id = st.artifacts.lookup id) ∧
    ∀ events, ∃ handle, ∀ result ∈ (peer.collect context .initial events).1,
      result.taskId = handle ∧
      utf8Length (Json.canonical (.arr result.artifacts)) ≤ peer.maxSnapshotBytes := by
  refine ⟨accumulates_of_continues continues_raw (fun h => ⟨_, h.1, Base64.decode_encode _⟩)
    peer context,
    accumulates_of_continues continues_text id peer context,
    fun id event st result st' haside h => lookup_of_aside haside h, fun events => ?_⟩
  obtain ⟨handle, -, hhandle⟩ := @task_of_collect peer context events .initial
  exact ⟨handle, fun result h => ⟨hhandle result h, size_of_collect result h⟩⟩

/-- An update with one part. -/
def updateEvent (id : String) (append : Bool) (part : Json) : Json :=
  .obj [("artifactUpdate", .obj [("taskId", .str "t"), ("append", .bool append),
    ("artifact", .obj [("artifactId", .str id), ("parts", .arr [part])])])]

/-- A raw part. -/
def rawOf (bytes : ByteArray) : Json := .obj [("raw", .str (Base64.encode bytes))]

/-- What the default peer makes of two updates with raw parts. -/
def twoUpdates (id id' : String) (append : Bool) (bytes bytes' : ByteArray) :
    List TaskResult × Except Failure StreamState :=
  HermesBrokerPeer.plain.collect "c" .initial
    [updateEvent id false (rawOf bytes), updateEvent id' append (rawOf bytes')]

theorem piece_updateEvent {id : String} {append : Bool} (bytes : ByteArray) :
    Piece HermesBrokerPeer.plain RawPart id append bytes (updateEvent id append (rawOf bytes)) := by
  refine ⟨_, _, ⟨rfl, rfl, rfl⟩, rfl, ⟨rfl, rawOf bytes, rfl, rfl, fun s hs => ?_⟩, ?_⟩
  · simp [rawOf, members] at hs
  · cases append <;> rfl

theorem keyed_updateEvent {id : String} {append : Bool} {part : Json}
    {update : List (String × Json)} (h : Updates (updateEvent id append part) update) :
    (artifactOf A2AClient.plain update).Keyed := by
  obtain rfl := Json.obj.inj (Option.some.inj h.2.2)
  intro kvs hkvs
  obtain rfl := Json.obj.inj hkvs
  simp

/-- Two pieces of the artifact `x`, with a status and an update for the artifact `y` in between. -/
def interleaved : List Json :=
  [updateEvent "x" false (rawOf "a".toUTF8),
    statusUpdate [("status", .obj [("state", .str "TASK_STATE_WORKING")])],
    updateEvent "y" false (rawOf "z".toUTF8), updateEvent "x" true (rawOf "bc".toUTF8)]

theorem aside_statusUpdate {id : String} (ms : List (String × Json)) :
    Aside HermesBrokerPeer.plain id (statusUpdate ms) := by
  refine ⟨rfl, fun update h => ?_⟩
  cases h.2.2

theorem aside_updateEvent {id id' : String} (hid : id ≠ "") (hne : id ≠ id') (part : Json) :
    Aside HermesBrokerPeer.plain id' (updateEvent id false part) := by
  refine ⟨rfl, fun update h => ?_⟩
  obtain rfl := Json.obj.inj (Option.some.inj h.2.2)
  rw [identity_of_get? hid rfl]
  exact hne

theorem stream_accumulates_two : ∃ last,
    (HermesBrokerPeer.plain.collect "c" .initial interleaved).1.getLast? = some last ∧
      Delivers DecodesTo "x" ("a".toUTF8 ++ "bc".toUTF8) last := by
  have hok :
      (HermesBrokerPeer.plain.collect "c" .initial interleaved).2.toOption.isSome = true := by
    decide +kernel
  obtain ⟨st, hst⟩ :
      ∃ st, (HermesBrokerPeer.plain.collect "c" .initial interleaved).2 = .ok st := by
    cases h : (HermesBrokerPeer.plain.collect "c" .initial interleaved).2 with
    | ok st => exact ⟨st, rfl⟩
    | error e =>
      rw [h] at hok
      cases hok
  have hkeyed : Dictionaries A2AClient.plain interleaved := by
    intro event hevent update hupdates
    simp only [interleaved, List.mem_cons, List.not_mem_nil, or_false] at hevent
    rcases hevent with rfl | rfl | rfl | rfl
    · exact keyed_updateEvent hupdates
    · cases hupdates.2.2
    · exact keyed_updateEvent hupdates
    · exact keyed_updateEvent hupdates
  have hfeeds : Feeds HermesBrokerPeer.plain RawPart "x" false ["a".toUTF8, "bc".toUTF8]
      interleaved :=
    .piece (piece_updateEvent _) (fun h => absurd h Bool.false_ne_true)
      (.aside (aside_statusUpdate _) (.aside (aside_updateEvent (by decide) (by decide) _)
        (.piece (piece_updateEvent _) (fun _ => rfl) (.nil true))))
  have hrun : HermesBrokerPeer.plain.collect "c" .initial interleaved =
      ((HermesBrokerPeer.plain.collect "c" .initial interleaved).1, .ok st) := by
    rw [← hst]
  exact ((stream_accumulates HermesBrokerPeer.plain "c").1 "x" _ ["bc".toUTF8] _ _ _
    (by simp) hkeyed hfeeds hrun).1 st rfl

/-- **An update without an identifier** is for the artifact `part-0`: it replaces what has come of
that one. -/
theorem unnamed_update_replaces :
    Piece HermesBrokerPeer.plain RawPart "part-0" false "a".toUTF8
      (updateEvent "part-0" false (rawOf "a".toUTF8)) ∧
    Piece HermesBrokerPeer.plain RawPart "" false "b".toUTF8
      (updateEvent "" false (rawOf "b".toUTF8)) ∧
    (twoUpdates "part-0" "" false "a".toUTF8 "b".toUTF8).2.toOption.isSome = true ∧
    (twoUpdates "part-0" "" false "a".toUTF8 "b".toUTF8).1.getLast?.map TaskResult.artifacts =
      some [.obj [("artifactId", .str ""), ("parts", .arr [rawOf "b".toUTF8])]] ∧
    ¬ ∃ last, (twoUpdates "part-0" "" false "a".toUTF8 "b".toUTF8).1.getLast? = some last ∧
      Delivers DecodesTo "part-0" "a".toUTF8 last := by
  have hartifacts : (twoUpdates "part-0" "" false "a".toUTF8 "b".toUTF8).1.getLast?.map
      TaskResult.artifacts =
        some [.obj [("artifactId", .str ""), ("parts", .arr [rawOf "b".toUTF8])]] := by
    decide +kernel
  refine ⟨piece_updateEvent _, piece_updateEvent _, by decide +kernel, hartifacts, ?_⟩
  rintro ⟨last, hlast, artifact, hmem, ⟨hid, -⟩, -⟩
  rw [hlast] at hartifacts
  rw [Option.some.inj hartifacts, List.mem_singleton] at hmem
  rw [hmem] at hid
  exact absurd hid (by decide)

end HermesGateway.Peer
