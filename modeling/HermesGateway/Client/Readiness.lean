import HermesGateway.Client.Tunnel

/-!
# The tunnel is what it says it is

What `available` promises rests on five fields that different methods write at different awaits: the
process, its reader, the flag, the event and the buffer. The invariant ties them together: at most
one reader is at work, it reads from the process in the slot, and the buffer is the end of what it
was given. So the flag, which is cleared before the forwarding process is spawned, speaks of that
process and no other. What makes this hold is that nothing is spawned before a cleanup went through
to its end, however often it was cancelled.

Each method is verified once, by what it needs and what it leaves; a cleanup also for the owner, who
calls it while the task of `_run` is done.

## Main definitions

* `Machine.Inv` — the invariant
* `Keeps` — what a write of a method may change
* `taskRules`, `ownerRules` — the conditions of the proofs, with what the loops need and leave
* `player` — a world that can be played

## Main results

* `cleanup_holds` — a cleanup that goes through leaves no process and no reader
* `run_sound` — the invariant over whole runs
* `available_sound` — who is available is the forwarding process, and it has confirmed
-/

namespace HermesGateway.Client

namespace SSHTunnel

variable {u : Setup} {s s' : Machine} {p : ℕ}

/-! ### The invariant -/

/-- The process is the forwarding process of the current attempt. -/
def Machine.Forwards (u : Setup) (s : Machine) (p : ℕ) : Prop :=
  (s.processes p).argv = u.config.argv false ∧ (s.processes p).attempt = s.tunnel.attempts

/-- The process has printed the confirmation. -/
def Machine.Confirmed (u : Setup) (s : Machine) (p : ℕ) : Prop :=
  u.config.confirmation <:+: (s.processes p).printed

/-- The invariant of all states. -/
structure Machine.Inv (u : Setup) (s : Machine) : Prop where
  ready : s.tunnel.ready = true →
    ∃ p, s.tunnel.process = some p ∧ s.Forwards u p ∧ s.Confirmed u p
  /-- A reader at work is that of the process in the slot, and the buffer the end of what it
  read. -/
  reading : ∀ p, (s.processes p).reading = true →
    s.tunnel.process = some p ∧ s.tunnel.reader = some p ∧
      s.tunnel.stderr <:+ (s.processes p).printed.take (s.processes p).taken
  taken : ∀ p, (s.processes p).taken ≤ (s.processes p).printed.length
  fatal : s.fatal = true → s.available = false

/-- No process is in the slot, and nobody reads. -/
structure Machine.Clean (s : Machine) : Prop where
  process : s.tunnel.process = none
  reader : s.tunnel.reader = none
  reading : ∀ p, (s.processes p).reading = false

theorem Machine.available_eq_true :
    s.available = true ↔ s.tunnel.ready = true ∧
      ∃ p, s.tunnel.process = some p ∧ (s.processes p).returncode = none := by
  rw [Machine.available, Bool.and_eq_true, Option.any_eq_true]
  simp [Option.isNone_iff_eq_none]

theorem Machine.available_of_not_ready (h : s.tunnel.ready = false) : s.available = false := by
  rw [Machine.available, h, Bool.false_and]

/-! ### The world -/

/-- What the world leaves as it is, and in which direction it changes the rest. -/
structure Moved (s s' : Machine) : Prop where
  fields : s'.tunnel =
    { s.tunnel with stderr := s'.tunnel.stderr, forwardConfirmed := s'.tunnel.forwardConfirmed }
  counts : s'.spawned = s.spawned ∧ s'.fatal = s.fatal ∧ s'.runs = s.runs ∧ s'.closes = s.closes
  argv : ∀ p, (s'.processes p).argv = (s.processes p).argv
  attempt : ∀ p, (s'.processes p).attempt = (s.processes p).attempt
  printed : ∀ p, (s.processes p).printed <+: (s'.processes p).printed
  returncode : ∀ p, (s'.processes p).returncode = none → (s.processes p).returncode = none
  reading : ∀ p, (s'.processes p).reading = true → (s.processes p).reading = true

/-- A change of one process that keeps what it was spawned as. -/
theorem moved_change (s : Machine) (p : ℕ) {f : Process → Process}
    (hargv : (f (s.processes p)).argv = (s.processes p).argv)
    (hattempt : (f (s.processes p)).attempt = (s.processes p).attempt)
    (hprinted : (s.processes p).printed <+: (f (s.processes p)).printed)
    (hcode : (f (s.processes p)).returncode = none → (s.processes p).returncode = none)
    (hreading : (f (s.processes p)).reading = true → (s.processes p).reading = true) :
    Moved s (s.change p f) := by
  have hcases (P : Process → Process → Prop) (hrefl : ∀ x, P x x)
      (hp : P (s.processes p) (f (s.processes p))) (q : ℕ) :
      P (s.processes q) ((s.change p f).processes q) := by
    rw [Machine.change]
    by_cases hq : q = p
    · subst hq
      simpa using hp
    · simpa [Function.update_of_ne hq] using hrefl _
  exact ⟨rfl, ⟨rfl, rfl, rfl, rfl⟩, hcases (fun x y => y.argv = x.argv) (fun _ => rfl) hargv,
    hcases (fun x y => y.attempt = x.attempt) (fun _ => rfl) hattempt,
    hcases (fun x y => x.printed <+: y.printed) (fun _ => List.prefix_rfl) hprinted,
    hcases (fun x y => y.returncode = none → x.returncode = none) (fun _ => id) hcode,
    hcases (fun x y => y.reading = true → x.reading = true) (fun _ => id) hreading⟩

theorem taken_change (s : Machine) (p q : ℕ) {f : Process → Process}
    (hf : (f (s.processes p)).taken = (s.processes p).taken) :
    ((s.change p f).processes q).taken = (s.processes q).taken := by
  rw [Machine.change]
  by_cases hq : q = p
  · subst hq
    simpa using hf
  · exact congrArg Process.taken (Function.update_of_ne hq _ _)

theorem Moves.moved (h : Moves u s s') : Moved s s' := by
  cases h with
  | prints hp text =>
    exact moved_change s _ rfl rfl (List.prefix_append _ _) id id
  | exits hp hlive code =>
    exact moved_change s _ rfl rfl List.prefix_rfl (fun h => (nomatch h)) id
  | @reads p hreading chunk hnonempty hlength hchunk =>
    have hmoved :=
      moved_change s p (f := fun x => { x with taken := x.taken + chunk.length }) rfl rfl
      List.prefix_rfl id id
    exact ⟨rfl, ⟨rfl, rfl, rfl, rfl⟩, hmoved.argv, hmoved.attempt, hmoved.printed,
      hmoved.returncode,
      hmoved.reading⟩
  | readerEnds hreading =>
    exact moved_change s _ rfl rfl List.prefix_rfl id (fun h => (nomatch h))

section

variable (h : Moved s s')

include h

theorem Moved.process : s'.tunnel.process = s.tunnel.process := by rw [h.fields]

theorem Moved.reader : s'.tunnel.reader = s.tunnel.reader := by rw [h.fields]

theorem Moved.ready : s'.tunnel.ready = s.tunnel.ready := by rw [h.fields]

theorem Moved.attempts : s'.tunnel.attempts = s.tunnel.attempts := by rw [h.fields]

theorem Moved.generation : s'.tunnel.generation = s.tunnel.generation := by rw [h.fields]

theorem Moved.task : s'.tunnel.task = s.tunnel.task := by rw [h.fields]

theorem Moved.available (havailable : s'.available = true) : s.available = true := by
  rw [Machine.available_eq_true] at havailable ⊢
  obtain ⟨hready, p, hprocess, hcode⟩ := havailable
  exact ⟨h.ready ▸ hready, p, h.process ▸ hprocess, h.returncode p hcode⟩

theorem Moved.forwards (hp : s.Forwards u p) : s'.Forwards u p := by
  rw [Machine.Forwards, h.argv, h.attempt, h.attempts]
  exact hp

theorem Moved.confirmed (hp : s.Confirmed u p) : s'.Confirmed u p :=
  hp.trans (h.printed p).isInfix

theorem Moved.clean (hs : s.Clean) : s'.Clean :=
  ⟨h.process.trans hs.process, h.reader.trans hs.reader, fun p =>
    Bool.eq_false_iff.mpr fun hp => Bool.eq_false_iff.mp (hs.reading p) (h.reading p hp)⟩

end

/-- The buffer stays the end of what the reader was given, and holds it with the new chunk. -/
theorem suffix_takeIn {printed chunk : List UInt8} {taken : ℕ} {t : SSHTunnel}
    (h : t.stderr <:+ printed.take taken) (hchunk : chunk <+: printed.drop taken) :
    t.stderr ++ chunk <:+ printed.take (taken + chunk.length) ∧
      (t.takeIn u.config chunk).stderr <:+ t.stderr ++ chunk := by
  refine ⟨?_, ?_⟩
  · rw [List.take_add, ← List.prefix_iff_eq_take.mp hchunk]
    obtain ⟨dropped, hdropped⟩ := h
    exact ⟨dropped, by rw [← hdropped, List.append_assoc]⟩
  · simp only [takeIn]
    split_ifs with hlong
    · exact Tail.rtake_isSuffix _ _
    · exact List.suffix_rfl

/-- What was read of a process, with the buffer, after a move: what the reader was given is a part
of what the process has printed, and the buffer is the end of it. -/
theorem Moves.read (h : Moves u s s') (hs : s.Inv u) (q : ℕ) :
    (s'.processes q).taken ≤ (s'.processes q).printed.length ∧
      ((s'.processes q).reading = true →
        s'.tunnel.stderr <:+ (s'.processes q).printed.take (s'.processes q).taken) := by
  have hprinted := h.moved.printed q
  have hreading := h.moved.reading q
  -- whoever has taken nothing new still has what it had
  have hstays (hstderr : s'.tunnel.stderr = s.tunnel.stderr)
      (htaken : (s'.processes q).taken = (s.processes q).taken) :
      (s'.processes q).taken ≤ (s'.processes q).printed.length ∧
        ((s'.processes q).reading = true →
          s'.tunnel.stderr <:+ (s'.processes q).printed.take (s'.processes q).taken) := by
    obtain ⟨more, hmore⟩ := hprinted
    have hle := hs.taken q
    rw [htaken, hstderr, ← hmore, List.take_append_of_le_length hle, List.length_append]
    exact ⟨by omega, fun hq => (hs.reading q (hreading hq)).2.2⟩
  cases h with
  | @prints p hp text => exact hstays rfl (taken_change s p q rfl)
  | @exits p hp hlive code => exact hstays rfl (taken_change s p q rfl)
  | @readerEnds p hp => exact hstays rfl (taken_change s p q rfl)
  | @reads p hp chunk hnonempty hlength hchunk =>
    by_cases hq : q = p
    · subst hq
      obtain ⟨hgrown, hkept⟩ := suffix_takeIn (u := u) (hs.reading q hp).2.2 hchunk
      have hle := hchunk.length_le
      rw [List.length_drop] at hle
      have := hs.taken q
      simp only [Machine.change, Function.update_self]
      exact ⟨by omega, fun _ => hkept.trans hgrown⟩
    · -- nobody else reads
      refine ⟨?_, fun hq' => absurd ((hs.reading q (hreading hq')).1.symm.trans (hs.reading p hp).1)
        (by simpa using hq)⟩
      simpa [Machine.change, Function.update_of_ne hq] using hs.taken q

/-- The invariant does not depend on what the world does. -/
theorem Moves.inv (h : Moves u s s') (hs : s.Inv u) : s'.Inv u := by
  have hmoved := h.moved
  refine ⟨fun hready => ?_, fun q hq => ?_, fun q => ?_, fun hfatal => ?_⟩
  · obtain ⟨p, hprocess, hforwards, hconfirmed⟩ := hs.ready (hmoved.ready ▸ hready)
    exact ⟨p, hmoved.process.trans hprocess, hmoved.forwards hforwards, hmoved.confirmed hconfirmed⟩
  · obtain ⟨hprocess, hreader, hbuffer⟩ := hs.reading q (hmoved.reading q hq)
    exact ⟨hmoved.process.trans hprocess, hmoved.reader.trans hreader, (h.read hs q).2 hq⟩
  · exact (h.read hs q).1
  · rw [hmoved.counts.2.1] at hfatal
    exact Bool.eq_false_iff.mpr fun h' =>
      Bool.eq_false_iff.mp (hs.fatal hfatal) (hmoved.available h')

/-- Only the reader of the process in the slot raises the flag, and only for what that process
printed. -/
theorem Moves.flag (h : Moves u s s') (hs : s.Inv u) (hflag : s'.tunnel.forwardConfirmed = true) :
    s.tunnel.forwardConfirmed = true ∨ ∃ p, s.tunnel.process = some p ∧ s'.Confirmed u p := by
  have hmoved := h.moved
  cases h with
  | @reads p hp chunk hnonempty hlength hchunk =>
    obtain ⟨hprocess, -, hbuffer⟩ := hs.reading p hp
    have hflag' : (s.tunnel.forwardConfirmed ||
        decide (u.config.confirmation <:+: s.tunnel.stderr ++ chunk)) = true := hflag
    rw [Bool.or_eq_true, decide_eq_true_iff] at hflag'
    refine hflag'.imp_right fun hfound => ⟨p, hprocess, hmoved.confirmed ?_⟩
    have hgrown := (suffix_takeIn (u := u) hbuffer hchunk).1
    exact hfound.trans (hgrown.isInfix.trans (List.take_prefix _ _).isInfix)
  | _ => exact .inl hflag

/-- Where nobody reads, the buffer and the flag stay. -/
theorem Moves.unread (h : Moves u s s') (hs : ∀ p, (s.processes p).reading = false) :
    s'.tunnel.stderr = s.tunnel.stderr ∧
      s'.tunnel.forwardConfirmed = s.tunnel.forwardConfirmed := by
  cases h with
  | @reads p hreading => exact absurd hreading (by simp [hs p])
  | _ => exact ⟨rfl, rfl⟩

/-! ### What the methods write -/

/-- What a write of a method may change. -/
structure Keeps (u : Setup) (s s' : Machine) : Prop where
  inv : s'.Inv u
  generation : s'.tunnel.generation =
    s.tunnel.generation + if s.available = false ∧ s'.available = true then 1 else 0
  fatal : s.fatal = true → s'.fatal = true ∧ s'.spawned = s.spawned
  task : s'.tunnel.task = s.tunnel.task
  runs : s'.runs = s.runs
  closes : s'.closes = s.closes

/-- A write after which the tunnel is as available as before, or not at all. -/
theorem Keeps.of_available {s s' : Machine} (hinv : s'.Inv u)
    (havailable : s'.available = true → s.available = true)
    (hgeneration : s'.tunnel.generation = s.tunnel.generation)
    (hfatal : s.fatal = true → s'.fatal = true ∧ s'.spawned = s.spawned)
    (htask : s'.tunnel.task = s.tunnel.task) (hruns : s'.runs = s.runs)
    (hcloses : s'.closes = s.closes) : Keeps u s s' := by
  refine ⟨hinv, ?_, hfatal, htask, hruns, hcloses⟩
  rw [if_neg, hgeneration, Nat.add_zero]
  rintro ⟨hnot, h⟩
  exact absurd (havailable h) (by simp [hnot])

/-- A write to fields the invariant is not about. -/
theorem keeps_assign (hs : s.Inv u) {f : SSHTunnel → SSHTunnel}
    (hprocess : (f s.tunnel).process = s.tunnel.process)
    (hready : (f s.tunnel).ready = s.tunnel.ready)
    (hreader : (f s.tunnel).reader = s.tunnel.reader)
    (hstderr : (f s.tunnel).stderr = s.tunnel.stderr)
    (hattempts : (f s.tunnel).attempts = s.tunnel.attempts)
    (hgeneration : (f s.tunnel).generation = s.tunnel.generation)
    (htask : (f s.tunnel).task = s.tunnel.task) :
    Keeps u s { s with tunnel := f s.tunnel } := by
  have havailable : Machine.available { s with tunnel := f s.tunnel } = s.available := by
    simp only [Machine.available, hready, hprocess]
  refine .of_available ⟨fun h => ?_, fun p hp => ?_, hs.taken, fun h => ?_⟩ (havailable ▸ id)
    hgeneration (fun h => ⟨h, rfl⟩) htask rfl rfl
  · obtain ⟨p, hp, hforwards, hconfirmed⟩ := hs.ready (hready ▸ h)
    refine ⟨p, hprocess.trans hp, ⟨hforwards.1, ?_⟩, hconfirmed⟩
    exact hforwards.2.trans hattempts.symm
  · obtain ⟨hp', hr, hbuffer⟩ := hs.reading p hp
    refine ⟨hprocess.trans hp', hreader.trans hr, ?_⟩
    change (f s.tunnel).stderr <:+ _
    rw [hstderr]
    exact hbuffer
  · rw [havailable]
    exact hs.fatal h

/-- The writes of a cleanup. -/
inductive Sheds : Machine → Machine → Prop
  | ready (s : Machine) : Sheds s { s with tunnel := { s.tunnel with ready := false } }
  | childTracker (s : Machine) :
      Sheds s { s with tunnel := { s.tunnel with childTracker := false } }
  | reader (s : Machine) : Sheds s { s with tunnel := { s.tunnel with reader := none } }
  | process (s : Machine) : Sheds s { s with tunnel := { s.tunnel with process := none } }

/-- A cleanup under the rules `R` keeps `F`, which keeps out everything but the world. -/
structure Permits (u : Setup) (R : Co.Rules lang) (F : Machine → Prop) : Prop where
  answers : ∀ {q r s}, R.answers q r s → Answers q r s
  rely : ∀ {s s'}, F s → R.rely s s' → Moves u s s'
  moves : ∀ {s s'}, F s → Moves u s s' → F s'
  sheds : ∀ {s s'}, F s → Sheds s s' → F s'
  guar : ∀ {s s'}, F s → Sheds s s' → Keeps u s s' → R.guar s s'
  pre : ∀ {deadline s}, R.pre (.children deadline) s
  post : ∀ {deadline s r s'}, R.post (.children deadline) s r s' →
    Relation.ReflTransGen R.rely s s'

/-- What holds while a cleanup is under way. -/
structure Tidying (u : Setup) (F : Machine → Prop) (s : Machine) : Prop where
  frame : F s
  inv : s.Inv u
  ready : s.tunnel.ready = false

section

variable {R : Co.Rules lang} {F : Machine → Prop} (hR : Permits u R F)

include hR

theorem Permits.tidying (h : Tidying u F s) (hrely : R.rely s s') : Tidying u F s' := by
  have hmoves := hR.rely h.frame hrely
  exact ⟨hR.moves h.frame hmoves, hmoves.inv h.inv, hmoves.moved.ready.trans h.ready⟩

theorem Permits.tidying_of_refl (h : Tidying u F s) (hrely : Relation.ReflTransGen R.rely s s') :
    Tidying u F s' := by
  induction hrely with
  | refl => exact h
  | tail _ hstep ih => exact hR.tidying ih hstep

/-- A wait within a cleanup, keeping what the world does not change. -/
theorem Permits.holds_await_keeping {K : Machine → Prop}
    (hK : ∀ {s s'}, K s → Moved s s' → K s') {q : Query}
    {post : Except Exc q.Answer → Machine → Prop} (h : Tidying u F s) (hs : K s)
    (hpost : ∀ s' r, Tidying u F s' → K s' → Answers q r s' → post r s') :
    (await q).Holds R post s := by
  refine Co.holds_awaits_of_stable (P := fun s => Tidying u F s ∧ K s) ?_ ⟨h, hs⟩
    fun s' r hs' hr => hpost s' r hs'.1 hs'.2 (hR.answers hr)
  exact fun ht hrely => ⟨hR.tidying ht.1 hrely, hK ht.2 (hR.rely ht.1.frame hrely).moved⟩

/-- A wait within a cleanup. -/
theorem Permits.holds_await {q : Query} {post : Except Exc q.Answer → Machine → Prop}
    (h : Tidying u F s) (hpost : ∀ s' r, Tidying u F s' → Answers q r s' → post r s') :
    (await q).Holds R post s :=
  Co.holds_awaits_of_stable hR.tidying h fun s' r hs' hr => hpost s' r hs' (hR.answers hr)

/-- A write of a cleanup. -/
theorem Permits.holds_sheds {f : SSHTunnel → SSHTunnel} {post : Except Exc Unit → Machine → Prop}
    (h : Tidying u F s) (hsheds : Sheds s { s with tunnel := f s.tunnel })
    (hkeeps : Keeps u s { s with tunnel := f s.tunnel })
    (hready : (f s.tunnel).ready = false)
    (hpost : Tidying u F { s with tunnel := f s.tunnel } →
      post (.ok ()) { s with tunnel := f s.tunnel }) : (assign f).Holds R post s :=
  Co.holds_modify.mpr
    ⟨hR.guar h.frame hsheds hkeeps, hpost ⟨hR.sheds h.frame hsheds, hkeeps.inv, hready⟩⟩

end

theorem holds_ownProcess {R : Co.Rules lang} {post : Except Exc ℕ → Machine → Prop} :
    ownProcess.Holds R post s ↔ (∀ p, s.tunnel.process = some p → post (.ok p) s) ∧
      (s.tunnel.process = none → post (.error .other) s) := by
  refine Co.holds_bind.trans (Co.holds_gets.trans ?_)
  dsimp only
  split
  next p hp =>
    refine ⟨fun h => ⟨fun q hq => ?_, fun hnone => ?_⟩, fun h => h.1 p hp⟩
    · exact Option.some.inj (hp.symm.trans hq) ▸ h
    · exact absurd (hp.symm.trans hnone) (Option.some_ne_none p)
  next hnone =>
    refine ⟨fun h => ⟨fun p hp => ?_, fun _ => h⟩, fun h => h.2 hnone⟩
    exact absurd (hp.symm.trans hnone) (Option.some_ne_none p)

theorem holds_ownReader {R : Co.Rules lang} {post : Except Exc ℕ → Machine → Prop}
    (h : ∀ r, post r s) : ownReader.Holds R post s := by
  refine Co.holds_bind.mpr (Co.holds_gets.mpr ?_)
  dsimp only
  split
  next p _ => exact h (.ok p)
  next => exact h (.error .other)

theorem holds_returncode {R : Co.Rules lang} {post : Except Exc (Option ℤ) → Machine → Prop} :
    returncode.Holds R post s ↔
      (∀ p, s.tunnel.process = some p → post (.ok (s.processes p).returncode) s) ∧
        (s.tunnel.process = none → post (.error .other) s) :=
  Co.holds_bind.trans holds_ownProcess

theorem holds_signal {R : Co.Rules lang} {post : Except Exc Unit → Machine → Prop}
    (h : ∀ r, post r s) : (signalOwnedGroup u).Holds R post s := by
  refine Co.holds_bind.mpr (Co.holds_gets.mpr (Co.holds_when.mpr ⟨fun _ => ?_, fun _ => h _⟩))
  exact Co.holds_asks.mpr fun r _ => h r

/-- Who is not ready may lose its process and its reader, once nobody reads. -/
theorem keeps_drop (hs : s.Inv u) (hready : s.tunnel.ready = false)
    (hreading : ∀ p, (s.processes p).reading = false) {f : SSHTunnel → SSHTunnel}
    (hsame : (f s.tunnel).ready = s.tunnel.ready)
    (hgeneration : (f s.tunnel).generation = s.tunnel.generation)
    (htask : (f s.tunnel).task = s.tunnel.task) :
    Keeps u s { s with tunnel := f s.tunnel } := by
  have havailable : Machine.available { s with tunnel := f s.tunnel } = false :=
    Machine.available_of_not_ready (hsame.trans hready)
  refine .of_available ⟨fun h => ?_, fun p hp => ?_, hs.taken, fun _ => havailable⟩
    (fun h => ?_) hgeneration (fun h => ⟨h, rfl⟩) htask rfl rfl
  · exact absurd (hsame.trans hready) (by simpa using h)
  · exact absurd hp (by simp [hreading p])
  · exact absurd h (by simp [havailable])

theorem keeps_unready (hs : s.Inv u) :
    Keeps u s { s with tunnel := { s.tunnel with ready := false } } := by
  have havailable :
    Machine.available { s with tunnel := { s.tunnel with ready := false } } = false :=
    Machine.available_of_not_ready rfl
  exact .of_available ⟨fun h => (nomatch h), hs.reading, hs.taken, fun _ => havailable⟩
    (fun h => absurd h (by simp [havailable])) rfl (fun h => ⟨h, rfl⟩) rfl rfl rfl

/-- Nobody reads when the reader is not known, or done. -/
theorem Machine.Inv.unread (hs : s.Inv u)
    (h : ∀ p, s.tunnel.reader = some p → (s.processes p).reading = false) (p : ℕ) :
    (s.processes p).reading = false := by
  cases hp : (s.processes p).reading with
  | false => rfl
  | true => exact (h p (hs.reading p hp).2.1).symm.trans hp |>.symm

section

variable {R : Co.Rules lang} {F : Machine → Prop} (hR : Permits u R F)

include hR

/-- The wait for the tracker of the helpers. -/
theorem Permits.holds_tracker (h : Tidying u F s) :
    Co.Holds (I := lang) R (do
      await .trackerGone
      assign fun t => { t with childTracker := false }) (fun _ => Tidying u F) s := by
  refine Co.holds_bind.mpr (hR.holds_await h fun t r ht _ => ?_)
  cases r with
  | error e => exact ht
  | ok _ =>
    have hkeeps := keeps_assign (f := fun t => { t with childTracker := false }) ht.inv rfl rfl
      rfl rfl rfl rfl rfl
    exact hR.holds_sheds ht (.childTracker t) hkeeps ht.ready id

/-- The wait for the end of a process, which is signalled a second time. -/
theorem Permits.holds_exit (h : Tidying u F s) (p : ℕ) :
    Co.Holds (I := lang) R (Co.catching (await (.exitWithin p)) fun
      | .timeout => do
        signalOwnedGroup u
        await (.exit p)
      | e => raise e) (fun _ => Tidying u F) s := by
  refine Co.Holds.catching (M := fun _ => Tidying u F)
    (hR.holds_await h fun t r ht _ => ht) (fun _ t ht => ht) fun e t ht => ?_
  cases e with
  | timeout =>
    exact Co.Holds.bind (M := fun _ => Tidying u F) (holds_signal fun _ => ht)
      (fun _ t' ht' => hR.holds_await ht' fun t r ht _ => ht) fun e t' ht' => ht'
  | _ => exact ht

/-- The wait for the helpers. -/
theorem Permits.holds_children (h : Tidying u F s) (deadline : ℚ) :
    Co.Holds (I := lang) R (do
      loop (.children deadline)
      let alive : Bool ← ask .childrenAlive
      Co.when (alive = true) (signalOwnedGroup u)) (fun _ => Tidying u F) s := by
  refine Co.Holds.bind (M := fun _ => Tidying u F)
    (Co.holds_loop.mpr ⟨hR.pre, fun r t ht => hR.tidying_of_refl h (hR.post ht)⟩)
    (fun _ t ht => ?_) fun e t ht => ht
  refine Co.Holds.bind (Co.holds_asks (q := Query.childrenAlive) |>.mpr fun r _ =>
    (ht : (fun (_ : Except Exc Bool) => Tidying u F) r t)) (fun alive t' ht' => ?_)
      fun e t' ht' => ht'
  exact Co.holds_when.mpr ⟨fun _ => holds_signal fun _ => ht', fun _ => ht'⟩

/-- The wait for the end of the reader. -/
theorem Permits.holds_readerGone {p : ℕ} (h : Tidying u F s) (hp : s.tunnel.reader = some p) :
    Co.Holds (I := lang) R (Co.catching (await (.readerWithin p)) fun
      | .timeout => do
        signalOwnedGroup u
        await (.readerGone p)
      | e => raise e) (fun r (t : Machine) => Tidying u F t ∧
        (r = .ok () → ∀ q, (t.processes q).reading = false)) s := by
  have hgone {t : Machine} (ht : Tidying u F t) (hreader : t.tunnel.reader = some p)
      (hdone : (t.processes p).reading = false) (q : ℕ) : (t.processes q).reading = false :=
    ht.inv.unread (fun q hq => Option.some.inj (hreader.symm.trans hq) ▸ hdone) q
  have hK {t t' : Machine} (ht : t.tunnel.reader = some p) (h : Moved t t') :
      t'.tunnel.reader = some p := h.reader.trans ht
  refine Co.Holds.catching (M := fun r (t : Machine) => Tidying u F t ∧
      t.tunnel.reader = some p ∧ (r = .ok () → (t.processes p).reading = false))
    (hR.holds_await_keeping hK h hp fun t r ht hreader hr => ⟨ht, hreader, ?_⟩)
    (fun _ t ht => ⟨ht.1, fun _ => hgone ht.1 ht.2.1 (ht.2.2 rfl)⟩) fun e t ht => ?_
  · rintro rfl
    exact hr.1
  cases e with
  | timeout =>
    refine Co.Holds.bind (M := fun _ t' => t' = t) (holds_signal fun _ => rfl) ?_ ?_
    · rintro - t' rfl
      refine hR.holds_await_keeping hK ht.1 ht.2.1 fun t r ht hreader hr => ⟨ht, ?_⟩
      rintro rfl
      exact hgone ht hreader hr.1
    · rintro e t' rfl
      exact ⟨ht.1, fun h => (nomatch h)⟩
  | _ => exact ⟨ht.1, fun h => (nomatch h)⟩

end

/-- A cleanup may be cancelled at any await. It leaves the tunnel unavailable however it ends, and
clean when it went through. -/
theorem cleanup_holds {R : Co.Rules lang} {F : Machine → Prop} (hR : Permits u R F) (hF : F s)
    (hs : s.Inv u) :
    (cleanup u).Holds R (fun r s' => Tidying u F s' ∧ (r = .ok () → s'.Clean)) s := by
  -- what holds after a part that need not go through
  have hend {e : Exc} {t : Machine} (ht : Tidying u F t) :
      Tidying u F t ∧ (Except.error e = .ok () → t.Clean) := ⟨ht, fun h => (nomatch h)⟩
  refine Co.holds_bind.mpr (Co.holds_modify.mpr ⟨hR.guar hF (.ready s) (keeps_unready hs), ?_⟩)
  have htidy : Tidying u F { s with tunnel := { s.tunnel with ready := false } } :=
    ⟨hR.sheds hF (.ready s), (keeps_unready hs).inv, rfl⟩
  generalize ({ s with tunnel := { s.tunnel with ready := false } } : Machine) = s₁ at htidy
  refine Co.holds_bind.mpr (Co.holds_gets.mpr ?_)
  refine Co.Holds.bind (M := fun _ => Tidying u F)
    (Co.holds_when.mpr ⟨fun _ => hR.holds_tracker htidy, fun _ => htidy⟩)
    (fun _ s₂ htidy => ?_) fun e s₂ htidy => hend htidy
  refine Co.Holds.bind (Co.holds_asks (q := Query.monotonic) |>.mpr fun r _ =>
    (htidy : (fun (_ : Except Exc ℚ) => Tidying u F) r s₂)) (fun now s₃ htidy => ?_)
    fun e s₃ htidy => hend htidy
  refine Co.Holds.bind (M := fun _ => Tidying u F) (holds_signal fun _ => htidy)
    (fun _ s₄ htidy => ?_) fun e s₄ htidy => hend htidy
  refine Co.holds_bind.mpr (Co.holds_gets.mpr ?_)
  refine Co.Holds.bind (M := fun _ => Tidying u F)
    (Co.holds_whenSome.mpr ⟨fun p _ => ?_, fun _ => htidy⟩) (fun _ s₅ htidy => ?_)
    fun e s₅ htidy => hend htidy
  · exact hR.holds_exit htidy p
  refine Co.Holds.bind (M := fun _ => Tidying u F)
    (Co.holds_when.mpr ⟨fun _ => hR.holds_children htidy (now + 3), fun _ => htidy⟩)
    (fun _ s₆ htidy => ?_) fun e s₆ htidy => hend htidy
  -- without a reader nobody reads, and with one it is awaited
  refine Co.holds_bind.mpr (Co.holds_gets.mpr ?_)
  refine Co.Holds.bind (M := fun r (t : Machine) => Tidying u F t ∧
      (r = .ok () → t.tunnel.reader = none ∧ ∀ p, (t.processes p).reading = false))
    (Co.holds_whenSome.mpr ⟨fun p hp => ?_, fun hnone => ⟨htidy, fun _ =>
      ⟨hnone, htidy.inv.unread fun p hp => absurd (hnone.symm.trans hp) (by simp)⟩⟩⟩)
    (fun _ s₇ hs₇ => ?_) fun e s₇ hs₇ => hend hs₇.1
  · refine Co.Holds.bind (hR.holds_readerGone htidy hp) (fun _ t ht => ?_)
      fun e t ht => ⟨ht.1, fun h => (nomatch h)⟩
    have hkeeps := keeps_drop (f := fun t => { t with reader := none }) ht.1.inv ht.1.ready
      (ht.2 rfl) rfl rfl rfl
    exact hR.holds_sheds ht.1 (.reader t) hkeeps ht.1.ready
      fun ht' => ⟨ht', fun _ => ⟨rfl, ht.2 rfl⟩⟩
  · obtain ⟨hreader, hreading⟩ := hs₇.2 rfl
    have hkeeps := keeps_drop (f := fun t => { t with process := none }) hs₇.1.inv hs₇.1.ready
      hreading rfl rfl rfl
    exact hR.holds_sheds hs₇.1 (.process s₇) hkeeps hs₇.1.ready
      fun ht' => ⟨ht', fun _ => ⟨rfl, hreader, hreading⟩⟩

/-! ### What the loops need and leave -/

/-- Not ready. -/
structure Unready (u : Setup) (s : Machine) : Prop where
  inv : s.Inv u
  ready : s.tunnel.ready = false

/-- Clean, and no failure was met that is not retried: a process may be spawned. -/
structure Resting (u : Setup) (s : Machine) : Prop extends Unready u s where
  clean : s.Clean
  fatal : s.fatal = false

/-- The forwarding process is in the slot, not ready yet, and the flag speaks of it. -/
structure Probing (u : Setup) (p : ℕ) (s : Machine) : Prop extends Unready u s where
  fatal : s.fatal = false
  process : s.tunnel.process = some p
  forwards : s.Forwards u p
  flag : s.tunnel.forwardConfirmed = true → s.Confirmed u p

/-- How an attempt ends: after an error of the system nobody is available, and a failure that is
retried was the only one. -/
structure Failed (u : Setup) (e : Exc) (s : Machine) : Prop where
  inv : s.Inv u
  available : e.isOSError = true → s.available = false
  fatal : (∀ f, e = .failure f → f.retryable = true) → s.fatal = false

/-- What never returns fails. -/
def Fails (u : Setup) {α : Type} : Except Exc α → Machine → Prop
  | .ok _, _ => False
  | .error e, s => Failed u e s

/-- How the loop of `_connect` ends. -/
def Probed (u : Setup) : Except Exc Unit → Machine → Prop
  | .ok _, s => s.Inv u ∧ s.fatal = false
  | .error e, s => Failed u e s

/-- The rules of the task of `_run`. -/
def taskRules (u : Setup) : Co.Rules lang where
  rely := Moves u
  guar := Keeps u
  answers := Answers
  pre
    | .children _, _ => True
    | .lines _ _, s => Unready u s ∧ s.fatal = false
    | .probes _, s => ∃ p, Probing u p s
    | .attempts _, s => Resting u s
  post
    | .children _, s, _, s' => Relation.ReflTransGen (Moves u) s s'
    | .lines _ _, _, r, s' => Unready u s' ∧ (r = .ok () → s'.fatal = false)
    | .probes _, _, r, s' => Probed u r s'
    | .attempts _, _, _, s' => s'.Inv u

theorem permits_task (u : Setup) (b : Bool) : Permits u (taskRules u) fun s => s.fatal = b where
  answers := id
  rely _ h := h
  moves hs h := h.moved.counts.2.1.trans hs
  sheds hs h := by cases h <;> exact hs
  guar _ _ h := h
  pre := trivial
  post := id

theorem Unready.moves (hs : Unready u s) (h : Moves u s s') : Unready u s' :=
  ⟨h.inv hs.inv, h.moved.ready.trans hs.ready⟩

theorem Unready.available (hs : Unready u s) : s.available = false :=
  Machine.available_of_not_ready hs.ready

theorem Resting.moves (hs : Resting u s) (h : Moves u s s') : Resting u s' :=
  ⟨hs.toUnready.moves h, h.moved.clean hs.clean, h.moved.counts.2.1.trans hs.fatal⟩

theorem Probing.moves (hs : Probing u p s) (h : Moves u s s') : Probing u p s' := by
  refine ⟨hs.toUnready.moves h, h.moved.counts.2.1.trans hs.fatal, h.moved.process.trans hs.process,
    h.moved.forwards hs.forwards, fun hflag => ?_⟩
  rcases h.flag hs.inv hflag with hflag | ⟨q, hq, hconfirmed⟩
  · exact h.moved.confirmed (hs.flag hflag)
  · exact Option.some.inj (hq.symm.trans hs.process) ▸ hconfirmed

/-- A write after which the tunnel is not ready. -/
theorem keeps_of_unready (hs' : Unready u s')
    (hgeneration : s'.tunnel.generation = s.tunnel.generation)
    (hfatal : s.fatal = true → s'.fatal = true ∧ s'.spawned = s.spawned)
    (htask : s'.tunnel.task = s.tunnel.task) (hruns : s'.runs = s.runs)
    (hcloses : s'.closes = s.closes) : Keeps u s s' :=
  .of_available hs'.inv (fun h => absurd h (by simp [hs'.available])) hgeneration hfatal htask hruns
    hcloses

/-! ### Spawning -/

/-- A process was created that nobody reads from yet, and neither the buffer nor the flag
changed. -/
structure Created (u : Setup) (argv : List String) (stderr : List UInt8) (flag : Bool) (p : ℕ)
    (s : Machine) : Prop extends Unready u s where
  fatal : s.fatal = false
  reading : ∀ q, (s.processes q).reading = false
  argv : (s.processes p).argv = argv
  attempt : (s.processes p).attempt = s.tunnel.attempts
  stderr : s.tunnel.stderr = stderr
  flag : s.tunnel.forwardConfirmed = flag

variable {argv : List String} {stderr : List UInt8} {flag : Bool}

theorem Created.moves (hs : Created u argv stderr flag p s) (h : Moves u s s') :
    Created u argv stderr flag p s' := by
  obtain ⟨hstderr, hflag⟩ := h.unread hs.reading
  refine ⟨hs.toUnready.moves h, h.moved.counts.2.1.trans hs.fatal, fun q => ?_,
    (h.moved.argv p).trans hs.argv, ?_, hstderr.trans hs.stderr, hflag.trans hs.flag⟩
  · exact Bool.eq_false_iff.mpr fun hq =>
      Bool.eq_false_iff.mp (hs.reading q) (h.moved.reading q hq)
  · rw [h.moved.attempt, h.moved.attempts]
    exact hs.attempt

/-- A machine that is not ready and that nobody reads satisfies the invariant. -/
theorem Unready.of_unread (hready : s.tunnel.ready = false)
    (hreading : ∀ q, (s.processes q).reading = false)
    (htaken : ∀ q, (s.processes q).taken ≤ (s.processes q).printed.length) : Unready u s := by
  refine ⟨⟨fun h => ?_, fun q hq => ?_, htaken, fun _ => ?_⟩, hready⟩
  · exact absurd h (by simp [hready])
  · exact absurd hq (by simp [hreading q])
  · exact Machine.available_of_not_ready hready

theorem create_holds (hs : Resting u s) (argv : List String) (hstderr : s.tunnel.stderr = stderr)
    (hflag : s.tunnel.forwardConfirmed = flag) :
    (create argv).Holds (taskRules u)
      (fun r s' => ∃ p, r = .ok p ∧ Created u argv stderr flag p s') s := by
  refine Co.holds_bind.mpr (Co.holds_gets.mpr (Co.holds_bind.mpr (Co.holds_modify.mpr ?_)))
  have hfresh (q : ℕ) (P : Process → Prop) (hq : P (s.processes q))
      (hnew : P { argv := argv, attempt := s.tunnel.attempts }) :
      P (Function.update s.processes s.spawned
        { argv := argv, attempt := s.tunnel.attempts } q) := by
    by_cases heq : q = s.spawned
    · rwa [heq, Function.update_self]
    · rwa [Function.update_of_ne heq]
  have hunready : Unready u
      { s with
        processes :=
          Function.update s.processes s.spawned { argv := argv, attempt := s.tunnel.attempts }
        spawned := s.spawned + 1 } :=
    .of_unread hs.ready (fun q => hfresh q (fun x => x.reading = false) (hs.clean.reading q) rfl)
      fun q => hfresh q (fun x => x.taken ≤ x.printed.length) (hs.inv.taken q) (Nat.zero_le _)
  refine ⟨keeps_of_unready hunready rfl (fun h => absurd h (by simp [hs.fatal])) rfl rfl rfl, ?_⟩
  refine ⟨s.spawned, rfl, hunready, hs.fatal, fun q => ?_, ?_, ?_, hstderr, hflag⟩
  · exact hfresh q (fun x => x.reading = false) (hs.clean.reading q) rfl
  · simp
  · simp

/-- A wait of the task, keeping what the world does not change. -/
theorem holds_await_of_moves {K : Machine → Prop} (hK : ∀ {s s'}, K s → Moves u s s' → K s')
    {q : Query} {post : Except Exc q.Answer → Machine → Prop} (hs : K s)
    (hpost : ∀ s' r, K s' → Answers q r s' → post r s') :
    (await q).Holds (taskRules u) post s :=
  Co.holds_awaits_of_stable (R := taskRules u) hK hs hpost

/-- The tracker is one more task to cancel, and nothing else. -/
theorem captureOwnedRoot_holds {K : Machine → Prop} (hK : ∀ {s}, K s → Unready u s)
    (htracker : ∀ {s : Machine}, K s →
    K { s with tunnel := { s.tunnel with childTracker := true } })
    (hs : K s) : (captureOwnedRoot u).Holds (taskRules u) (fun _ => K) s := by
  refine Co.holds_bind.mpr (Co.holds_gets.mpr (Co.holds_when.mpr ⟨fun _ => ?_, fun _ => hs⟩))
  refine Co.holds_whenSome.mpr ⟨fun p hp => ?_, fun _ => hs⟩
  refine Co.holds_bind.mpr (holds_returncode.mpr ⟨fun p _ => ?_, fun _ => hs⟩)
  have howned (owned : Bool) : (Co.when (owned = true) <|
      assign fun t => { t with childTracker := true }).Holds (taskRules u) (fun _ => K) s := by
    refine Co.holds_when.mpr ⟨fun _ => Co.holds_modify.mpr ⟨?_, htracker hs⟩, fun _ => hs⟩
    exact keeps_assign (f := fun t => { t with childTracker := true }) (hK hs).inv rfl rfl
      rfl rfl rfl
      rfl rfl
  refine Co.holds_when.mpr ⟨fun _ => Co.holds_bind.mpr (Co.holds_asks.mpr fun r _ => ?_),
    fun _ => hs⟩
  cases r with
  | error e => exact hs
  | ok owned => exact howned owned

/-- The process comes into the slot. -/
theorem own_holds (hs : Created u argv stderr flag p s) :
    (assign fun t => { t with process := some p }).Holds (taskRules u)
      (fun _ s' => Created u argv stderr flag p s' ∧ s'.tunnel.process = some p) s := by
  have hunready : Unready u { s with tunnel := { s.tunnel with process := some p } } :=
    .of_unread hs.ready hs.reading hs.inv.taken
  refine Co.holds_modify.mpr ⟨?_, ⟨hunready, hs.fatal, hs.reading, hs.argv, hs.attempt, hs.stderr,
    hs.flag⟩, rfl⟩
  exact keeps_of_unready hunready rfl (fun h => ⟨h, rfl⟩) rfl rfl rfl

/-- The tracker does not matter to a process that was created. -/
theorem capture_created (hs : Created u argv stderr flag p s)
    (hprocess : s.tunnel.process = some p) :
    (captureOwnedRoot u).Holds (taskRules u)
      (fun _ s' => Created u argv stderr flag p s' ∧ s'.tunnel.process = some p) s := by
  refine captureOwnedRoot_holds
    (K := fun s => Created u argv stderr flag p s ∧ s.tunnel.process = some p)
    (fun h => h.1.toUnready) (fun {t} h => ?_) ⟨hs, hprocess⟩
  have hunready : Unready u { t with tunnel := { t.tunnel with childTracker := true } } :=
    .of_unread h.1.ready h.1.reading h.1.inv.taken
  exact ⟨⟨hunready, h.1.fatal, h.1.reading, h.1.argv, h.1.attempt, h.1.stderr, h.1.flag⟩, h.2⟩

/-- What spawning leaves: the process in the slot, or a tunnel that is not ready. -/
theorem spawn_holds (hs : Resting u s) (argv : List String) (hstderr : s.tunnel.stderr = stderr)
    (hflag : s.tunnel.forwardConfirmed = flag) :
    (spawn u argv).Holds (taskRules u)
      (fun r s' => (Unready u s' ∧ s'.fatal = false) ∧ (r = .ok () → ∃ p,
        Created u argv stderr flag p s' ∧ s'.tunnel.process = some p)) s := by
  refine Co.Holds.bind (create_holds hs argv hstderr hflag) (fun p s₁ hp => ?_)
    fun e s₁ ⟨p, hp, _⟩ => (nomatch hp)
  obtain ⟨q, hq, hcreated⟩ := hp
  obtain rfl := Except.ok.inj hq
  have hloses {t : Machine} (ht : Created u argv stderr flag p t) :
      Unready u t ∧ t.fatal = false := ⟨ht.toUnready, ht.fatal⟩
  have hlost {e : Exc} {t : Machine} (ht : Unready u t ∧ t.fatal = false) :
      (Unready u t ∧ t.fatal = false) ∧ (Except.error e = .ok () → ∃ p,
        Created u argv stderr flag p t ∧ t.tunnel.process = some p) :=
    ⟨ht, fun h => (nomatch h)⟩
  refine Co.Holds.bind (M := fun r (t : Machine) =>
      Created u argv stderr flag p t ∧ (r = .ok () → t.tunnel.process = some p)) ?_
        (fun _ t ht => ?_)
    fun e t ht => hlost (hloses ht.1)
  · refine Co.Holds.catching (M := fun r (t : Machine) =>
        Created u argv stderr flag p t ∧
          (r = .ok () → t.tunnel.process = some p)) ?_ (fun _ t ht => ht) fun e t ht => ?_
    · exact Co.Holds.bind (M := fun _ => Created u argv stderr flag p)
        (holds_await_of_moves Created.moves hcreated fun t r ht _ => ht)
        (fun _ t ht => (own_holds ht).mono fun r t ht => ⟨ht.1, fun _ => ht.2⟩)
        fun e t ht => ⟨ht, fun h => (nomatch h)⟩
    · cases e with
      | cancelled =>
        -- it is owned all the same, and the exception goes on
        refine Co.holds_bind.mpr
          (holds_await_of_moves (K := Created u argv stderr flag p) Created.moves ht.1
          fun t' r ht' _ => ?_)
        cases r with
        | error e => exact ⟨ht', fun h => (nomatch h)⟩
        | ok _ =>
          refine Co.Holds.bind (own_holds ht') (fun _ t₁ ht₁ => ?_)
            fun e t₁ ht₁ => ⟨ht₁.1, fun h => (nomatch h)⟩
          exact Co.Holds.bind (capture_created ht₁.1 ht₁.2)
            (fun _ t₂ ht₂ => ⟨ht₂.1, fun h => (nomatch h)⟩)
            fun e t₂ ht₂ => ⟨ht₂.1, fun h => (nomatch h)⟩
      | _ => exact ⟨ht.1, fun h => (nomatch h)⟩
  · exact (capture_created ht.1 (ht.2 rfl)).mono fun r t ht => ⟨hloses ht.1, fun _ => ⟨p, ht⟩⟩

/-- A process gets its reader, with an empty buffer. -/
theorem startReader_holds (hs : Created u argv [] flag p s) (hprocess : s.tunnel.process = some p) :
    (startReader p).Holds (taskRules u)
      (fun _ s' => (Unready u s' ∧ s'.fatal = false) ∧ s'.tunnel.process = some p ∧
        (s'.processes p).argv = argv ∧ (s'.processes p).attempt = s'.tunnel.attempts ∧
        s'.tunnel.forwardConfirmed = flag) s := by
  have hread (q : ℕ) (P : Process → Prop) (hq : q ≠ p → P (s.processes q))
      (hp : P { s.processes p with reading := true }) :
      P (Function.update s.processes p { s.processes p with reading := true } q) := by
    by_cases heq : q = p
    · rwa [heq, Function.update_self]
    · rw [Function.update_of_ne heq]
      exact hq heq
  have hunready : Unready u
      { s with
        tunnel := { s.tunnel with reader := some p }
        processes := Function.update s.processes p { s.processes p with reading := true } } := by
    refine ⟨⟨fun h => absurd hs.ready (by simpa using h), fun q hq => ?_, fun q => ?_, fun _ =>
      Machine.available_of_not_ready hs.ready⟩, hs.ready⟩
    · by_cases heq : q = p
      · subst heq
        exact ⟨hprocess, rfl, by simp [hs.stderr]⟩
      · have : (s.processes q).reading = true := by simpa [Function.update_of_ne heq] using hq
        exact absurd this (by simp [hs.reading q])
    · exact hread q (fun x => x.taken ≤ x.printed.length) (fun _ => hs.inv.taken q) (hs.inv.taken p)
  refine Co.holds_modify.mpr ⟨keeps_of_unready hunready rfl (fun h => ⟨h, rfl⟩) rfl rfl rfl,
    ⟨hunready, hs.fatal⟩, hprocess, ?_, ?_, hs.flag⟩
  · exact hread p (fun x => x.argv = argv) (fun h => absurd rfl h) hs.argv
  · exact hread p (fun x => x.attempt = s.tunnel.attempts) (fun h => absurd rfl h) hs.attempt

/-! ### Failures -/

theorem keeps_meet (hs : s.Inv u) {f : TunnelFailure}
    (h : f.retryable = false → s.available = false) :
    Keeps u s { s with fatal := s.fatal || !f.retryable } := by
  refine .of_available ⟨hs.ready, hs.reading, hs.taken, fun hfatal => ?_⟩ id rfl
    (fun hfatal => ?_) rfl
    rfl rfl
  · rcases (Bool.or_eq_true _ _).mp hfatal with hfatal | hretry
    · exact hs.fatal hfatal
    · exact h (by simpa using hretry)
  · exact ⟨by simp [hfatal], rfl⟩

/-- A failure of a tunnel that is not available. -/
theorem holds_fail {α : Type} {f : TunnelFailure} {post : Except Exc α → Machine → Prop}
    (hs : s.Inv u) (h : f.retryable = false → s.available = false)
    (hpost : post (.error (.failure f)) { s with fatal := s.fatal || !f.retryable }) :
    (fail f : Method α).Holds (taskRules u) post s :=
  Co.holds_bind.mpr (Co.holds_modify.mpr ⟨keeps_meet hs h, hpost⟩)

theorem Unready.holds_fail {α : Type} {f : TunnelFailure} {post : Except Exc α → Machine → Prop}
    (hs : Unready u s) (hpost : ∀ s', Unready u s' → post (.error (.failure f)) s') :
    (fail f : Method α).Holds (taskRules u) post s := by
  have hkeeps := keeps_meet (f := f) hs.inv fun _ => hs.available
  exact SSHTunnel.holds_fail hs.inv (fun _ => hs.available) (hpost _ ⟨hkeeps.inv, hs.ready⟩)

/-- What is done in the end: the tunnel is not ready any more, and clean unless an exception goes
on. -/
theorem ending_cleanup_holds {α : Type} {c : Method α} {Q : Except Exc α → Bool → Prop}
    (hc : c.Holds (taskRules u) (fun r s' => s'.Inv u ∧ Q r s'.fatal) s) :
    (c.ending (cleanup u)).Holds (taskRules u)
      (fun r s' => Unready u s' ∧ ∀ a, r = .ok a → s'.Clean ∧ Q (.ok a) s'.fatal) s := by
  refine Co.holds_ending.mpr (hc.mono fun r t ht => ?_)
  refine (cleanup_holds (permits_task u t.fatal) rfl ht.1).mono fun r' t' ht' => ?_
  cases r' with
  | error e => exact ⟨⟨ht'.1.inv, ht'.1.ready⟩, fun a h => (nomatch h)⟩
  | ok _ =>
    refine ⟨⟨ht'.1.inv, ht'.1.ready⟩, fun a h => ⟨ht'.2 rfl, ?_⟩⟩
    rw [ht'.1.frame, ← h]
    exact ht.2

/-! ### The inspection -/

/-- A tunnel that is not ready and met no failure stays so while it waits. -/
theorem Unready.holds_await {q : Query} {post : Except Exc q.Answer → Machine → Prop}
    (hs : Unready u s ∧ s.fatal = false)
    (hpost : ∀ s' r, Unready u s' ∧ s'.fatal = false → Answers q r s' → post r s') :
    (await q).Holds (taskRules u) post s :=
  holds_await_of_moves (K := fun s => Unready u s ∧ s.fatal = false)
    (fun h hmoves => ⟨h.1.moves hmoves, hmoves.moved.counts.2.1.trans h.2⟩) hs hpost

theorem lines_hold (hs : Unready u s ∧ s.fatal = false) (p total : ℕ) :
    (body u (.lines p total)).Holds (taskRules u)
      (fun r s' => Unready u s' ∧ (r = .ok () → s'.fatal = false)) s := by
  have hnext (line : Option (List UInt8)) {t : Machine} (ht : Unready u t ∧ t.fatal = false) :
      (Co.whenSome line fun line => do
        Co.when (256 * 1024 < total + line.length) (fail ⟨.sshConfigurationFailed, false⟩)
        Co.when (keyword line ∈ forwards) (fail ⟨.sshConfiguredForwardingNotAllowed, false⟩)
        loop (.lines p (total + line.length))).Holds (taskRules u)
          (fun r s' => Unready u s' ∧ (r = .ok () → s'.fatal = false)) t := by
    refine Co.holds_whenSome.mpr ⟨fun line _ => ?_, fun _ => ⟨ht.1, fun _ => ht.2⟩⟩
    have hfails {f : TunnelFailure} {p : Prop} [Decidable p] {t : Machine}
        (ht : Unready u t ∧ t.fatal = false) :
        (Co.when p (fail f)).Holds (taskRules u)
          (fun r s' => Unready u s' ∧ (r = .ok () → s'.fatal = false)) t :=
      Co.holds_when.mpr ⟨fun _ => ht.1.holds_fail fun t' ht' => ⟨ht', fun h => (nomatch h)⟩,
        fun _ => ⟨ht.1, fun _ => ht.2⟩⟩
    refine Co.Holds.bind (hfails ht) (fun _ t₁ ht₁ => ?_) fun e t₁ ht₁ =>
      ⟨ht₁.1, fun h => (nomatch h)⟩
    refine Co.Holds.bind (hfails ⟨ht₁.1, ht₁.2 rfl⟩) (fun _ t₂ ht₂ => ?_)
      fun e t₂ ht₂ => ⟨ht₂.1, fun h => (nomatch h)⟩
    exact Co.holds_loop.mpr ⟨⟨ht₂.1, ht₂.2 rfl⟩, fun r t₃ ht₃ => ht₃⟩
  refine Co.holds_bind.mpr (Unready.holds_await hs fun t r ht _ => ?_)
  cases r with
  | error e => exact ⟨ht.1, fun h => (nomatch h)⟩
  | ok line => exact hnext line ht

/-- The part of the inspection that a cleanup follows. -/
theorem inspecting_holds (hs : Unready u s ∧ s.fatal = false) (p : ℕ) :
    (Co.catching
      (do
        loop (.lines p 0)
        let p ← ownProcess
        await (.exitInTime p)
        let r ← ownReader
        await (.reader r)
        let code ← returncode
        let t ← self
        Co.when (code.any (· ≠ 0) = true) (fail (classifyFailure t.stderr code)) : Method Unit)
      fun
      | .timeout | .value => fail ⟨.sshConfigurationFailed, false⟩
      | e => raise e).Holds (taskRules u)
      (fun r s' => s'.Inv u ∧ Unready u s' ∧ (r = .ok () → s'.fatal = false)) s := by
  have hlost {e : Exc} {t : Machine} (ht : Unready u t) :
      Unready u t ∧ ((.error e : Except Exc Unit) = .ok () → t.fatal = false) :=
    ⟨ht, fun h => (nomatch h)⟩
  refine Co.Holds.catching (M := fun r (t : Machine) =>
    Unready u t ∧ (r = .ok () → t.fatal = false))
    ?_ (fun _ t ht => ⟨ht.1.inv, ht⟩) fun e t ht => ?_
  · refine Co.Holds.bind (M := fun r (t : Machine) => Unready u t ∧ (r = .ok () → t.fatal = false))
      (Co.holds_loop.mpr ⟨hs, fun r t ht => ht⟩) (fun _ t ht => ?_) fun e t ht => hlost ht.1
    replace ht : Unready u t ∧ t.fatal = false := ⟨ht.1, ht.2 rfl⟩
    refine Co.holds_bind.mpr (holds_ownProcess.mpr ⟨fun p _ => ?_, fun _ => hlost ht.1⟩)
    refine Co.holds_bind.mpr (Unready.holds_await ht fun t₁ r ht₁ _ => ?_)
    cases r with
    | error e => exact hlost ht₁.1
    | ok _ =>
      refine Co.Holds.bind (M := fun _ (t : Machine) => Unready u t ∧ t.fatal = false)
        (holds_ownReader fun _ => ht₁) (fun r t₂ ht₂ => ?_) fun e t₂ ht₂ => hlost ht₂.1
      refine Co.holds_bind.mpr (Unready.holds_await ht₂ fun t₃ r ht₃ _ => ?_)
      cases r with
      | error e => exact hlost ht₃.1
      | ok _ =>
        refine Co.holds_bind.mpr (holds_returncode.mpr ⟨fun p _ => ?_, fun _ => hlost ht₃.1⟩)
        refine Co.holds_bind.mpr (Co.holds_gets.mpr (Co.holds_when.mpr ⟨fun _ => ?_, fun _ => ?_⟩))
        · exact ht₃.1.holds_fail fun t₄ ht₄ => hlost ht₄
        · exact ⟨ht₃.1, fun _ => ht₃.2⟩
  · have hfails : (fail ⟨.sshConfigurationFailed, false⟩ : Method Unit).Holds (taskRules u)
        (fun r s' => s'.Inv u ∧ Unready u s' ∧ (r = .ok () → s'.fatal = false)) t :=
      ht.1.holds_fail fun t' ht' => ⟨ht'.inv, hlost ht'⟩
    cases e with
    | timeout | value => exact hfails
    | _ => exact ⟨ht.1.inv, hlost ht.1⟩

/-- `_inspect_configuration` starts from a tunnel at rest, and leaves it at rest unless it
raises. -/
theorem inspectConfiguration_holds (hs : Resting u s) :
    (inspectConfiguration u).Holds (taskRules u)
      (fun r s' => Unready u s' ∧ (r = .ok () → Resting u s')) s := by
  have hlost {e : Exc} {t : Machine} (ht : Unready u t) :
      Unready u t ∧ ((.error e : Except Exc Unit) = .ok () → Resting u t) :=
    ⟨ht, fun h => (nomatch h)⟩
  refine Co.Holds.bind (M := fun r (t : Machine) => Unready u t ∧ (r = .ok () → Resting u t))
    (Co.holds_when.mpr ⟨fun _ => ?_, fun _ => ⟨hs.toUnready, fun _ => hs⟩⟩) (fun _ s₁ hs₁ => ?_)
    fun e t ht => hlost ht.1
  · have hfound (found : Bool) : (Co.when (found = false)
        (fail ⟨.sshIdentityFileUnavailable, false⟩ : Method Unit)).Holds (taskRules u)
          (fun r t => Unready u t ∧ (r = .ok () → Resting u t)) s :=
      Co.holds_when.mpr ⟨fun _ => hs.toUnready.holds_fail fun t ht => hlost ht,
        fun _ => ⟨hs.toUnready, fun _ => hs⟩⟩
    refine Co.holds_bind.mpr (Co.holds_asks.mpr fun r _ => ?_)
    cases r with
    | error e => exact hlost hs.toUnready
    | ok found => exact hfound found
  refine Co.Holds.bind (spawn_holds (hs₁.2 rfl) (u.config.argv true) rfl rfl) (fun _ s₂ hs₂ => ?_)
    fun e t ht => hlost ht.1.1
  obtain ⟨p, hcreated, hprocess⟩ := hs₂.2 rfl
  refine Co.holds_bind.mpr (holds_ownProcess.mpr ⟨fun q hq => ?_, fun hnone => ?_⟩)
  · obtain rfl := Option.some.inj (hq.symm.trans hprocess)
    have hempty : Created u (u.config.argv true) [] s₁.tunnel.forwardConfirmed q
        { s₂ with tunnel := { s₂.tunnel with stderr := [] } } :=
      ⟨.of_unread hcreated.ready hcreated.reading hcreated.inv.taken, hcreated.fatal,
        hcreated.reading, hcreated.argv, hcreated.attempt, rfl, hcreated.flag⟩
    refine Co.holds_bind.mpr (Co.holds_modify.mpr
      ⟨keeps_of_unready hempty.toUnready rfl (fun h => ⟨h, rfl⟩) rfl rfl rfl, ?_⟩)
    refine Co.Holds.bind (startReader_holds hempty hprocess) (fun _ s₃ hs₃ => ?_)
      fun e t ht => hlost ht.1.1
    have hending := ending_cleanup_holds (Q := fun r b => r = .ok () → b = false)
      ((inspecting_holds hs₃.1 q).mono fun r t ht => ⟨ht.1, ht.2.2⟩)
    refine hending.mono fun r t ht => ⟨ht.1, fun h => ?_⟩
    obtain ⟨hclean, hfatal⟩ := ht.2 () h
    exact ⟨ht.1, hclean, hfatal rfl⟩
  · exact absurd hprocess (by simp [hnone])

/-! ### The connection -/

theorem Probing.failed (hs : Probing u p s) (e : Exc) : Failed u e s :=
  ⟨hs.inv, fun _ => hs.toUnready.available, fun _ => hs.fatal⟩

theorem Resting.failed (hs : Resting u s) (e : Exc) : Failed u e s :=
  ⟨hs.inv, fun _ => hs.toUnready.available, fun _ => hs.fatal⟩

/-- The failure that was met, of a tunnel that met no other. -/
theorem failed_fail {α : Type} {f : TunnelFailure} {post : Except Exc α → Machine → Prop}
    (hs : s.Inv u) (hfatal : s.fatal = false) (h : f.retryable = false → s.available = false)
    (hpost : ∀ s', Failed u (.failure f) s' → post (.error (.failure f)) s') :
    (fail f : Method α).Holds (taskRules u) post s := by
  refine holds_fail hs h (hpost _ ⟨(keeps_meet hs h).inv, fun h => (nomatch h), fun hretry => ?_⟩)
  simp [hfatal, hretry f rfl]

/-- A tunnel whose process has exited is not available. -/
theorem Machine.available_of_exited (hprocess : s.tunnel.process = some p)
    (hcode : (s.processes p).returncode ≠ none) : s.available = false := by
  refine Bool.eq_false_iff.mpr fun h => ?_
  obtain ⟨-, q, hq, hnone⟩ := Machine.available_eq_true.mp h
  exact hcode (Option.some.inj (hprocess.symm.trans hq) ▸ hnone)

/-- The one moment at which the tunnel becomes ready. -/
theorem keeps_becomeReady (hs : Probing u p s) (hlive : (s.processes p).returncode = none)
    (hflag : s.tunnel.forwardConfirmed = true) (now : ℚ) :
    Keeps u s { s with tunnel := becomeReady now s.tunnel } := by
  have havailable : Machine.available { s with tunnel := becomeReady now s.tunnel } = true :=
    Machine.available_eq_true.mpr ⟨rfl, p, hs.process, hlive⟩
  refine ⟨⟨fun _ => ⟨p, hs.process, hs.forwards, hs.flag hflag⟩, hs.inv.reading, hs.inv.taken,
    fun h => ?_⟩, ?_, fun h => ⟨h, rfl⟩, rfl, rfl, rfl⟩
  · exact absurd hs.fatal (by simpa using h)
  · rw [if_pos ⟨hs.toUnready.available, havailable⟩]
    rfl

/-- A question answered at once. -/
theorem holds_ask {R : Co.Rules lang} {α : Type} {q : Query} {f : q.Answer → Method α}
    {post : Except Exc α → Machine → Prop}
    (herror : ∀ e, R.answers q (.error e) s → post (.error e) s) (hok : ∀ a, (f a).Holds R post s) :
    (ask q >>= f).Holds R post s := by
  refine Co.holds_bind.mpr (Co.holds_asks.mpr fun r hr => ?_)
  cases r with
  | error e => exact herror e hr
  | ok a => exact hok a

/-- A wait of the forwarding process. -/
theorem Probing.holds_await {α : Type} {q : Query} {f : q.Answer → Method α}
    {post : Except Exc α → Machine → Prop} (hs : Probing u p s)
    (herror : ∀ e s', Probing u p s' → post (.error e) s')
    (hok : ∀ a s', Probing u p s' → (f a).Holds (taskRules u) post s') :
    (await q >>= f).Holds (taskRules u) post s := by
  refine Co.holds_bind.mpr
    (holds_await_of_moves (K := Probing u p) Probing.moves hs fun s' r hs' _ => ?_)
  cases r with
  | error e => exact herror e s' hs'
  | ok a => exact hok a s' hs'

/-- The process is ready until it exits. -/
theorem ready_holds (hs : Probing u p s) (hlive : (s.processes p).returncode = none)
    (hflag : s.tunnel.forwardConfirmed = true) (now : ℚ) :
    (do
      assign (becomeReady now)
      let p ← ownProcess
      await (.exit p) : Method Unit).Holds (taskRules u) (Probed u) s := by
  have hkeeps := keeps_becomeReady hs hlive hflag now
  refine Co.holds_bind.mpr (Co.holds_modify.mpr ⟨hkeeps, ?_⟩)
  refine Co.holds_bind.mpr (holds_ownProcess.mpr ⟨fun p _ => ?_, fun hnone => ?_⟩)
  · refine holds_await_of_moves (K := fun s => s.Inv u ∧ s.fatal = false)
      (fun h hmoves => ⟨hmoves.inv h.1, hmoves.moved.counts.2.1.trans h.2⟩) ⟨hkeeps.inv, hs.fatal⟩
      fun t r ht hr => ?_
    cases r with
    | ok _ => exact ht
    | error e =>
      -- only a cancellation ends this wait early
      have he : e = .cancelled := by simpa [Query.raises] using hr.1
      exact ⟨ht.1, fun h => absurd h (by simp [he, Exc.isOSError]), fun _ => ht.2⟩
  · exact absurd (hs.process.symm.trans hnone) (by simp)

theorem probe_holds (hs : Probing u p s) (deadline : ℚ) :
    (probe deadline).Holds (taskRules u) (Probed u) s := by
  have hagain {t : Machine} (ht : Probing u p t) :
      (do
        await (.sleep (1 / 20))
        loop (.probes deadline) : Method Unit).Holds (taskRules u) (Probed u) t :=
    ht.holds_await (fun e t h => h.failed e) fun _ t ht =>
      Co.holds_loop.mpr ⟨⟨p, ht⟩, fun r t' ht' => ht'⟩
  refine Co.Holds.bind (M := fun _ => Probing u p) ?_ (fun answered t ht => ?_)
    fun e t ht => ht.failed e
  · refine Co.Holds.catching (M := fun _ => Probing u p)
      (hs.holds_await (fun e t h => h) fun _ t ht => ht) (fun _ t ht => ht) fun e t ht => ?_
    split_ifs
    · exact ht
    · exact ht
  · cases answered with
    | false => exact hagain ht
    | true =>
      refine ht.holds_await (fun e t h => h.failed e) fun _ t ht => ?_
      refine ht.holds_await (fun e t h => h.failed e) fun _ t ht => ?_
      refine Co.holds_bind.mpr (holds_returncode.mpr ⟨fun q hq => ?_, fun _ => ht.failed _⟩)
      obtain rfl := Option.some.inj (hq.symm.trans ht.process)
      refine Co.holds_bind.mpr (Co.holds_gets.mpr ?_)
      by_cases hready : (t.processes q).returncode = none ∧ t.tunnel.forwardConfirmed = true
      · simp only [if_pos hready]
        exact holds_ask (fun e _ => ht.failed e) fun now => ready_holds ht hready.1 hready.2 now
      · simp only [if_neg hready]
        exact hagain ht

theorem probes_hold (hs : Probing u p s) (deadline : ℚ) :
    (body u (.probes deadline)).Holds (taskRules u) (Probed u) s := by
  refine Co.holds_bind.mpr (holds_returncode.mpr ⟨fun p _ => ?_, fun _ => hs.failed _⟩)
  refine Co.holds_when.mpr ⟨fun _ => ?_, fun _ => ⟨hs.inv, hs.fatal⟩⟩
  refine holds_ask (fun e _ => hs.failed e) fun (now : ℚ) => ?_
  exact Co.holds_when.mpr ⟨fun _ => probe_holds hs deadline, fun _ => ⟨hs.inv, hs.fatal⟩⟩

/-- A write at rest to a field the invariant is not about. -/
theorem Resting.holds_assign {α : Type} {f : SSHTunnel → SSHTunnel} {rest : Unit → Method α}
    {post : Except Exc α → Machine → Prop} (hs : Resting u s)
    (hprocess : (f s.tunnel).process = s.tunnel.process)
    (hready : (f s.tunnel).ready = s.tunnel.ready)
    (hreader : (f s.tunnel).reader = s.tunnel.reader)
    (hgeneration : (f s.tunnel).generation = s.tunnel.generation)
    (htask : (f s.tunnel).task = s.tunnel.task)
    (hrest : Resting u { s with tunnel := f s.tunnel } →
      (rest ()).Holds (taskRules u) post { s with tunnel := f s.tunnel }) :
    (assign f >>= rest).Holds (taskRules u) post s := by
  have hresting : Resting u { s with tunnel := f s.tunnel } :=
    ⟨.of_unread (hready.trans hs.ready) hs.clean.reading hs.inv.taken,
      ⟨hprocess.trans hs.clean.process, hreader.trans hs.clean.reader, hs.clean.reading⟩, hs.fatal⟩
  refine Co.holds_bind.mpr (Co.holds_modify.mpr ⟨?_, hrest hresting⟩)
  exact keeps_of_unready hresting.toUnready hgeneration (fun h => ⟨h, rfl⟩) htask rfl rfl

/-- The end of `_connect`, when the process has exited or there is no time left. -/
theorem connect_ends (hs : s.Inv u ∧ s.fatal = false) :
    (do
      let code ← returncode
      Co.when (code = none) (fail ⟨.sshStartupTimeout, true⟩)
      let r ← ownReader
      await (.reader r)
      let code ← returncode
      let t ← self
      fail (classifyFailure t.stderr code) : Method Empty).Holds (taskRules u) (Fails u) s := by
  have hempty {t : Machine} (h : t.tunnel.process = none) : t.available = false :=
    Bool.eq_false_iff.mpr fun ha => by
      obtain ⟨-, q, hq, -⟩ := Machine.available_eq_true.mp ha
      exact absurd (h.symm.trans hq) (by simp)
  refine Co.holds_bind.mpr (holds_returncode.mpr ⟨fun p hp => ?_, fun hnone =>
    ⟨hs.1, fun _ => hempty hnone, fun _ => hs.2⟩⟩)
  refine Co.holds_bind.mpr (Co.holds_when.mpr ⟨fun _ => ?_, fun hcode => ?_⟩)
  · exact failed_fail hs.1 hs.2 (fun h => (nomatch h)) fun t ht => ht
  · -- the process has exited, and nothing makes it available again
    let Exited (t : Machine) : Prop := (t.Inv u ∧ t.fatal = false) ∧ t.tunnel.process = some p ∧
      (t.processes p).returncode ≠ none
    have hmoves {t t' : Machine} (ht : Exited t) (h : Moves u t t') : Exited t' :=
      ⟨⟨h.inv ht.1.1, h.moved.counts.2.1.trans ht.1.2⟩, h.moved.process.trans ht.2.1,
        fun hnone => ht.2.2 (h.moved.returncode p hnone)⟩
    have hfailed (e : Exc) {t : Machine} (ht : Exited t) : Failed u e t :=
      ⟨ht.1.1, fun _ => Machine.available_of_exited ht.2.1 ht.2.2, fun _ => ht.1.2⟩
    refine Co.Holds.bind (M := fun _ => Exited) (holds_ownReader fun _ => ⟨hs, hp, hcode⟩)
      (fun r t ht => ?_) fun e t ht => hfailed e ht
    refine Co.holds_bind.mpr (holds_await_of_moves hmoves ht fun t r ht _ => ?_)
    cases r with
    | error e => exact hfailed e ht
    | ok _ =>
      refine Co.holds_bind.mpr (holds_returncode.mpr ⟨fun q _ => ?_, fun _ => hfailed _ ht⟩)
      refine Co.holds_bind.mpr (Co.holds_gets.mpr ?_)
      exact failed_fail ht.1.1 ht.1.2 (fun _ => Machine.available_of_exited ht.2.1 ht.2.2)
        fun t ht => ht

/-- `_connect` never returns. -/
theorem connect_holds (hs : Resting u s) :
    (connect u).Holds (taskRules u) (Fails u) s := by
  refine hs.holds_assign rfl rfl rfl rfl rfl fun hs => ?_
  refine holds_ask (fun e _ => hs.failed e) fun _ => ?_
  generalize ({ s with tunnel := { s.tunnel with readySince := none } } : Machine) = s at hs
  refine Co.Holds.bind (M := fun (r : Except Exc Unit) (t : Machine) =>
      (∀ e, r = .error e → Failed u e t) ∧ (r = .ok () → Resting u t)) ?_ (fun _ t ht => ?_)
    fun e t ht => ht.1 e rfl
  · refine Co.holds_catching.mpr (Co.holds_asks.mpr fun r _ => ?_)
    cases r with
    | ok _ => exact ⟨fun e h => (nomatch h), fun _ => hs⟩
    | error e =>
      simp only
      split_ifs
      · refine failed_fail hs.inv hs.fatal (fun _ => hs.toUnready.available) fun t ht =>
          ⟨fun e he => Except.error.inj he ▸ ht, fun h => (nomatch h)⟩
      · exact ⟨fun e' he => hs.failed e', fun h => (nomatch h)⟩
  · refine (ht.2 rfl).holds_assign rfl rfl rfl rfl rfl fun hs => ?_
    have hspawn := spawn_holds hs (u.config.argv false) (show _ = ([] : List UInt8) from rfl)
      (show _ = false from rfl)
    refine Co.Holds.bind hspawn (fun _ s₂ hs₂ => ?_)
      fun e t ht => ⟨ht.1.1.inv, fun _ => ht.1.1.available, fun _ => ht.1.2⟩
    obtain ⟨p, hcreated, hprocess⟩ := hs₂.2 rfl
    refine Co.holds_bind.mpr (holds_ownProcess.mpr ⟨fun q hq => ?_, fun hnone => ?_⟩)
    · obtain rfl := Option.some.inj (hq.symm.trans hprocess)
      refine Co.Holds.bind (startReader_holds hcreated hprocess) (fun _ s₃ hs₃ => ?_)
        fun e t ht => ⟨ht.1.1.inv, fun _ => ht.1.1.available, fun _ => ht.1.2⟩
      obtain ⟨⟨hunready, hfatal⟩, hprocess', hargv, hattempt, hflag⟩ := hs₃
      have hprobing : Probing u q s₃ :=
        ⟨hunready, hfatal, hprocess', ⟨hargv, hattempt⟩,
          fun h => absurd (hflag.symm.trans h) (by simp)⟩
      refine holds_ask (fun e _ => hprobing.failed e) fun now => ?_
      refine Co.Holds.bind (M := Probed u) (Co.holds_loop.mpr ⟨⟨q, hprobing⟩, fun r t ht => ht⟩)
        (fun _ t ht => connect_ends ht) fun e t ht => ht
    · exact absurd hprocess (by simp [hnone])

/-! ### The task -/

/-- A failure that ends the run. -/
theorem gives_up {f : TunnelFailure} {code : FailureCode} (hs : s.Inv u) (hs' : s.available = false)
    {post : Except Exc Bool → Machine → Prop}
    (hpost : ∀ s', s'.Inv u → post (.ok false) s') :
    (do
      meet f
      assign fun t => { t with state := .failed, error := some code }
      pure false : Method Bool).Holds (taskRules u) post s := by
  have hmeet := keeps_meet (f := f) hs fun _ => hs'
  refine Co.holds_bind.mpr (Co.holds_modify.mpr ⟨hmeet, ?_⟩)
  have hassign := keeps_assign (f := fun t => { t with state := .failed, error := some code })
    hmeet.inv rfl rfl rfl rfl rfl rfl rfl
  exact Co.holds_bind.mpr (Co.holds_modify.mpr ⟨hassign, hpost _ hassign.inv⟩)

/-- The inspection within `_run`: who goes on is at rest. -/
theorem inspected_holds (hs : Resting u s) :
    (inspected u).Holds (taskRules u)
      (fun r s' => s'.Inv u ∧ (r = .ok true → Resting u s')) s := by
  refine Co.Holds.catching (M := fun (r : Except Exc Bool) (t : Machine) => Unready u t ∧
      (r = .ok true → Resting u t)) ?_ (fun _ t ht => ⟨ht.1.inv, ht.2⟩) fun e t ht => ?_
  · refine Co.Holds.bind (inspectConfiguration_holds hs) (fun _ t ht => ⟨ht.1, fun _ => ht.2 rfl⟩)
      fun e t ht => ⟨ht.1, fun h => (nomatch h)⟩
  · have hgives {f : TunnelFailure} {code : FailureCode} :=
      @gives_up u t f code ht.1.inv ht.1.available
        (fun r s' => s'.Inv u ∧ (r = .ok true → Resting u s')) fun s' hs' =>
          ⟨hs', fun h => (nomatch h)⟩
    cases e with
    | failure f => exact hgives
    | os | timeout => exact hgives
    | _ => exact ⟨ht.1.inv, fun h => (nomatch h)⟩

theorem inspectedAgain_holds (hs : Resting u s) :
    (inspectedAgain u).Holds (taskRules u)
      (fun r s' => s'.Inv u ∧ (r = .ok true → Resting u s')) s := by
  refine Co.holds_bind.mpr (Co.holds_gets.mpr ?_)
  dsimp only
  split_ifs
  · exact inspected_holds hs
  · exact ⟨hs.inv, fun _ => hs⟩

/-- The connection within `_run`: it leaves a clean tunnel, and one that met no failure if its own
is retried. -/
theorem connected_holds (hs : Resting u s) :
    (connected u).Holds (taskRules u)
      (fun r s' => Unready u s' ∧
        ∀ f, r = .ok f → s'.Clean ∧ (f.retryable = true → s'.fatal = false)) s := by
  refine (ending_cleanup_holds (Q := fun (r : Except Exc TunnelFailure) b =>
    ∀ f, r = .ok f → f.retryable = true → b = false) ?_).mono
      fun r t ht => ⟨ht.1, fun f hf => ⟨(ht.2 f hf).1, (ht.2 f hf).2 f rfl⟩⟩
  refine Co.Holds.catching (M := fun (r : Except Exc TunnelFailure) t => ∃ e, r = .error e ∧
    Failed u e t) ?_ (fun f t ht => ?_) fun e t ht => ?_
  · exact Co.Holds.bind (connect_holds hs) (fun never _ _ => nomatch never) fun e t ht =>
      ⟨e, rfl, ht⟩
  · obtain ⟨e, he, -⟩ := ht
    exact (nomatch he)
  · obtain ⟨e', he, ht⟩ := ht
    obtain rfl := Except.error.inj he
    have hmeets (hos : e.isOSError = true) :
        (do
          meet ⟨.sshExecutableUnavailable, false⟩
          pure ⟨.sshExecutableUnavailable, false⟩ : Method TunnelFailure).Holds (taskRules u)
            (fun r s' => s'.Inv u ∧ ∀ f, r = .ok f → f.retryable = true → s'.fatal = false) t := by
      have hmeet := keeps_meet (f := ⟨.sshExecutableUnavailable, false⟩) ht.inv
        fun _ => ht.available hos
      refine Co.holds_bind.mpr (Co.holds_modify.mpr ⟨hmeet, hmeet.inv, fun f hf hretry => ?_⟩)
      rw [← Except.ok.inj hf] at hretry
      exact (nomatch hretry)
    cases e with
    | os | timeout => exact hmeets rfl
    | failure f =>
      refine ⟨ht.inv, fun f' hf' hretry => ht.fatal fun f'' hf'' => ?_⟩
      rw [← Exc.failure.inj hf'', Except.ok.inj hf']
      exact hretry
    | _ => exact ⟨ht.inv, fun f hf => (nomatch hf)⟩

/-- A round of `_run` starts from a tunnel at rest. -/
theorem attempts_hold (hs : Resting u s) (failures : ℕ) :
    (body u (.attempts failures)).Holds (taskRules u) (fun _ s' => s'.Inv u) s := by
  refine Co.Holds.bind (inspectedAgain_holds hs) (fun goes t ht => ?_) fun e t ht => ht.1
  refine Co.holds_when.mpr ⟨fun hgoes => ?_, fun _ => ht.1⟩
  subst hgoes
  refine (ht.2 rfl).holds_assign rfl rfl rfl rfl rfl fun hs => ?_
  refine Co.Holds.bind (connected_holds hs) (fun failure t ht => ?_) fun e t ht => ht.1.inv
  obtain ⟨hunready, hok⟩ := ht
  obtain ⟨hclean, hfatal⟩ := hok failure rfl
  have herror :=
    keeps_assign (f := fun t => { t with error := some failure.code }) hunready.inv rfl rfl
    rfl rfl rfl rfl rfl
  refine Co.holds_bind.mpr (Co.holds_modify.mpr ⟨herror, ?_⟩)
  cases hretry : failure.retryable with
  | false =>
    dsimp only
    have hfailed :=
      keeps_assign (f := fun t => { t with state := .failed }) herror.inv rfl rfl rfl rfl
      rfl rfl rfl
    exact Co.holds_modify.mpr ⟨hfailed, hfailed.inv⟩
  | true =>
    dsimp only
    have hs : Resting u { t with tunnel := { t.tunnel with error := some failure.code } } :=
      ⟨⟨herror.inv, hunready.ready⟩, ⟨hclean.process, hclean.reader, hclean.reading⟩, hfatal hretry⟩
    refine holds_ask (fun e _ => hs.inv) fun now => ?_
    refine Co.holds_bind.mpr (Co.holds_gets.mpr ?_)
    refine holds_ask (fun e _ => hs.inv) fun uniform => holds_ask (fun e _ => hs.inv) fun now' => ?_
    refine hs.holds_assign rfl rfl rfl rfl rfl fun hs => ?_
    refine Co.holds_bind.mpr (holds_await_of_moves Resting.moves hs fun t r ht _ => ?_)
    cases r with
    | error e => exact ht.inv
    | ok _ => exact Co.holds_loop.mpr ⟨ht, fun r t' ht' => ht'⟩

/-- The loop over the helpers only waits. -/
theorem children_hold {R : Co.Rules lang} (deadline : ℚ)
    (hpre : ∀ {s}, R.pre (.children deadline) s)
    (hpost : ∀ {s r s'}, R.post (.children deadline) s r s' ↔ Relation.ReflTransGen R.rely s s') :
    (body u (.children deadline)).Holds R (R.post (.children deadline) s) s := by
  refine holds_ask (fun e _ => hpost.mpr .refl) fun (alive : Bool) => ?_
  refine Co.holds_when.mpr ⟨fun _ => ?_, fun _ => hpost.mpr .refl⟩
  refine holds_ask (fun e _ => hpost.mpr .refl) fun (now : ℚ) => ?_
  refine Co.holds_when.mpr ⟨fun _ => ?_, fun _ => hpost.mpr .refl⟩
  refine Co.holds_bind.mpr (Co.holds_awaits.mpr fun t ht r _ => ?_)
  cases r with
  | error e => exact hpost.mpr ht
  | ok _ => exact Co.holds_loop.mpr ⟨hpre, fun r t' ht' => hpost.mpr (ht.trans (hpost.mp ht'))⟩

/-- Each loop needs and leaves what the rules say. -/
theorem loops_hold (u : Setup) (i : Loop) (s : Machine) (h : (taskRules u).pre i s) :
    (body u i).Holds (taskRules u) ((taskRules u).post i s) s := by
  cases i with
  | children deadline => exact children_hold deadline trivial Iff.rfl
  | lines p total => exact lines_hold h p total
  | probes deadline => exact h.elim fun p hp => probes_hold hp deadline
  | attempts failures => exact attempts_hold h failures

/-- `_run` starts from a tunnel at rest. -/
theorem run_holds (hs : Resting u s) :
    (run u).Holds (taskRules u) (fun _ s' => Unready u s') s := by
  refine (ending_cleanup_holds (Q := fun _ _ => True) ?_).mono fun r t ht => ht.1
  refine Co.Holds.bind (inspected_holds hs) (fun goes t ht => ?_) fun e t ht => ⟨ht.1, trivial⟩
  refine Co.holds_when.mpr ⟨fun hgoes => ?_, fun _ => ⟨ht.1, trivial⟩⟩
  subst hgoes
  exact Co.holds_loop.mpr ⟨ht.2 rfl, fun r t' ht' => ⟨ht', trivial⟩⟩

/-! ### The owner -/

/-- What a write of `close` may change. It comes when the task is done, and the last of it forgets
the task of a clean tunnel. -/
structure Closes (u : Setup) (s s' : Machine) : Prop where
  done : s.tunnel.task ≠ some .running
  inv : s'.Inv u
  available : s'.available = true → s.available = true
  generation : s'.tunnel.generation = s.tunnel.generation
  spawned : s'.spawned = s.spawned
  fatal : s'.fatal = s.fatal
  runs : s'.runs = s.runs
  task : s'.tunnel.task = s.tunnel.task ∧ s'.closes = s.closes ∨
    s'.tunnel.task = none ∧ s'.closes = s.closes + 1 ∧ s'.Clean ∧ s'.tunnel.ready = false
  off : s.Clean ∧ s.tunnel.ready = false → s'.Clean ∧ s'.tunnel.ready = false

/-- The rules of `close`. While the task runs, it may do whatever keeps the invariant. -/
def ownerRules (u : Setup) : Co.Rules lang where
  rely s s' := Moves u s s' ∨
    s.tunnel.task = some .running ∧ s'.Inv u ∧ s'.tunnel.task ≠ none
  guar := Closes u
  answers := Answers
  pre
    | .children _, _ => True
    | _, _ => False
  post _ s _ s' := Relation.ReflTransGen (fun s s' => Moves u s s' ∨
    s.tunnel.task = some .running ∧ s'.Inv u ∧ s'.tunnel.task ≠ none) s s'

/-- A write of a cleanup only takes away. -/
theorem Sheds.sheds (h : Sheds s s') :
    (s'.available = true → s.available = true) ∧
      (s.Clean ∧ s.tunnel.ready = false → s'.Clean ∧ s'.tunnel.ready = false) ∧
      s'.tunnel.generation = s.tunnel.generation ∧ s'.spawned = s.spawned ∧ s'.fatal = s.fatal := by
  cases h with
  | ready =>
    exact ⟨fun h => absurd h (by simp [Machine.available]),
      fun h => ⟨⟨h.1.process, h.1.reader, h.1.reading⟩, rfl⟩, rfl, rfl, rfl⟩
  | childTracker =>
    exact ⟨id, fun h => ⟨⟨h.1.process, h.1.reader, h.1.reading⟩, h.2⟩, rfl, rfl, rfl⟩
  | reader => exact ⟨id, fun h => ⟨⟨h.1.process, rfl, h.1.reading⟩, h.2⟩, rfl, rfl, rfl⟩
  | process =>
    exact ⟨fun h => absurd h (by simp [Machine.available]),
      fun h => ⟨⟨rfl, h.1.reader, h.1.reading⟩, h.2⟩, rfl, rfl, rfl⟩

theorem permits_owner (u : Setup) :
    Permits u (ownerRules u) fun s => s.tunnel.task ≠ some .running where
  answers := id
  rely hs h := h.resolve_right fun h => hs h.1
  moves hs h := by rwa [h.moved.task]
  sheds hs h := by cases h <;> exact hs
  guar hs hsheds hkeeps := by
    obtain ⟨havailable, hoff, hgeneration, hspawned, hfatal⟩ := hsheds.sheds
    exact ⟨hs, hkeeps.inv, havailable, hgeneration, hspawned, hfatal, hkeeps.runs,
      .inl ⟨hkeeps.task, hkeeps.closes⟩, hoff⟩
  pre := trivial
  post := id

theorem owner_loops_hold (u : Setup) (i : Loop) (s : Machine) (h : (ownerRules u).pre i s) :
    (body u i).Holds (ownerRules u) ((ownerRules u).post i s) s := by
  cases i with
  | children deadline => exact children_hold deadline trivial Iff.rfl
  | _ => exact h.elim

/-- `close` waits until the task is done, and then cleans up alone. -/
theorem close_holds (hs : s.Inv u) : (close u).Holds (ownerRules u) (fun _ _ => True) s := by
  have hwaits : (do
      let t ← self
      Co.when (t.task ≠ none) (await .taskGone) : Method Unit).Holds (ownerRules u)
        (fun _ (t : Machine) => t.Inv u ∧ t.tunnel.task ≠ some .running) s := by
    refine Co.holds_bind.mpr
      (Co.holds_gets.mpr (Co.holds_when.mpr ⟨fun htask => ?_, fun htask => ?_⟩))
    · refine Co.holds_awaits_of_stable (P := fun t : Machine => t.Inv u ∧ t.tunnel.task ≠ none) ?_
        ⟨hs, htask⟩ fun t r ht hr => ⟨ht.1, by simp [hr.2 rfl]⟩
      rintro t t' ht (hmoves | ⟨-, hinv, htask'⟩)
      · exact ⟨hmoves.inv ht.1, by rw [hmoves.moved.task]; exact ht.2⟩
      · exact ⟨hinv, htask'⟩
    · exact ⟨hs, by rw [not_not.mp htask]; simp⟩
  refine Co.holds_ending.mpr (hwaits.mono fun r t ht => ?_)
  refine Co.Holds.bind (cleanup_holds (permits_owner u) ht.2 ht.1) (fun _ t' ht' => ?_)
    fun e t' _ => trivial
  -- the tunnel is clean, and its task is forgotten
  obtain ⟨htidy, hclean⟩ := ht'
  have hunready : Unready u
      { t' with
        tunnel := { t'.tunnel with task := none, state := .stopped, retryAt := none }
        closes := t'.closes + 1 } :=
    .of_unread htidy.ready (hclean rfl).reading htidy.inv.taken
  have hclean' : Machine.Clean
      { t' with
        tunnel := { t'.tunnel with task := none, state := .stopped, retryAt := none }
        closes := t'.closes + 1 } :=
    ⟨(hclean rfl).process, (hclean rfl).reader, (hclean rfl).reading⟩
  exact Co.holds_modify.mpr ⟨⟨htidy.frame, hunready.inv,
    fun h => absurd h (by simp [hunready.available]), rfl, rfl, rfl, rfl,
    .inr ⟨rfl, rfl, hclean', htidy.ready⟩, fun _ => ⟨hclean', htidy.ready⟩⟩, trivial⟩

/-! ### Runs -/

/-- What holds between the steps of a run. -/
structure Sound (u : Setup) (w : World) : Prop where
  inv : w.machine.Inv u
  task : ∀ c, w.task = some c → w.machine.tunnel.task = some .running ∧
    Co.Holds (I := lang) (taskRules u) c (fun _ s => Unready u s) w.machine
  done : w.task = none → w.machine.tunnel.task ≠ some .running
  owner : ∀ c, w.owner = some c →
    Co.Holds (I := lang) (ownerRules u) c (fun _ _ => True) w.machine
  off : w.machine.tunnel.task = none → w.machine.Clean ∧ w.machine.tunnel.ready = false

/-- What a step may change of the counts. -/
structure Counts (s s' : Machine) : Prop where
  generation : s'.tunnel.generation =
    s.tunnel.generation + if s.available = false ∧ s'.available = true then 1 else 0
  fatal : s.fatal = true → s'.runs = s.runs → s'.fatal = true ∧ s'.spawned = s.spawned
  runs : s.runs ≤ s'.runs
  closes : s.closes ≤ s'.closes
  started : s.tunnel.task ≠ none → s'.runs = s.runs
  closed : s.tunnel.task ≠ none → s'.closes = s.closes → s'.tunnel.task ≠ none

theorem Counts.refl (s : Machine) : Counts s s := by
  refine ⟨?_, fun h _ => ⟨h, rfl⟩, le_rfl, le_rfl, fun _ => rfl, fun h _ => h⟩
  rw [if_neg fun h => by simp [h.1] at h, Nat.add_zero]

theorem Moved.counts_le (h : Moved s s') : Counts s s' := by
  obtain ⟨hspawned, hfatal, hruns, hcloses⟩ := h.counts
  refine ⟨?_, fun hs _ => ⟨hfatal.trans hs, hspawned⟩, hruns.ge, hcloses.ge, fun _ => hruns,
    fun hs _ => by rwa [h.task]⟩
  rw [if_neg fun hs => absurd (h.available hs.2) (by simp [hs.1]), h.generation, Nat.add_zero]

theorem Keeps.counts (h : Keeps u s s') : Counts s s' :=
  ⟨h.generation, fun hs _ => h.fatal hs, h.runs.ge, h.closes.ge, fun _ => h.runs,
    fun hs _ => by rwa [h.task]⟩

theorem Closes.counts (h : Closes u s s') : Counts s s' := by
  refine ⟨?_, fun hs _ => ⟨h.fatal.trans hs, h.spawned⟩, h.runs.ge, ?_, fun _ => h.runs,
    fun hs hcloses => ?_⟩
  · rw [if_neg fun hs => absurd (h.available hs.2) (by simp [hs.1]), h.generation, Nat.add_zero]
  · rcases h.task with ⟨-, hcloses⟩ | ⟨-, hcloses, -⟩ <;> omega
  · rcases h.task with ⟨htask, -⟩ | ⟨-, hcloses', -⟩
    · rwa [htask]
    · omega

/-- A step keeps what holds between the steps. -/
theorem Step.sound {w w' : World} (hstep : Step u w w') (h : Sound u w) :
    Sound u w' ∧ Counts w.machine w'.machine := by
  cases hstep with
  | world htask howner hmoves =>
    refine ⟨⟨hmoves.inv h.inv, fun c hc => ?_, fun hnone => ?_, fun c hc => ?_, fun hnone => ?_⟩,
      hmoves.moved.counts_le⟩
    · obtain ⟨hrunning, hholds⟩ := h.task c hc
      exact ⟨hmoves.moved.task.trans hrunning, hholds.rely (htask c hc) (.single hmoves)⟩
    · rw [hmoves.moved.task]
      exact h.done hnone
    · exact (h.owner c hc).rely (howner c hc) (.single (.inl hmoves))
    · obtain ⟨hclean, hready⟩ := h.off (hmoves.moved.task ▸ hnone)
      exact ⟨hmoves.moved.clean hclean, hmoves.moved.ready.trans hready⟩
  | @task c c' m htask howner hmove =>
    obtain ⟨hrunning, hholds⟩ := h.task c htask
    obtain ⟨hsame | hkeeps, hholds'⟩ := hholds.step (loops_hold u) hmove
    · subst hsame
      refine ⟨⟨h.inv, fun d hd => ?_, fun hnone => (nomatch hnone), h.owner, h.off⟩, .refl _⟩
      obtain rfl := Option.some.inj hd
      exact ⟨hrunning, hholds'⟩
    · refine ⟨⟨hkeeps.inv, fun d hd => ?_, fun hnone => (nomatch hnone), fun d hd => ?_,
        fun hnone => ?_⟩,
        hkeeps.counts⟩
      · obtain rfl := Option.some.inj hd
        exact ⟨hkeeps.task.trans hrunning, hholds'⟩
      · refine (h.owner d hd).rely (howner d hd) (.single (.inr ⟨hrunning, hkeeps.inv, ?_⟩))
        rw [hkeeps.task, hrunning]
        simp
      · exact absurd (hkeeps.task.symm.trans hnone) (by simp [hrunning])
  | @taskEnds c htask hend howner =>
    obtain ⟨hrunning, hholds⟩ := h.task c htask
    have hunready : Unready u w.machine := by
      cases c with
      | pure _ | throw _ => exact hholds
      | _ => exact hend.elim
    have hkeeps : Machine.Inv u
        { w.machine with tunnel := { w.machine.tunnel with task := some .finished } } :=
      ⟨h.inv.ready, h.inv.reading, h.inv.taken, h.inv.fatal⟩
    refine ⟨⟨hkeeps, fun d hd => (nomatch hd), fun _ => by simp, fun d hd => ?_,
      fun hnone => (nomatch hnone)⟩, ?_, fun hs _ => ⟨hs, rfl⟩, le_rfl, le_rfl, fun _ => rfl,
      fun _ _ => by simp⟩
    · exact (h.owner d hd).rely (howner d hd) (.single (.inr ⟨hrunning, hkeeps, by simp⟩))
    · exact (Counts.refl w.machine).generation
  | @owner c c' m howner htask hmove =>
    obtain ⟨hsame | hcloses, hholds'⟩ := (h.owner c howner).step (owner_loops_hold u) hmove
    · subst hsame
      refine ⟨⟨h.inv, h.task, h.done, fun d hd => ?_, h.off⟩, .refl _⟩
      obtain rfl := Option.some.inj hd
      exact hholds'
    · -- the owner writes only when the task is done
      have hnone : w.task = none := by
        cases hc : w.task with
        | none => rfl
        | some d => exact absurd (h.task d hc).1 hcloses.done
      refine ⟨⟨hcloses.inv, fun d hd => ?_, fun _ => ?_, fun d hd => ?_, fun htask' => ?_⟩,
        hcloses.counts⟩
      · exact absurd (hnone.symm.trans hd) (by simp)
      · rcases hcloses.task with ⟨htask', -⟩ | ⟨htask', -⟩
        · change m.tunnel.task ≠ _
          rw [htask']
          exact hcloses.done
        · change m.tunnel.task ≠ _
          simp [htask']
      · obtain rfl := Option.some.inj hd
        exact hholds'
      · rcases hcloses.task with ⟨hsame, -⟩ | ⟨-, -, hclean⟩
        · exact hcloses.off (h.off (hsame ▸ htask'))
        · exact hclean
  | ownerEnds howner hend htask =>
    exact ⟨⟨h.inv, h.task, h.done, fun c hc => (nomatch hc), h.off⟩, .refl _⟩
  | starts howner htask =>
    cases hrun : w.machine.tunnel.task with
    | some r =>
      have hstart : start u w = w := by rw [start, hrun]
      rw [hstart]
      exact ⟨h, .refl _⟩
    | none =>
      obtain ⟨hclean, hready⟩ := h.off hrun
      have hresting : Resting u
          { w.machine with
            tunnel := { w.machine.tunnel with task := some .running }
            fatal := false
            runs := w.machine.runs + 1 } :=
        ⟨.of_unread hready hclean.reading h.inv.taken,
          ⟨hclean.process, hclean.reader, hclean.reading⟩,
          rfl⟩
      rw [start, hrun]
      refine ⟨⟨hresting.inv, fun d hd => ?_, fun hnone => (nomatch hnone), fun d hd => ?_,
        fun hnone => (nomatch hnone)⟩, ?_, fun _ hruns => ?_, Nat.le_succ _, le_rfl,
        fun hs => absurd hrun hs, fun hs => absurd hrun hs⟩
      · obtain rfl := Option.some.inj hd
        exact ⟨rfl, run_holds hresting⟩
      · exact absurd (howner.symm.trans hd) (by simp)
      · exact (Counts.refl w.machine).generation
      · exact absurd hruns (Nat.succ_ne_self _)
  | closes howner htask =>
    refine ⟨⟨h.inv, h.task, h.done, fun d hd => ?_, h.off⟩, .refl _⟩
    obtain rfl := Option.some.inj hd
    exact close_holds h.inv

/-- A run from a sound world: it is sound in the end, and the counts grow. -/
theorem run_sound {w w' : World} (hrun : Relation.ReflTransGen (Step u) w w') (h : Sound u w) :
    Sound u w' ∧ w.machine.runs ≤ w'.machine.runs ∧ w.machine.closes ≤ w'.machine.closes ∧
      (w.machine.fatal = true → w'.machine.runs = w.machine.runs →
        w'.machine.fatal = true ∧ w'.machine.spawned = w.machine.spawned) ∧
      (w.machine.tunnel.task ≠ none → w'.machine.closes = w.machine.closes →
        w'.machine.tunnel.task ≠ none ∧ w'.machine.runs = w.machine.runs) := by
  induction hrun with
  | refl => exact ⟨h, le_rfl, le_rfl, fun hs _ => ⟨hs, rfl⟩, fun hs _ => ⟨hs, rfl⟩⟩
  | tail _ hstep ih =>
    obtain ⟨hsound, hruns, hcloses, hfatal, hopen⟩ := ih
    obtain ⟨hsound', hcounts⟩ := hstep.sound hsound
    have hruns' := hcounts.runs
    have hcloses' := hcounts.closes
    refine ⟨hsound', hruns.trans hruns', hcloses.trans hcloses', fun hs heq => ?_, fun hs heq => ?_⟩
    · obtain ⟨hmet, hspawned⟩ := hfatal hs (by omega)
      obtain ⟨hmet', hspawned'⟩ := hcounts.fatal hmet (by omega)
      exact ⟨hmet', hspawned'.trans hspawned⟩
    · obtain ⟨htask, hsame⟩ := hopen hs (by omega)
      exact ⟨hcounts.closed htask (by omega), (hcounts.started htask).trans hsame⟩

theorem sound_init (u : Setup) : Sound u {} := by
  have hclean : Machine.Clean {} := ⟨rfl, rfl, fun _ => rfl⟩
  exact ⟨(Unready.of_unread rfl hclean.reading fun _ => le_rfl).inv, fun c hc => (nomatch hc),
    fun _ => by simp, fun c hc => (nomatch hc), fun _ => ⟨hclean, rfl⟩⟩

/-! ### Played runs -/

instance (s : Machine) : (q : Query) → Decidable (q.Settled s)
  | .exit p | .exitWithin p | .exitInTime p =>
    inferInstanceAs (Decidable ((s.processes p).returncode ≠ none))
  | .reader p | .readerWithin p | .readerGone p =>
    inferInstanceAs (Decidable ((s.processes p).reading = false))
  | .isFile | .monotonic | .uniform | .socket | .bind | .signal | .childrenAlive | .ownedRoot
  | .spawning _ | .line _ | .trackerGone | .connection | .writerClosed | .sleep _ | .taskGone =>
    isTrue trivial

instance : (q : Query) → Decidable (q = .taskGone)
  | .taskGone => isTrue rfl
  | .isFile | .monotonic | .uniform | .socket | .bind | .signal | .childrenAlive | .ownedRoot
  | .spawning _ | .line _ | .exit _ | .exitWithin _ | .exitInTime _ | .reader _ | .readerWithin _
  | .readerGone _ | .trackerGone | .connection | .writerClosed | .sleep _ => isFalse nofun

instance (q : Query) (s : Machine) : (r : Except Exc q.Answer) → Decidable (Answers q r s)
  | .ok _ => inferInstanceAs (Decidable (q.Settled s ∧ (q = .taskGone → _)))
  | .error e => inferInstanceAs (Decidable (e ∈ q.raises ∧ (q = .taskGone → _)))

/-- The answer where nothing fails: it is zero o'clock, nobody is found, and there is no line. -/
def Query.reply : (q : Query) → q.Answer
  | .isFile | .childrenAlive | .ownedRoot => false
  | .monotonic | .uniform => (0 : ℚ)
  | .line _ => none
  | .socket | .bind | .signal | .spawning _ | .exit _ | .exitWithin _ | .exitInTime _ | .reader _
  | .readerWithin _ | .readerGone _ | .trackerGone | .connection | .writerClosed | .sleep _
  | .taskGone => ()

/-- A machine that others may come to. -/
abbrev Later (u : Setup) (s : Machine) := { s' // Relation.ReflTransGen (Moves u) s s' }

/-- The process exits, if it has not. -/
def exiting (u : Setup) (s : Machine) (p : ℕ) : Later u s :=
  if h : p < s.spawned ∧ (s.processes p).returncode = none then
    ⟨s.change p fun x => { x with returncode := some 0 }, .single (.exits s h.1 h.2 0)⟩
  else ⟨s, .refl⟩

/-- The reader of the process is done. -/
def readerEnding (u : Setup) (s : Machine) (p : ℕ) : Later u s :=
  if h : (s.processes p).reading = true then
    ⟨s.change p fun x => { x with reading := false }, .single (.readerEnds s h)⟩
  else ⟨s, .refl⟩

/-- The process says that it listens, and its reader takes that in. -/
def confirming (u : Setup) (s : Machine) (p : ℕ) : Later u s :=
  let text := u.config.confirmation
  let s' := s.change p fun x => { x with printed := x.printed ++ text }
  if h : p < s.spawned ∧ (s'.processes p).reading = true ∧ text.length ≤ 2048 ∧
      text <+: (s'.processes p).printed.drop (s'.processes p).taken then
    ⟨_, .tail (.single (.prints s h.1 text))
      (.reads s' h.2.1 confirmation_ne_nil h.2.2.1 h.2.2.2)⟩
  else ⟨s, .refl⟩

/-- A world in which processes exit when they are waited for and say that they listen, and in which
nothing fails but what `faults` tells. -/
def player (u : Setup) (faults : Query → Option Exc) :
    Co.Player (I := lang) Answers (Moves u) where
  move
    | .exitWithin p, s | .exitInTime p, s => exiting u s p
    | .reader p, s | .readerWithin p, s | .readerGone p, s => readerEnding u s p
    | .sleep _, s =>
      match s.tunnel.process with
      | some p => confirming u s p
      | none => ⟨s, .refl⟩
    | _, s => ⟨s, .refl⟩
  answer q s :=
    let r : Except Exc q.Answer := (faults q).elim (.ok q.reply) .error
    if h : Answers q r s then some ⟨r, h⟩ else none

/-- A tunnel that was started, after at most `n` steps of its task. -/
def played (u : Setup) (faults : Query → Option Exc) (n : ℕ) : Method Unit × Machine :=
  Co.play (I := lang) (body u) (player u faults) n (run u, (start u {}).machine)

theorem played_run (u : Setup) (faults : Query → Option Exc) (n : ℕ) :
    Relation.ReflTransGen (Step u) {}
      ⟨(played u faults n).2, some (played u faults n).1, none⟩ := by
  have hidle : Idle none := fun _ h => (nomatch h)
  have hturn (x y : Method Unit × Machine)
    (h : Co.Turn (I := lang) (body u) Answers (Moves u) x y) :
      Step u ⟨x.2, some x.1, none⟩ ⟨y.2, some y.1, none⟩ := by
    cases h with
    | step h => exact .task rfl hidle h
    | moves hwaits h => exact .world (fun c hc => Option.some.inj hc ▸ hwaits) hidle h
  have hplayed := (Co.play_turns (I := lang) (player u faults) n (run u, (start u {}).machine)).lift
    (fun x => (⟨x.2, some x.1, none⟩ : World)) hturn
  exact hplayed.head (.starts rfl hidle)

/-- In every run: who is available is the live forwarding process of the current attempt, and it has
printed the confirmation; the generation grows by one with each step that makes the tunnel
available, and with no other; and after a failure that is not retried nothing is spawned and the
tunnel is not available, unless it was closed and then started again. -/
theorem available_sound (u : Setup) {w : World} (hw : Relation.ReflTransGen (Step u) {} w) :
    (w.machine.available = true → ∃ p, w.machine.tunnel.process = some p ∧
      (w.machine.processes p).returncode = none ∧ w.machine.Forwards u p ∧
      w.machine.Confirmed u p) ∧
    (∀ w', Step u w w' → w'.machine.tunnel.generation = w.machine.tunnel.generation +
      if w.machine.available = false ∧ w'.machine.available = true then 1 else 0) ∧
    (w.machine.fatal = true → ∀ w', Relation.ReflTransGen (Step u) w w' →
      (w'.machine.runs = w.machine.runs ∨
        w.machine.tunnel.task ≠ none ∧ w'.machine.closes = w.machine.closes) →
      w'.machine.spawned = w.machine.spawned ∧ w'.machine.available = false) := by
  have hsound := (run_sound hw (sound_init u)).1
  refine ⟨fun havailable => ?_, fun w' hstep => (hstep.sound hsound).2.generation,
    fun hfatal w' hrun hsame => ?_⟩
  · obtain ⟨hready, p, hp, hlive⟩ := Machine.available_eq_true.mp havailable
    obtain ⟨q, hq, hforwards, hconfirmed⟩ := hsound.inv.ready hready
    obtain rfl := Option.some.inj (hp.symm.trans hq)
    exact ⟨p, hp, hlive, hforwards, hconfirmed⟩
  · obtain ⟨hsound', -, -, hkept, hopen⟩ := run_sound hrun hsound
    have hruns : w'.machine.runs = w.machine.runs :=
      hsame.elim id fun h => (hopen h.1 h.2).2
    obtain ⟨hmet, hspawned⟩ := hkept hfatal hruns
    exact ⟨hspawned, hsound'.inv.fatal hmet⟩

/-- A tunnel becomes ready, with the process that said so in its slot; where no process can be
spawned, the failure is not retried. -/
theorem available_sound_played :
    (∃ w, Relation.ReflTransGen (Step ⟨{ host := "vps" }, false⟩) {} w ∧
      w.machine.available = true ∧ w.machine.tunnel.generation = 1 ∧
      ∃ p, w.machine.tunnel.process = some p ∧ w.machine.Confirmed ⟨{ host := "vps" }, false⟩ p) ∧
    ∃ w, Relation.ReflTransGen (Step ⟨{ host := "vps" }, false⟩) {} w ∧
      w.machine.fatal = true ∧ w.machine.available = false := by
  constructor
  · obtain ⟨w, hw, hready, hgeneration⟩ :
        ∃ w, Relation.ReflTransGen (Step ⟨{ host := "vps" }, false⟩) {} w ∧
          w.machine.available = true ∧ w.machine.tunnel.generation = 1 := by
      refine ⟨_, played_run _ (fun _ => none) 200, ?_⟩
      decide +kernel
    obtain ⟨p, hp, -, -, hconfirmed⟩ := (available_sound _ hw).1 hready
    exact ⟨w, hw, hready, hgeneration, p, hp, hconfirmed⟩
  · obtain ⟨w, hw, hfatal⟩ :
        ∃ w, Relation.ReflTransGen (Step ⟨{ host := "vps" }, false⟩) {} w ∧
          w.machine.fatal = true := by
      refine ⟨_, played_run _ (fun | .spawning _ => some .os | _ => none) 200, ?_⟩
      decide +kernel
    exact ⟨w, hw, hfatal, ((available_sound _ hw).2.2 hfatal w .refl (.inl rfl)).2⟩

end SSHTunnel

end HermesGateway.Client
