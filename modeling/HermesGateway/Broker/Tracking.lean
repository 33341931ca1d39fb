import HermesGateway.Broker.Once
import HermesGateway.Broker.Rotation

/-!
# The dictionaries of tasks

`step` keeps its tasks in three dictionaries, and `aclose` cancels what it finds there. A task is
put under its key by an assignment, which would replace another one of the same key: that one would
run on, and nothing would cancel or await it. No assignment does. A key that is claimed was never
claimed before, a cancellation is handed out once, and a read is looked up first.

The last of these is not enough by itself for a stream: what is read could be claimed later. It is
not, because only what has left `accepted` is read.

## Main definitions

* `Poller.Revised` — what a statement may do to a dictionary
* `Poller.Tracked` — what holds of the dictionaries between two statements

## Main results

* `Poller.Step.streams`, `Poller.Step.reads`, `Poller.Step.cancels` — what one statement does to
  each dictionary
* `tasks_tracked` — in every run an assignment is to a new key, there are never more tasks of a kind
  than allowed, and no operation is streamed and read at once
-/

namespace HermesGateway.Broker

open BrokerStore

namespace Poller

/-! ### A dictionary -/

/-- The keys of a dictionary. -/
def keys (d : List (Key × Bool)) : List Key := d.map Prod.fst

/-- What a statement does to a dictionary: nothing, or a task ends, or those that have ended are
taken out, or a new one is put in while there is room. -/
inductive Revised (limit : ℕ) (new : Key → Prop) (d : List (Key × Bool)) :
    List (Key × Bool) → Prop
  | same : Revised limit new d d
  | ended (k : Key) : Revised limit new d (ended k d)
  | reaped : Revised limit new d (reaped d)
  | started {k : Key} (hnew : new k) (hlimit : d.length < limit) :
      Revised limit new d (d ++ [(k, false)])

section

variable {limit : ℕ} {new : Key → Prop} {d d' : List (Key × Bool)} {k : Key}

theorem keys_append (d d' : List (Key × Bool)) : keys (d ++ d') = keys d ++ keys d' :=
  List.map_append

theorem keys_ended (k : Key) (d : List (Key × Bool)) : keys (ended k d) = keys d := by
  unfold keys ended
  rw [List.map_map]
  refine List.map_congr_left fun x _ => ?_
  rw [Function.comp_apply]
  split_ifs with hx
  · exact hx.symm
  · rfl

theorem keys_reaped_sublist (d : List (Key × Bool)) : (keys (reaped d)).Sublist (keys d) :=
  List.filter_sublist.map _

/-- A key that is there was there, or is new. -/
theorem Revised.mem (h : Revised limit new d d') (hk : k ∈ keys d') : k ∈ keys d ∨ new k := by
  cases h with
  | same => exact .inl hk
  | ended => exact .inl (keys_ended _ d ▸ hk)
  | reaped => exact .inl ((keys_reaped_sublist d).subset hk)
  | started hnew =>
    rw [keys_append, List.mem_append] at hk
    rcases hk with hk | hk
    · exact .inl hk
    · exact .inr (List.mem_singleton.mp hk ▸ hnew)

/-- Where what is new was not there, no key is there twice. -/
theorem Revised.nodup (h : Revised limit new d d') (hnew : ∀ k, new k → k ∉ keys d)
    (hd : (keys d).Nodup) : (keys d').Nodup := by
  cases h with
  | same => exact hd
  | ended => rwa [keys_ended]
  | reaped => exact hd.sublist (keys_reaped_sublist d)
  | @started k hk =>
    rw [keys_append]
    refine List.nodup_append.mpr ⟨hd, List.nodup_singleton _, ?_⟩
    intro a ha b hb hab
    rw [hab, show b = k from List.mem_singleton.mp hb] at ha
    exact hnew k hk ha

theorem Revised.length_le (h : Revised limit new d d') (hd : d.length ≤ limit) :
    d'.length ≤ limit := by
  cases h with
  | same => exact hd
  | ended => exact (List.length_map _).trans_le hd
  | reaped => exact (List.length_filter_le _ _).trans hd
  | started _ hlimit =>
    rw [List.length_append, List.length_singleton]
    exact hlimit

end

/-! ### One statement -/

variable {store : BrokerStore} {clock : ℕ → Time} {P P' : Poller} {l : List Key} {k : Key}

/-- The keys that `step` looks up are those of the dictionaries. -/
theorem listed_iff : P.Listed k ↔ k ∈ keys P.streams ∨ k ∈ keys P.reads ∨ k ∈ keys P.cancels := by
  simp only [Listed, entries, keys, List.mem_append, List.mem_map, or_and_right, exists_or,
    or_assoc]

/-- The ledger makes moves. -/
theorem Step.moves (h : Step store clock P l P')
    (hkeyed : Table.Keyed OperationRow.key P.ledger.operations) :
    ∃ ks, Moves P.ledger ks P'.ledger := by
  rcases h.ledger with heq | ⟨x, uuids, s', hx, heq, -⟩
  · rw [heq]
    exact ⟨[], .nil⟩
  · rw [heq]
    exact moves_of_publishes (perform_publishes hkeyed hx)

/-- **Streams**: the one that is put in was claimed, so it was accepted before and is no more. -/
theorem Step.streams (h : Step store clock P l P')
    (hkeyed : Table.Keyed OperationRow.key P.ledger.operations) (hqueued : Queued P.ledger) :
    Revised store.settings.maxConcurrentStreams
      (fun k => ¬ Submitted P.ledger k ∧ Submitted P'.ledger k ∧ P'.reads = P.reads)
      P.streams P'.streams := by
  cases h with
  | streamEnds => exact .ended _
  | reap => exact .reaped
  | @claim c uuids s' _ hlimit h =>
    obtain ⟨r, now, hr, haccepted, hr', -⟩ := claimed_row hkeyed hqueued h
    exact .started ⟨fun hsub => hsub.claimed hr haccepted, ⟨_, hr', by simp [claimedRow]⟩, rfl⟩
      hlimit
  | _ => exact .same

/-- **Reads**: the one that is put in is the next of those that are left, and has no task. -/
theorem Step.reads (h : Step store clock P l P')
    (hroom : P.pending ≠ [] → P.reads.length < store.settings.maxConcurrentStreams) :
    Revised store.settings.maxConcurrentStreams
      (fun k => k ∈ P.pending ∧ ¬ P.Listed k ∧ P'.streams = P.streams) P.reads P'.reads := by
  cases h with
  | readEnds => exact .ended _
  | reap => exact .reaped
  | @read r rest hphase hlisted =>
    have hpending : P.pending = r.key :: rest.map OperationRow.key := by
      rw [pending, hphase]
      rfl
    refine .started ⟨?_, hlisted, rfl⟩ (hroom ?_)
    · rw [hpending]
      exact List.mem_cons_self
    · rw [hpending]
      exact List.cons_ne_nil _ _
  | _ => exact .same

/-- **Cancellations**: the one that is put in was not handed out before, and is now. -/
theorem Step.cancels (h : Step store clock P l P')
    (hkeyed : Table.Keyed OperationRow.key P.ledger.operations) :
    Revised store.settings.maxConcurrentStreams
      (fun k => ¬ Handed P.ledger k ∧ Handed P'.ledger k) P.cancels P'.cancels := by
  cases h with
  | cancelEnds => exact .ended _
  | reap => exact .reaped
  | @cancel k handle uuids s' _ hlimit h =>
    obtain ⟨r, hr, ⟨-, hnew, -, -⟩, -, hr'⟩ :=
      (claimCancel_publishes (R := fun _ _ => True) (P := fun _ _ _ => True) hkeyed h).2 _ rfl
    refine .started ⟨?_, ⟨_, hr', rfl⟩⟩ hlimit
    rintro ⟨r', hr₀, hhanded⟩
    obtain rfl := Option.some.inj (hr.symm.trans hr₀)
    rw [hnew] at hhanded
    cases hhanded
  | _ => exact .same

/-- The keys that are left were left before, or were fetched, which takes room for a read. -/
theorem Step.pending (h : Step store clock P l P')
    (hkeyed : Table.Keyed OperationRow.key P.ledger.operations)
    (hroom : P.pending ≠ [] → P.reads.length < store.settings.maxConcurrentStreams) :
    (∀ k ∈ P'.pending, k ∈ P.pending ∨ Submitted P.ledger k) ∧
      (P'.pending ≠ [] → P'.reads.length < store.settings.maxConcurrentStreams) := by
  cases h with
  | commit | streamEnds | cancelEnds => exact ⟨fun _ hk => .inl hk, hroom⟩
  | @readEnds k =>
    refine ⟨fun _ hk => .inl hk, fun hne => ?_⟩
    rw [show (Poller.ended k P.reads).length = P.reads.length from List.length_map _]
    exact hroom hne
  | @fetch rows uuids s' _ hlimit h =>
    obtain ⟨rfl, -⟩ :=
      reconcilable_publishes (R := fun _ _ => True) (P := fun _ _ _ => True) h
    refine ⟨fun k hk => .inr ?_, fun _ => hlimit⟩
    obtain ⟨r, hr, rfl⟩ := List.mem_map.mp hk
    have hsort := List.mem_of_mem_take hr
    rw [List.mem_insertionSort] at hsort
    obtain ⟨hmem, hactive⟩ := List.mem_filter.mp hsort
    exact submitted_of_active (hkeyed.mem_iff_lookup.mp hmem) (of_decide_eq_true hactive).1
  | @resume rows hphase =>
    have hsame : P.pending = rows.map OperationRow.key := by rw [Poller.pending, hphase]
    exact ⟨fun k hk => .inl (hsame ▸ hk), fun hne => hroom (hsame ▸ hne)⟩
  | @skip r rest hphase =>
    have hsame : P.pending = r.key :: rest.map OperationRow.key := by
      rw [Poller.pending, hphase]
      rfl
    refine ⟨fun k hk => .inl ?_, fun _ => hroom (by rw [hsame]; exact List.cons_ne_nil _ _)⟩
    rw [hsame]
    exact List.mem_cons_of_mem _ hk
  | @read r rest hphase =>
    have hsame : P.pending = r.key :: rest.map OperationRow.key := by
      rw [Poller.pending, hphase]
      rfl
    by_cases hlast : store.settings.maxConcurrentStreams ≤ P.reads.length + 1
    · simp [Poller.pending, if_pos hlast]
    · simp only [Poller.pending, if_neg hlast, List.length_append, List.length_singleton]
      refine ⟨fun k hk => .inl ?_, fun _ => not_le.mp hlast⟩
      change k ∈ P.pending
      rw [hsame]
      exact List.mem_cons_of_mem _ hk
  | _ =>
    exact ⟨fun _ hk => absurd hk (by simp [Poller.pending, *]),
      fun hne => absurd (by simp [Poller.pending, *]) hne⟩

/-! ### Runs -/

/-- What holds between two statements: no key is twice in a dictionary, and there is room; what is
streamed or read has left `accepted`, and so has what is left to read; what is canceled was handed
out; and nothing is streamed and read at once. -/
structure Tracked (limit : ℕ) (P : Poller) : Prop where
  keyed : Table.Keyed OperationRow.key P.ledger.operations
  queued : Queued P.ledger
  streams : (keys P.streams).Nodup
  reads : (keys P.reads).Nodup
  cancels : (keys P.cancels).Nodup
  streams_le : P.streams.length ≤ limit
  reads_le : P.reads.length ≤ limit
  cancels_le : P.cancels.length ≤ limit
  room : P.pending ≠ [] → P.reads.length < limit
  submitted : ∀ k, k ∈ keys P.streams ∨ k ∈ keys P.reads ∨ k ∈ P.pending → Submitted P.ledger k
  handed : ∀ k ∈ keys P.cancels, Handed P.ledger k
  apart : ∀ k ∈ keys P.streams, k ∉ keys P.reads

/-- A dispatcher that takes up its work has no tasks. -/
theorem Starts.tracked (h : Starts store P) : P.Tracked store.settings.maxConcurrentStreams := by
  obtain ⟨L, clock, uuids, s', hreach, hrecover, rfl⟩ := h
  obtain ⟨ks, hmoves⟩ :=
    moves_of_run (hreach.tail ⟨.recover, clock, uuids, s', hrecover, rfl⟩) keyed_empty
  exact
    { keyed := keyed_of_trace hmoves keyed_empty
      queued := queued_of_trace hmoves queued_empty
      streams := List.nodup_nil
      reads := List.nodup_nil
      cancels := List.nodup_nil
      streams_le := Nat.zero_le _
      reads_le := Nat.zero_le _
      cancels_le := Nat.zero_le _
      room := fun hne => absurd rfl hne
      submitted := fun k hk => by simp [keys, start, Poller.pending] at hk
      handed := fun k hk => absurd hk List.not_mem_nil
      apart := fun k hk => absurd hk List.not_mem_nil }

/-- **One statement** keeps track of the tasks. -/
theorem Step.tracked (h : Step store clock P l P')
    (htracked : P.Tracked store.settings.maxConcurrentStreams) :
    P'.Tracked store.settings.maxConcurrentStreams := by
  obtain ⟨ks, hmoves⟩ := h.moves htracked.keyed
  have hstreams := h.streams htracked.keyed htracked.queued
  have hreads := h.reads htracked.room
  have hcancels := h.cancels htracked.keyed
  obtain ⟨hpending, hroom⟩ := h.pending htracked.keyed htracked.room
  have hkept (k) (hk : Submitted P.ledger k) : Submitted P'.ledger k := hk.of_trace hmoves
  refine
    { keyed := keyed_of_trace hmoves htracked.keyed
      queued := queued_of_trace hmoves htracked.queued
      streams := hstreams.nodup (fun k hk hmem => hk.1 (htracked.submitted k (.inl hmem)))
        htracked.streams
      reads := hreads.nodup (fun k hk hmem => hk.2.1 (listed_iff.mpr (.inr (.inl hmem))))
        htracked.reads
      cancels := hcancels.nodup (fun k hk hmem => hk.1 (htracked.handed k hmem)) htracked.cancels
      streams_le := hstreams.length_le htracked.streams_le
      reads_le := hreads.length_le htracked.reads_le
      cancels_le := hcancels.length_le htracked.cancels_le
      room := hroom
      submitted := ?submitted
      handed := ?handed
      apart := ?apart }
  case submitted =>
    rintro k (hk | hk | hk)
    · rcases hstreams.mem hk with hk | hk
      · exact hkept k (htracked.submitted k (.inl hk))
      · exact hk.2.1
    · rcases hreads.mem hk with hk | hk
      · exact hkept k (htracked.submitted k (.inr (.inl hk)))
      · exact hkept k (htracked.submitted k (.inr (.inr hk.1)))
    · rcases hpending k hk with hk | hk
      · exact hkept k (htracked.submitted k (.inr (.inr hk)))
      · exact hkept k hk
  case handed =>
    intro k hk
    rcases hcancels.mem hk with hk | hk
    · exact (htracked.handed k hk).of_trace hmoves
    · exact hk.2
  case apart =>
    intro k hk hread
    rcases hstreams.mem hk with hk | ⟨hnew, -, hsame⟩
    · rcases hreads.mem hread with hread | ⟨-, hidle, -⟩
      · exact htracked.apart k hk hread
      · exact hidle (listed_iff.mpr (.inl hk))
    · -- what is claimed was accepted, and what is read was not
      rw [hsame] at hread
      exact hnew (htracked.submitted k (.inr (.inl hread)))

end Poller

/-- **No task is lost track of.** In every run of the dispatcher, whatever else commits in between,
a task is always put under a key that its dictionary does not have; there are never more tasks of
one kind than the limit; and no operation is streamed and read at the same time. -/
theorem tasks_tracked {store : BrokerStore} {P P' : Poller} {ls : List Key}
    (h : Poller.Starts store P)
    (hrun : Trace (fun Q l Q' => ∃ clock, Poller.Step store clock Q l Q') P ls P') :
    (∀ d ∈ [P'.streams, P'.reads, P'.cancels],
      (Poller.keys d).Nodup ∧ d.length ≤ store.settings.maxConcurrentStreams) ∧
    ∀ k ∈ Poller.keys P'.streams, k ∉ Poller.keys P'.reads := by
  have htracked := hrun.invariant
    (I := fun P => P.Tracked store.settings.maxConcurrentStreams)
    (fun hI ⟨_, hstep⟩ => hstep.tracked hI) h.tracked
  refine ⟨?_, htracked.apart⟩
  simp only [List.forall_mem_cons]
  exact ⟨⟨htracked.streams, htracked.streams_le⟩, ⟨htracked.reads, htracked.reads_le⟩,
    ⟨htracked.cancels, htracked.cancels_le⟩, fun _ h => absurd h List.not_mem_nil⟩

/-- One operation is left of an earlier dispatcher, and is read; another one is claimed. -/
theorem tasks_tracked_two : ∃ P P' ls, Poller.Starts BrokerStore.default P ∧
    Trace (fun Q l Q' => ∃ clock, Poller.Step BrokerStore.default clock Q l Q') P ls P' ∧
    Poller.keys P'.streams = [("laptop", 3)] ∧ Poller.keys P'.reads = [("laptop", 1)] ∧
    ∀ k ∈ Poller.keys P'.streams, k ∉ Poller.keys P'.reads := by
  let store := BrokerStore.default
  have hruns : (Tx.succeeds
      ((Poller.sampleRun.take 4).forM store.perform ⟨Ledger.empty, id, fun _ => 7⟩)
    fun _ s => Tx.succeeds (store.recover ⟨s.ledger, (· + 20), fun _ => 7⟩) fun _ s₀ =>
    Tx.succeeds (purge ⟨s₀.ledger, (· + 40), fun _ => 7⟩) fun _ s₁ =>
    Tx.succeeds (claimCancel ⟨s₁.ledger, (· + 50), fun _ => 7⟩) fun c s₂ =>
    Tx.succeeds (reconcilable ⟨s₂.ledger, (· + 60), fun _ => 7⟩) fun rows s₃ =>
    Tx.succeeds (store.claim ⟨s₃.ledger, (· + 70), fun _ => 7⟩) fun o s₄ =>
      c.isNone && decide (rows.map OperationRow.key = [("laptop", 1)]) &&
        decide (o.map Claim.key = some ("laptop", 3))) = true := by
    decide +kernel
  obtain ⟨_, s, hsetup, hruns⟩ := Tx.exists_of_succeeds hruns
  obtain ⟨_, s₀, h₀, hruns⟩ := Tx.exists_of_succeeds hruns
  obtain ⟨_, s₁, h₁, hruns⟩ := Tx.exists_of_succeeds hruns
  obtain ⟨o₂, s₂, h₂, hruns⟩ := Tx.exists_of_succeeds hruns
  obtain ⟨rows, s₃, h₃, hruns⟩ := Tx.exists_of_succeeds hruns
  obtain ⟨o, s₄, h₄, hruns⟩ := Tx.exists_of_succeeds hruns
  simp only [Bool.and_eq_true, decide_eq_true_eq, Option.isNone_iff_eq_none] at hruns
  obtain ⟨⟨rfl, hrows⟩, ho⟩ := hruns
  obtain ⟨r, rest, rfl, hr, hrest⟩ := List.map_eq_cons_iff.mp hrows
  obtain rfl := List.map_eq_nil_iff.mp hrest
  obtain ⟨c, rfl, hc⟩ := Option.map_eq_some_iff.mp ho
  have hstarts : Poller.Starts store (Poller.start s₀.ledger) :=
    ⟨s.ledger, _, _, s₀, storeRun_of_forM hsetup, h₀, rfl⟩
  have hlimit : 0 < store.settings.maxConcurrentStreams := store.settings.maxConcurrentStreams_pos
  have hfresh : ¬ (⟨s₃.ledger, [], [], [], .loop [r]⟩ : Poller).Listed r.key := by
    rintro ⟨x, hx, -⟩
    exact absurd hx List.not_mem_nil
  have hread := @Poller.Step.read store id ⟨s₃.ledger, [], [], [], .loop [r]⟩ _ _ rfl hfresh
  have hnone := @Poller.Step.noCancel store _ ⟨s₁.ledger, [], [], [], .cancels⟩ _ _ rfl hlimit h₂
  have hfetch := @Poller.Step.fetch store _ ⟨s₂.ledger, [], [], [], .reads⟩ _ _ _ rfl hlimit h₃
  have hclaim := @Poller.Step.claim store _ ⟨s₃.ledger, [], [(r.key, false)], [], .streams⟩ _ _ _
    rfl hlimit h₄
  have hrun := @Trace.nil _ _ (fun Q l Q' => ∃ clock, Poller.Step store clock Q l Q')
    (Poller.start s₀.ledger)
  have hrun := hrun.snoc (u := ⟨s₀.ledger, [], [], [], .purging⟩) ⟨id, .reap rfl⟩
  have hrun := hrun.snoc (u := ⟨s₁.ledger, [], [], [], .cancels⟩) ⟨_, .purge rfl h₁⟩
  have hrun := hrun.snoc (u := ⟨s₂.ledger, [], [], [], .reads⟩) ⟨_, hnone⟩
  have hrun := hrun.snoc (u := ⟨s₃.ledger, [], [], [], .fetched [r]⟩) ⟨_, hfetch⟩
  have hrun := hrun.snoc (u := ⟨s₃.ledger, [], [], [], .loop [r]⟩) ⟨id, .resume rfl⟩
  have hrun := hrun.snoc (u := ⟨s₃.ledger, [], [(r.key, false)], [], .loop []⟩) ⟨id, hread⟩
  have hrun := hrun.snoc (u := ⟨s₃.ledger, [], [(r.key, false)], [], .streams⟩) ⟨id, .leave rfl⟩
  have hrun := hrun.snoc ⟨_, hclaim⟩
  refine ⟨_, _, _, hstarts, hrun, ?_, ?_, (tasks_tracked hstarts hrun).2⟩
  · exact congrArg (fun k => [k]) hc
  · exact congrArg (fun k => [k]) hr

end HermesGateway.Broker
