import Mathlib.Logic.Relation
import Mathlib.Tactic.Common

/-!
# Coroutines

A coroutine acts on a state it shares with others, and gives way to them only where it awaits
something. In between it runs alone. What it asks the world comes back as an answer or an exception,
at once (`ask`) or after others have moved (`await`). A loop is a `call` of a body that may call it
again, so that a coroutine is a finite description of a run of any length.

Reasoning is by rely and guarantee: what others may do while the coroutine waits is `rely`, what
each of its own writes keeps to is `guar`. `Holds` computes from an assertion about the end of a
coroutine what must hold at its start. It distributes over the ways of putting coroutines together,
so that a function is verified once and used by what was proved of it.

## Main definitions

* `Co` — coroutines, a monad with exceptions
* `Co.Step` — one step of a coroutine
* `Co.Rules`, `Co.Holds` — the conditions of a proof, and what they make of an assertion
* `Co.play` — a run of a coroutine, the world being played

## Main results

* `Co.holds_handle` — an assertion about a composition is one about its parts
* `Co.Holds.rely` — a coroutine that waits does not notice what others do
* `Co.Holds.step` — its steps keep to the guarantee, and the assertion goes with it
* `Co.play_turns` — what is played is a run
-/

/-- What a coroutine is written over: the state, its exceptions, its loops, and the questions it
asks the world with the answers to them. -/
structure Interface where
  State : Type
  Exc : Type
  Loop : Type
  Query : Type
  Answer : Query → Type

/-- A coroutine with results in `α`. -/
inductive Co (I : Interface) (α : Type)
  | pure (a : α)
  | throw (e : I.Exc)
  | get (next : I.State → Co I α)
  | put (s : I.State) (next : Co I α)
  | ask (q : I.Query) (next : Except I.Exc (I.Answer q) → Co I α)
  | await (q : I.Query) (next : Except I.Exc (I.Answer q) → Co I α)
  | call (i : I.Loop) (next : Except I.Exc Unit → Co I α)

namespace Co

variable {I : Interface} {α β : Type}

/-- A coroutine followed by another that is told how it ended. -/
def handle (c : Co I α) (k : Except I.Exc α → Co I β) : Co I β :=
  match c with
  | pure a => k (.ok a)
  | throw e => k (.error e)
  | get next => get fun s => (next s).handle k
  | put s next => put s (next.handle k)
  | ask q next => ask q fun r => (next r).handle k
  | await q next => await q fun r => (next r).handle k
  | call i next => call i fun r => (next r).handle k

/-- The coroutine that ends as told. -/
def ofExcept : Except I.Exc α → Co I α
  | .ok a => pure a
  | .error e => throw e

instance : Monad (Co I) where
  pure := pure
  bind c f := c.handle fun
    | .ok a => f a
    | .error e => throw e

/-- `try: c except: …`, the handler being told the exception. -/
def catching (c : Co I α) (handler : I.Exc → Co I α) : Co I α :=
  c.handle fun
    | .ok a => pure a
    | .error e => handler e

/-- `try: c finally: last`. An exception of `last` takes the place of how `c` ended. -/
def ending (c : Co I α) (last : Co I Unit) : Co I α :=
  c.handle fun r => last >>= fun _ => ofExcept r

/-- The state, through `f`. -/
def gets (f : I.State → α) : Co I α := get fun s => pure (f s)

/-- A write. -/
def modify (f : I.State → I.State) : Co I Unit := get fun s => put (f s) (pure ())

/-- A question that is answered at once. -/
def asks (q : I.Query) : Co I (I.Answer q) := ask q ofExcept

/-- A question during which others move. -/
def awaits (q : I.Query) : Co I (I.Answer q) := await q ofExcept

/-- A loop. -/
def loop (i : I.Loop) : Co I Unit := call i ofExcept

/-- A coroutine where a condition holds. -/
def when (p : Prop) [Decidable p] (c : Co I Unit) : Co I Unit := if p then c else pure ()

/-- A coroutine over what is there. -/
def whenSome (o : Option β) (f : β → Co I Unit) : Co I Unit :=
  match o with
  | some b => f b
  | none => pure ()

/-- The coroutine waits. -/
def Waits : Co I α → Prop
  | await _ _ => True
  | _ => False

/-- One step of a coroutine, with the bodies of its loops and the answers there may be. -/
inductive Step (body : I.Loop → Co I Unit)
    (answers : (q : I.Query) → Except I.Exc (I.Answer q) → I.State → Prop) :
    Co I α × I.State → Co I α × I.State → Prop
  | get (next : I.State → Co I α) (s : I.State) : Step body answers (.get next, s) (next s, s)
  | put (next : Co I α) (s s' : I.State) : Step body answers (.put s' next, s) (next, s')
  | ask {q : I.Query} {r : Except I.Exc (I.Answer q)} {s : I.State} (h : answers q r s)
      (next : Except I.Exc (I.Answer q) → Co I α) : Step body answers (.ask q next, s) (next r, s)
  | await {q : I.Query} {r : Except I.Exc (I.Answer q)} {s : I.State} (h : answers q r s)
      (next : Except I.Exc (I.Answer q) → Co I α) : Step body answers (.await q next, s) (next r, s)
  | call (i : I.Loop) (next : Except I.Exc Unit → Co I α) (s : I.State) :
      Step body answers (.call i next, s) ((body i).handle next, s)

/-! ### Assertions -/

/-- The conditions of a proof: what others may do, what each write keeps to, the answers there may
be, and for each loop what it needs and what it then comes to. -/
structure Rules (I : Interface) where
  rely : I.State → I.State → Prop
  guar : I.State → I.State → Prop
  answers : (q : I.Query) → Except I.Exc (I.Answer q) → I.State → Prop
  pre : I.Loop → I.State → Prop
  post : I.Loop → I.State → Except I.Exc Unit → I.State → Prop

variable {R : Rules I}

/-- Under the rules `R` the coroutine keeps to the guarantee, and when it ends, `post` holds. -/
def Holds (R : Rules I) (c : Co I α) (post : Except I.Exc α → I.State → Prop)
    (s : I.State) : Prop :=
  match c with
  | pure a => post (.ok a) s
  | throw e => post (.error e) s
  | get next => (next s).Holds R post s
  | put s' next => R.guar s s' ∧ next.Holds R post s'
  | ask q next => ∀ r, R.answers q r s → (next r).Holds R post s
  | await q next => ∀ s', Relation.ReflTransGen R.rely s s' → ∀ r, R.answers q r s' →
      (next r).Holds R post s'
  | call i next => R.pre i s ∧ ∀ r s', R.post i s r s' → (next r).Holds R post s'

variable {post post' : Except I.Exc α → I.State → Prop} {s s' : I.State} {c : Co I α}

theorem Holds.mono (hc : c.Holds R post s) (h : ∀ r s, post r s → post' r s) :
    c.Holds R post' s := by
  induction c generalizing s with
  | pure a => exact h _ _ hc
  | throw e => exact h _ _ hc
  | get next ih => exact ih s hc
  | put s' next ih => exact ⟨hc.1, ih hc.2⟩
  | ask q next ih => exact fun r hr => ih r (hc r hr)
  | await q next ih => exact fun s' hs' r hr => ih r (hc s' hs' r hr)
  | call i next ih => exact ⟨hc.1, fun r s' hr => ih r (hc.2 r s' hr)⟩

/-- An assertion about a composition is one about its first part. -/
theorem holds_handle {k : Except I.Exc α → Co I β} {post : Except I.Exc β → I.State → Prop} :
    (c.handle k).Holds R post s ↔ c.Holds R (fun r s' => (k r).Holds R post s') s := by
  induction c generalizing s with
  | pure a => exact Iff.rfl
  | throw e => exact Iff.rfl
  | get next ih => exact ih s
  | put s' next ih => exact and_congr_right fun _ => ih
  | ask q next ih => exact forall_congr' fun r => forall_congr' fun _ => ih r
  | await q next ih =>
    exact forall_congr' fun s' => forall_congr' fun _ => forall_congr' fun r =>
      forall_congr' fun _ => ih r
  | call i next ih =>
    exact and_congr_right fun _ => forall_congr' fun r => forall_congr' fun s' =>
      forall_congr' fun _ => ih r

/-- A coroutine that waits does not notice what others do. -/
theorem Holds.rely (hc : c.Holds R post s) (hwaits : c.Waits)
    (h : Relation.ReflTransGen R.rely s s') : c.Holds R post s' := by
  cases c with
  | await q next => exact fun t ht r hr => hc t (h.trans ht) r hr
  | _ => exact hwaits.elim

/-- A step keeps to the guarantee, and the assertion goes with it, when the loops come to what the
rules say of them. -/
theorem Holds.step {body : I.Loop → Co I Unit}
    (hbody : ∀ i s, R.pre i s → (body i).Holds R (R.post i s) s) {c' : Co I α}
    (hc : c.Holds R post s) (h : Step body R.answers (c, s) (c', s')) :
    (s' = s ∨ R.guar s s') ∧ c'.Holds R post s' := by
  cases h with
  | get next => exact ⟨.inl rfl, hc⟩
  | put => exact ⟨.inr hc.1, hc.2⟩
  | ask hr next => exact ⟨.inl rfl, hc _ hr⟩
  | await hr next => exact ⟨.inl rfl, hc _ .refl _ hr⟩
  | call i next =>
    refine ⟨.inl rfl, holds_handle.mpr ((hbody i s hc.1).mono ?_)⟩
    exact fun r s' hr => hc.2 r s' hr

/-! ### The ways of putting coroutines together -/

@[simp] theorem holds_pure {a : α} :
    (Pure.pure a : Co I α).Holds R post s ↔ post (.ok a) s :=
  Iff.rfl

@[simp] theorem holds_throw {e : I.Exc} : (throw e : Co I α).Holds R post s ↔ post (.error e) s :=
  Iff.rfl

theorem holds_ofExcept {r : Except I.Exc α} : (ofExcept r).Holds R post s ↔ post r s := by
  cases r <;> rfl

theorem holds_bind {f : α → Co I β} {post : Except I.Exc β → I.State → Prop} :
    (c >>= f).Holds R post s ↔ c.Holds R (fun r s' =>
      match r with
      | .ok a => (f a).Holds R post s'
      | .error e => post (.error e) s') s := by
  refine holds_handle.trans (iff_of_eq (congrArg (c.Holds R · s) (funext fun r => ?_)))
  cases r <;> rfl

theorem holds_catching {handler : I.Exc → Co I α} :
    (c.catching handler).Holds R post s ↔ c.Holds R (fun r s' =>
      match r with
      | .ok a => post (.ok a) s'
      | .error e => (handler e).Holds R post s') s := by
  refine holds_handle.trans (iff_of_eq (congrArg (c.Holds R · s) (funext fun r => ?_)))
  cases r <;> rfl

theorem holds_ending {last : Co I Unit} :
    (c.ending last).Holds R post s ↔ c.Holds R (fun r s' => last.Holds R (fun r' s'' =>
      match r' with
      | .ok _ => post r s''
      | .error e => post (.error e) s'') s') s := by
  refine holds_handle.trans
    (iff_of_eq (congrArg (c.Holds R · s) (funext fun r => funext fun s' => ?_)))
  refine propext (holds_bind.trans (iff_of_eq (congrArg (last.Holds R · s') (funext fun r' => ?_))))
  cases r' with
  | ok u => exact funext fun s'' => propext holds_ofExcept
  | error e => rfl

@[simp] theorem holds_gets {f : I.State → α} :
    (gets f).Holds R post s ↔ post (.ok (f s)) s :=
  Iff.rfl

theorem holds_modify {f : I.State → I.State} {post : Except I.Exc Unit → I.State → Prop} :
    (modify f).Holds R post s ↔ R.guar s (f s) ∧ post (.ok ()) (f s) := Iff.rfl

theorem holds_asks {q : I.Query} {post : Except I.Exc (I.Answer q) → I.State → Prop} :
    (asks q).Holds R post s ↔ ∀ r, R.answers q r s → post r s :=
  forall_congr' fun _ => forall_congr' fun _ => holds_ofExcept

theorem holds_awaits {q : I.Query} {post : Except I.Exc (I.Answer q) → I.State → Prop} :
    (awaits q).Holds R post s ↔
      ∀ s', Relation.ReflTransGen R.rely s s' → ∀ r, R.answers q r s' → post r s' :=
  forall_congr' fun _ => forall_congr' fun _ => forall_congr' fun _ => forall_congr' fun _ =>
    holds_ofExcept

theorem holds_loop {i : I.Loop} {post : Except I.Exc Unit → I.State → Prop} :
    (loop i).Holds R post s ↔ R.pre i s ∧ ∀ r s', R.post i s r s' → post r s' :=
  and_congr_right fun _ => forall_congr' fun _ => forall_congr' fun _ => forall_congr' fun _ =>
    holds_ofExcept

theorem holds_when {p : Prop} [Decidable p] {c : Co I Unit}
    {post : Except I.Exc Unit → I.State → Prop} :
    (when p c).Holds R post s ↔ (p → c.Holds R post s) ∧ (¬ p → post (.ok ()) s) := by
  rw [when]
  split_ifs with hp
  · exact ⟨fun h => ⟨fun _ => h, fun hn => absurd hp hn⟩, fun h => h.1 hp⟩
  · exact ⟨fun h => ⟨fun h' => absurd h' hp, fun _ => h⟩, fun h => h.2 hp⟩

theorem holds_whenSome {o : Option β} {f : β → Co I Unit}
    {post : Except I.Exc Unit → I.State → Prop} :
    (whenSome o f).Holds R post s ↔
      (∀ b, o = some b → (f b).Holds R post s) ∧ (o = none → post (.ok ()) s) := by
  cases o with
  | none => exact ⟨fun h => ⟨fun b hb => (nomatch hb), fun _ => h⟩, fun h => h.2 rfl⟩
  | some b =>
    refine ⟨fun h => ⟨fun b' hb => ?_, fun hb => (nomatch hb)⟩, fun h => h.1 b rfl⟩
    rwa [← Option.some.inj hb]

/-- A composition, by an assertion in the middle. -/
theorem Holds.bind {f : α → Co I β} {M : Except I.Exc α → I.State → Prop}
    {post : Except I.Exc β → I.State → Prop} (hc : c.Holds R M s)
    (hok : ∀ a s', M (.ok a) s' → (f a).Holds R post s')
    (herror : ∀ e s', M (.error e) s' → post (.error e) s') : (c >>= f).Holds R post s :=
  holds_bind.mpr (hc.mono fun r s' hr =>
    match r with
    | .ok a => hok a s' hr
    | .error e => herror e s' hr)

/-- A handler, by an assertion about what it is for. -/
theorem Holds.catching {handler : I.Exc → Co I α} {M : Except I.Exc α → I.State → Prop}
    (hc : c.Holds R M s) (hok : ∀ a s', M (.ok a) s' → post (.ok a) s')
    (herror : ∀ e s', M (.error e) s' → (handler e).Holds R post s') :
    (c.catching handler).Holds R post s :=
  holds_catching.mpr (hc.mono fun r s' hr =>
    match r with
    | .ok a => hok a s' hr
    | .error e => herror e s' hr)

/-- An assertion that no one else breaks is still there after a wait. -/
theorem holds_awaits_of_stable {P : I.State → Prop} (hP : ∀ {s s'}, P s → R.rely s s' → P s')
    {q : I.Query} {post : Except I.Exc (I.Answer q) → I.State → Prop} (hs : P s)
    (h : ∀ s' r, P s' → R.answers q r s' → post r s') : (awaits q).Holds R post s := by
  refine holds_awaits.mpr fun s' hs' r hr => h s' r ?_ hr
  clear h hr
  induction hs' with
  | refl => exact hs
  | tail _ hstep ih => exact hP ih hstep

/-! ### Playing -/

section Play

variable {body : I.Loop → Co I Unit}
  {answers : (q : I.Query) → Except I.Exc (I.Answer q) → I.State → Prop}
  {moves : I.State → I.State → Prop}

/-- A step of a coroutine, or a move of the others while it waits. -/
inductive Turn (body : I.Loop → Co I Unit)
    (answers : (q : I.Query) → Except I.Exc (I.Answer q) → I.State → Prop)
    (moves : I.State → I.State → Prop) : Co I α × I.State → Co I α × I.State → Prop
  | step {x y : Co I α × I.State} (h : Step body answers x y) : Turn body answers moves x y
  | moves {c : Co I α} {s s' : I.State} (hwaits : c.Waits) (h : moves s s') :
      Turn body answers moves (c, s) (c, s')

/-- Who plays the world: how others have moved by the end of an await, and what is answered. -/
structure Player (answers : (q : I.Query) → Except I.Exc (I.Answer q) → I.State → Prop)
    (moves : I.State → I.State → Prop) where
  move : I.Query → (s : I.State) → { s' // Relation.ReflTransGen moves s s' }
  answer : (q : I.Query) → (s : I.State) → Option { r // answers q r s }

/-- At most `n` steps of a coroutine. It stops where it ends or is not answered. -/
def play (body : I.Loop → Co I Unit) (w : Player answers moves) :
    ℕ → Co I α × I.State → Co I α × I.State
  | 0, x => x
  | n + 1, (get next, s) => play body w n (next s, s)
  | n + 1, (put s' next, _) => play body w n (next, s')
  | n + 1, (ask q next, s) =>
    match w.answer q s with
    | some r => play body w n (next r, s)
    | none => (ask q next, s)
  | n + 1, (await q next, s) =>
    match w.answer q (w.move q s) with
    | some r => play body w n (next r, w.move q s)
    | none => (await q next, s)
  | n + 1, (call i next, s) => play body w n ((body i).handle next, s)
  | _ + 1, x => x

/-- What is played is a run. -/
theorem play_turns (w : Player answers moves) (n : ℕ) (x : Co I α × I.State) :
    Relation.ReflTransGen (Turn body answers moves) x (play body w n x) := by
  induction n generalizing x with
  | zero => exact .refl
  | succ n ih =>
    obtain ⟨c, s⟩ := x
    cases c with
    | pure a => exact .refl
    | throw e => exact .refl
    | get next => exact (ih _).head (.step (.get next s))
    | put s' next => exact (ih _).head (.step (.put next s s'))
    | call i next => exact (ih _).head (.step (.call i next s))
    | ask q next =>
      rw [play]
      cases w.answer q s with
      | none => exact .refl
      | some r => exact (ih _).head (.step (.ask r.2 next))
    | await q next =>
      rw [play]
      cases w.answer q (w.move q s) with
      | none => exact .refl
      | some r =>
        have hmoves : Relation.ReflTransGen (Turn body answers moves) (await q next, s)
            (await q next, ↑(w.move q s)) :=
          (w.move q s).2.lift _ fun _ _ h => .moves trivial h
        exact hmoves.trans ((ih _).head (.step (.await r.2 next)))

end Play

end Co
