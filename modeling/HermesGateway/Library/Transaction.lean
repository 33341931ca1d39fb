import Mathlib.Order.Defs.Unbundled
import Mathlib.Tactic.Common

/-!
# Transactions

A transaction reads and writes a state and may fail; a failure loses what was written, so the
caller is left with the state it started from. The monad is `StateT` over `Except`, and what is
collected here is how to take a successful run apart, statement by statement.

## Main definitions

* `Tx` — the monad
* `Tx.refuse` — fail when a condition holds
* `Tx.Fails` — which failures a transaction can end with
* `Tx.Keeps` — how a successful transaction relates the state after to the state before
* `Tx.Commutes` — a transaction that looks at a projection of the state only
* `Tx.succeeds` — a check of the outcome, to be evaluated

## Main results

* `Tx.bind_eq_ok` — a sequence succeeds when both parts do, and how the state is handed on
* `Tx.refuse_eq_ok` — a check that was passed did not hold
* `Tx.Fails.bind` — which failures a sequence can end with
* `Tx.Keeps.bind` — a sequence keeps what both parts keep
* `Tx.Commutes.congr` — states with one projection cannot be told apart
* `Tx.forM_rec` — induction over the passes of a loop
-/

theorem Except.bind_eq_ok {ε α β : Type} {x : Except ε α} {f : α → Except ε β} {b : β} :
    x >>= f = .ok b ↔ ∃ a, x = .ok a ∧ f a = .ok b := by
  cases x <;> simp [bind, Except.bind]

/-- A transaction on `σ` that may fail with `ε`. -/
abbrev Tx (σ ε : Type) := StateT σ (Except ε)

namespace Tx

variable {σ ε α β : Type}

/-- Fail with `e` when `c` holds. -/
def refuse (c : Prop) [Decidable c] (e : ε) : Tx σ ε Unit := if c then throw e else pure ()

/-! ### Taking a successful run apart -/

theorem bind_eq_ok {m : Tx σ ε α} {f : α → Tx σ ε β} {s : σ} {r : β × σ} :
    (m >>= f) s = .ok r ↔ ∃ a s', m s = .ok (a, s') ∧ f a s' = .ok r := by
  change (m s >>= fun p => f p.1 p.2) = .ok r ↔ _
  cases h : m s with
  | error e => simp [bind, Except.bind]
  | ok p =>
    obtain ⟨a, t⟩ := p
    simp [bind, Except.bind]

theorem bind_of_ok {m : Tx σ ε α} {f : α → Tx σ ε β} {s s' : σ} {a : α}
    (h : m s = .ok (a, s')) : (m >>= f) s = f a s' := by
  change (m s >>= fun p => f p.1 p.2) = f a s'
  rw [h]
  rfl

theorem pure_eq_ok {a : α} {s : σ} {r : α × σ} :
    (pure a : Tx σ ε α) s = .ok r ↔ (a, s) = r := by
  change Except.ok (a, s) = .ok r ↔ _
  rw [Except.ok.injEq]

/-- A run that ends by returning a function of what it got. -/
theorem map_eq_ok {m : Tx σ ε α} {f : α → β} {s s' : σ} {b : β} :
    (do let a ← m; pure (f a) : Tx σ ε β) s = .ok (b, s') ↔ ∃ a, m s = .ok (a, s') ∧ f a = b := by
  rw [bind_eq_ok]
  constructor
  · rintro ⟨a, t, hm, hret⟩
    obtain ⟨rfl, rfl⟩ := Prod.mk.inj (pure_eq_ok.mp hret)
    exact ⟨a, hm, rfl⟩
  · rintro ⟨a, hm, rfl⟩
    exact ⟨a, s', hm, pure_eq_ok.mpr rfl⟩

theorem throw_eq_ok {e : ε} {s : σ} {r : α × σ} :
    (throw e : Tx σ ε α) s = .ok r ↔ False := by
  change (Except.error e : Except ε (α × σ)) = .ok r ↔ _
  simp

theorem modify_eq_ok {f : σ → σ} {s : σ} {r : Unit × σ} :
    (modify f : Tx σ ε Unit) s = .ok r ↔ ((), f s) = r := by
  change Except.ok ((), f s) = .ok r ↔ _
  rw [Except.ok.injEq]

theorem modifyGet_eq_ok {f : σ → α × σ} {s : σ} {r : α × σ} :
    (modifyGet f : Tx σ ε α) s = .ok r ↔ f s = r := by
  change Except.ok (f s) = .ok r ↔ _
  rw [Except.ok.injEq]

theorem refuse_eq_ok {c : Prop} [Decidable c] {e : ε} {s : σ} {r : Unit × σ} :
    refuse c e s = .ok r ↔ ¬ c ∧ ((), s) = r := by
  unfold refuse
  split_ifs with hc
  · simp [throw_eq_ok, hc]
  · simp [pure_eq_ok, hc]

theorem refuse_of_not {c : Prop} [Decidable c] {e : ε} {s : σ} (h : ¬ c) :
    refuse c e s = .ok ((), s) := refuse_eq_ok.mpr ⟨h, rfl⟩

/-- A check depends on whether its condition holds only. -/
theorem refuse_congr {c c' : Prop} [Decidable c] [Decidable c'] {e : ε} (h : c ↔ c') :
    (refuse c e : Tx σ ε Unit) = refuse c' e := by
  unfold refuse
  by_cases hc : c
  · rw [if_pos hc, if_pos (h.mp hc)]
  · rw [if_neg hc, if_neg fun hc' => hc (h.mpr hc')]

/-! ### Taking a failed run apart -/

theorem bind_eq_error {m : Tx σ ε α} {f : α → Tx σ ε β} {s : σ} {e : ε} :
    (m >>= f) s = .error e ↔ m s = .error e ∨ ∃ a s', m s = .ok (a, s') ∧ f a s' = .error e := by
  change (m s >>= fun p => f p.1 p.2) = .error e ↔ _
  cases h : m s with
  | error e' => simp [bind, Except.bind]
  | ok p =>
    obtain ⟨a, t⟩ := p
    simp [bind, Except.bind]

/-- A sequence whose first part does not fail fails in the second. -/
theorem error_of_bind {m : Tx σ ε α} {f : α → Tx σ ε β} {s : σ} {e : ε}
    (hm : ∀ e, m s ≠ .error e) (h : (m >>= f) s = .error e) :
    ∃ a s', m s = .ok (a, s') ∧ f a s' = .error e :=
  (bind_eq_error.mp h).resolve_left (hm e)

theorem pure_eq_error {a : α} {s : σ} {e : ε} : (pure a : Tx σ ε α) s = .error e ↔ False := by
  change (Except.ok (a, s) : Except ε (α × σ)) = .error e ↔ _
  simp

theorem map_eq_error {m : Tx σ ε α} {f : α → β} {s : σ} {e : ε} :
    (do let a ← m; pure (f a) : Tx σ ε β) s = .error e ↔ m s = .error e := by
  rw [bind_eq_error]
  refine or_iff_left ?_
  rintro ⟨a, s', -, hret⟩
  exact pure_eq_error.mp hret

theorem throw_eq_error {e e' : ε} {s : σ} : (throw e : Tx σ ε α) s = .error e' ↔ e = e' := by
  change (Except.error e : Except ε (α × σ)) = .error e' ↔ _
  rw [Except.error.injEq]

theorem modifyGet_eq_error {f : σ → α × σ} {s : σ} {e : ε} :
    (modifyGet f : Tx σ ε α) s = .error e ↔ False := by
  change (Except.ok (f s) : Except ε (α × σ)) = .error e ↔ _
  simp

theorem refuse_eq_error {c : Prop} [Decidable c] {e e' : ε} {s : σ} :
    refuse c e s = .error e' ↔ c ∧ e = e' := by
  unfold refuse
  split_ifs with hc
  · simp [throw_eq_error, hc]
  · simp [pure_eq_error, hc]

/-- A run that does not fail succeeds. -/
theorem exists_ok {m : Tx σ ε α} {s : σ} (h : ∀ e, m s ≠ .error e) :
    ∃ a s', m s = .ok (a, s') := by
  cases hm : m s with
  | ok p => exact ⟨p.1, p.2, rfl⟩
  | error e => exact absurd hm (h e)

/-! ### Failures -/

/-- Every failure of `m` is one of `E`. -/
def Fails (E : ε → Prop) (m : Tx σ ε α) : Prop := ∀ s e, m s = .error e → E e

variable {E : ε → Prop}

theorem Fails.bind {m : Tx σ ε α} {f : α → Tx σ ε β} (hm : Fails E m) (hf : ∀ a, Fails E (f a)) :
    Fails E (m >>= f) := by
  intro s e h
  change (m s >>= fun p => f p.1 p.2) = .error e at h
  cases hms : m s with
  | error e' =>
    rw [hms] at h
    obtain rfl : e' = e := Except.error.inj h
    exact hm s e' hms
  | ok p =>
    rw [hms] at h
    exact hf p.1 p.2 e h

theorem Fails.pure (a : α) : Fails E (Pure.pure a : Tx σ ε α) := by
  intro s e h
  change Except.ok (a, s) = .error e at h
  cases h

theorem Fails.modifyGet (f : σ → α × σ) : Fails E (MonadStateOf.modifyGet f : Tx σ ε α) := by
  intro s e h
  exact absurd h (by simp [MonadStateOf.modifyGet, StateT.modifyGet, Pure.pure, Except.pure])

theorem Fails.throw {e : ε} (he : E e) : Fails E (MonadExcept.throw e : Tx σ ε α) := by
  intro s e' h
  obtain rfl : e = e' := Except.error.inj h
  exact he

theorem Fails.refuse {c : Prop} [Decidable c] {e : ε} (he : E e) :
    Fails E (Tx.refuse c e : Tx σ ε Unit) := by
  unfold Tx.refuse
  split_ifs
  · exact Fails.throw he
  · exact Fails.pure ()

theorem Fails.ite {c : Prop} [Decidable c] {m m' : Tx σ ε α} (hm : Fails E m)
    (hm' : Fails E m') : Fails E (if c then m else m') := by
  split_ifs
  · exact hm
  · exact hm'

/-! ### What is kept -/

/-- A successful run of `m` leads to a state related by `I` to the one it started from. -/
def Keeps (I : σ → σ → Prop) (m : Tx σ ε α) : Prop := ∀ s a s', m s = .ok (a, s') → I s s'

section

variable {I : σ → σ → Prop}

theorem Keeps.throw (e : ε) : Keeps I (MonadExcept.throw e : Tx σ ε α) :=
  fun _ _ _ h => (throw_eq_ok.mp h).elim

theorem Keeps.modifyGet {f : σ → α × σ} (hf : ∀ s, I s (f s).2) :
    Keeps I (MonadStateOf.modifyGet f : Tx σ ε α) := by
  intro s a s' h
  have hs := hf s
  rw [modifyGet_eq_ok.mp h] at hs
  exact hs

theorem Keeps.ite {c : Prop} [Decidable c] {m m' : Tx σ ε α} (hm : Keeps I m)
    (hm' : Keeps I m') : Keeps I (if c then m else m') := by
  split_ifs
  · exact hm
  · exact hm'

variable [IsPreorder σ I]

theorem Keeps.pure (a : α) : Keeps I (Pure.pure a : Tx σ ε α) := by
  intro s b s' h
  obtain ⟨-, rfl⟩ := Prod.mk.inj (pure_eq_ok.mp h)
  exact refl s

theorem Keeps.bind {m : Tx σ ε α} {f : α → Tx σ ε β} (hm : Keeps I m) (hf : ∀ a, Keeps I (f a)) :
    Keeps I (m >>= f) := by
  intro s b s' h
  obtain ⟨a, t, hma, hfa⟩ := bind_eq_ok.mp h
  exact IsTrans.trans s t s' (hm s a t hma) (hf a t b s' hfa)

theorem Keeps.refuse {c : Prop} [Decidable c] {e : ε} : Keeps I (Tx.refuse c e : Tx σ ε Unit) := by
  unfold Tx.refuse
  split_ifs
  · exact Keeps.throw e
  · exact Keeps.pure ()

theorem Keeps.forM {f : α → Tx σ ε PUnit} (hf : ∀ a, Keeps I (f a)) (xs : List α) :
    Keeps I (xs.forM f) := by
  induction xs with
  | nil => exact Keeps.pure ()
  | cons x xs ih => exact (hf x).bind fun _ => ih

end

/-! ### Runs on a projection -/

/-- The run on the projection of a state is the projection of the run. -/
def Commutes (ρ : σ → σ) (m : Tx σ ε α) : Prop := ∀ s, m (ρ s) = (m s).map fun p => (p.1, ρ p.2)

section

variable {ρ : σ → σ}

/-- **States with one projection cannot be told apart**: the result is the same, and so is what
the projection shows of the state afterwards. -/
theorem Commutes.congr {m : Tx σ ε α} (h : Commutes ρ m) {s t : σ} (hst : ρ s = ρ t) :
    ((m s).map fun p => (p.1, ρ p.2)) = (m t).map fun p => (p.1, ρ p.2) := by
  rw [← h s, ← h t, hst]

theorem Commutes.pure (a : α) : Commutes ρ (Pure.pure a : Tx σ ε α) := fun _ => rfl

theorem Commutes.throw (e : ε) : Commutes ρ (MonadExcept.throw e : Tx σ ε α) := fun _ => rfl

theorem Commutes.bind {m : Tx σ ε α} {f : α → Tx σ ε β} (hm : Commutes ρ m)
    (hf : ∀ a, Commutes ρ (f a)) : Commutes ρ (m >>= f) := by
  intro s
  change (m (ρ s) >>= fun p => f p.1 p.2) = ((m s >>= fun p => f p.1 p.2).map fun p => (p.1, ρ p.2))
  rw [hm s]
  cases m s with
  | error e => rfl
  | ok p => exact hf p.1 p.2

theorem Commutes.refuse {c : Prop} [Decidable c] {e : ε} :
    Commutes ρ (Tx.refuse c e : Tx σ ε Unit) := by
  unfold Tx.refuse
  split_ifs
  · exact Commutes.throw e
  · exact Commutes.pure ()

theorem Commutes.ite {c : Prop} [Decidable c] {m m' : Tx σ ε α} (hm : Commutes ρ m)
    (hm' : Commutes ρ m') : Commutes ρ (if c then m else m') := by
  split_ifs
  · exact hm
  · exact hm'

theorem Commutes.modifyGet {f : σ → α × σ} (hf : ∀ s, f (ρ s) = ((f s).1, ρ (f s).2)) :
    Commutes ρ (MonadStateOf.modifyGet f : Tx σ ε α) := fun s => congrArg Except.ok (hf s)

/-- What is read of the state may differ, if what is made of it does not. -/
theorem Commutes.read {g : σ → β} {f : β → Tx σ ε α} (hf : ∀ s, f (g (ρ s)) = f (g s))
    (h : ∀ b, Commutes ρ (f b)) :
    Commutes ρ ((MonadStateOf.modifyGet fun s => (g s, s) : Tx σ ε β) >>= f) := by
  intro s
  change f (g (ρ s)) (ρ s) = (f (g s) s).map _
  rw [hf]
  exact h (g s) s

end

/-! ### Running one -/

/-- Whether the outcome is a success of which `p` holds. -/
def succeeds (r : Except ε (α × σ)) (p : α → σ → Bool) : Bool :=
  match r with
  | .ok (a, s) => p a s
  | .error _ => false

theorem exists_of_succeeds {r : Except ε (α × σ)} {p : α → σ → Bool} (h : succeeds r p = true) :
    ∃ a s, r = .ok (a, s) ∧ p a s = true := by
  cases r with
  | ok x => exact ⟨x.1, x.2, rfl, h⟩
  | error e => cases h

/-! ### Loops -/

/-- What holds at the end of a loop, and before each pass when it holds after it, holds before
the loop. -/
theorem forM_rec {f : α → Tx σ ε PUnit} {s' : σ} {I : List α → σ → Prop} (hnil : I [] s')
    (hcons : ∀ x xs s t, f x s = .ok ((), t) → I xs t → I (x :: xs) s) :
    ∀ (xs : List α) (s : σ), xs.forM f s = .ok ((), s') → I xs s := by
  intro xs
  induction xs with
  | nil =>
    intro s h
    obtain ⟨-, rfl⟩ := Prod.mk.inj (pure_eq_ok.mp h)
    exact hnil
  | cons x xs ih =>
    intro s h
    obtain ⟨_, t, hx, hxs⟩ := bind_eq_ok.mp h
    exact hcons x xs s t hx (ih t hxs)

end Tx
