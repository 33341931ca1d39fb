import Mathlib.Data.List.Basic
import Mathlib.Tactic.Common

/-!
# Traces of a labelled transition system

A step relates a state to the next one and shows some labels, in order. A trace is a sequence of
steps with the labels they showed. This is the form in which the runs of every component here are
given: what must hold of a whole run is proved of one step and carried over by the rules below.

## Main results

* `Trace.trans` — traces compose
* `Trace.invariant` — a property kept by every step is kept by every trace
* `Trace.labels` — the same for a property of state and labels together
-/

/-- A sequence of steps, with the labels they showed. -/
inductive Trace {σ ℓ : Type*} (step : σ → List ℓ → σ → Prop) (s : σ) : List ℓ → σ → Prop
  | nil : Trace step s [] s
  | snoc {ls l : List ℓ} {t u : σ} : Trace step s ls t → step t l u → Trace step s (ls ++ l) u

namespace Trace

variable {σ ℓ : Type*} {step : σ → List ℓ → σ → Prop} {s t u : σ} {ls ls' : List ℓ}

theorem single {l : List ℓ} (h : step s l t) : Trace step s l t := snoc nil h

theorem trans (h : Trace step s ls t) (h' : Trace step t ls' u) : Trace step s (ls ++ ls') u := by
  induction h' with
  | nil => simpa using h
  | snoc _ hstep ih =>
    rw [← List.append_assoc]
    exact snoc ih hstep

/-- A property kept by every step is kept by every trace. -/
theorem invariant {I : σ → Prop} (hstep : ∀ {a l b}, I a → step a l b → I b)
    (h : Trace step s ls t) (hs : I s) : I t := by
  induction h with
  | nil => exact hs
  | snoc _ ha ih => exact hstep ih ha

/-- A property of the labels so far and the state, kept by every step. -/
theorem labels {I : List ℓ → σ → Prop}
    (hstep : ∀ {ls a l b}, I ls a → step a l b → I (ls ++ l) b)
    (h : Trace step s ls t) (hs : I [] s) : I ls t := by
  induction h with
  | nil => exact hs
  | snoc _ ha ih => exact hstep ih ha

/-- A trace of a finer relation is a trace of a coarser one. -/
theorem mono {step' : σ → List ℓ → σ → Prop} (hle : ∀ {a l b}, step a l b → step' a l b)
    (h : Trace step s ls t) : Trace step' s ls t := by
  induction h with
  | nil => exact nil
  | snoc _ ha ih => exact snoc ih (hle ha)

end Trace
