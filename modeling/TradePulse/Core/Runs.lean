import Mathlib.Logic.Basic

/-! # Runs of a guarded step function

A component is a partial step function `step : α → σ → Option σ` (the label
resolves every choice the environment makes) and a guard `ok` on the steps of
a run. An invariant is proved once from its initial states and its steps; a
concrete schedule is executed by `run`, and what it reaches is reachable. -/
namespace TradePulse.Core.Runs

variable {σ α : Type}

/-- The states of the runs from `init` all of whose steps meet `ok`. -/
inductive Reach (step : α → σ → Option σ) (ok : σ → α → Prop) (init : σ → Prop) : σ → Prop
  | init {s : σ} : init s → Reach step ok init s
  | step {s t : σ} {a : α} : Reach step ok init s → ok s a → step a s = some t →
      Reach step ok init t

/-- Every step is admitted. -/
def anyStep : σ → α → Prop := fun _ _ => True

instance (s : σ) (a : α) : Decidable (anyStep s a) := .isTrue trivial

variable {step : α → σ → Option σ} {ok ok' : σ → α → Prop} {init init' : σ → Prop}

/-- What holds initially and is kept by every admitted step holds in every
state of every run. -/
theorem Reach.invariant {I : σ → Prop} (hinit : ∀ s, init s → I s)
    (hstep : ∀ s a t, I s → ok s a → step a s = some t → I t) {s : σ}
    (h : Reach step ok init s) : I s := by
  induction h with
  | init h => exact hinit _ h
  | step _ ha ht ih => exact hstep _ _ _ ih ha ht

/-- The same, where a step may use a second invariant already established. -/
theorem Reach.invariant_under {I J : σ → Prop} (hJ : ∀ s, Reach step ok init s → J s)
    (hinit : ∀ s, init s → I s)
    (hstep : ∀ s a t, J s → J t → I s → ok s a → step a s = some t → I t) {s : σ}
    (h : Reach step ok init s) : I s := by
  induction h with
  | init h => exact hinit _ h
  | step hs ha ht ih => exact hstep _ _ _ (hJ _ hs) (hJ _ (hs.step ha ht)) ih ha ht

theorem Reach.mono (hi : ∀ s, init s → init' s) (ho : ∀ s a, ok s a → ok' s a) {s : σ}
    (h : Reach step ok init s) : Reach step ok' init' s := by
  induction h with
  | init h => exact .init (hi _ h)
  | step _ ha ht ih => exact ih.step (ho _ _ ha) ht

/-- Execute a schedule; `none` when a step is not enabled or not admitted. -/
def run (step : α → σ → Option σ) (ok : σ → α → Prop) [∀ s a, Decidable (ok s a)] :
    List α → σ → Option σ
  | [], s => some s
  | a :: as, s => if ok s a then (step a s).bind (run step ok as) else none

theorem run_cons [∀ s a, Decidable (ok s a)] (a : α) (as : List α) (s : σ) :
    run step ok (a :: as) s = (run step ok [a] s).bind (run step ok as) := by
  simp only [Runs.run]
  split
  · cases step a s <;> rfl
  · rfl

theorem Reach.run [∀ s a, Decidable (ok s a)] :
    ∀ (as : List α) {s t : σ}, Reach step ok init s → run step ok as s = some t →
      Reach step ok init t
  | [], s, t, hs, h => by
    simp only [Runs.run, Option.some.injEq] at h
    exact h ▸ hs
  | a :: as, s, t, hs, h => by
    simp only [Runs.run] at h
    split at h
    · rename_i ha
      obtain ⟨m, hm, hrest⟩ := Option.bind_eq_some_iff.mp h
      exact Reach.run as (hs.step ha hm) hrest
    · cases h

/-- A schedule that ends in a state with a decidable property reaches one. -/
theorem Reach.exists_of_run (step : α → σ → Option σ) (ok : σ → α → Prop) (init : σ → Prop)
    [∀ s a, Decidable (ok s a)] (as : List α) {s : σ} (p : σ → Bool) (hs : init s)
    (h : (Runs.run step ok as s).any p = true) :
    ∃ t, Reach step ok init t ∧ p t = true := by
  cases hr : Runs.run step ok as s with
  | none => rw [hr] at h; cases h
  | some t => exact ⟨t, Reach.run as (.init hs) hr, by simpa [hr] using h⟩

end TradePulse.Core.Runs
