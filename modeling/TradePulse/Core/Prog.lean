import Mathlib.Logic.Basic

/-! # Programs that act through calls

A program either returns, raises, or makes one call of its environment and
goes on with the answer; the answer may itself be an exception, which the
program may catch. The code of a service is translated into this monad once;
what a call does, what other parties do between two calls, and where a run is
cut off, is decided by the semantics the program is put under. -/
namespace TradePulse.Core

theorem except_bind_ok {ε α β : Type} {x : Except ε α} {f : α → Except ε β} {b : β} :
    (x >>= f) = .ok b ↔ ∃ a, x = .ok a ∧ f a = .ok b := by
  cases x with
  | ok a => simp [bind, Except.bind]
  | error e => simp [bind, Except.bind]

inductive Prog (ι : Type) (ρ : ι → Type) (ε α : Type) : Type where
  | ret (a : α) : Prog ι ρ ε α
  | raise (e : ε) : Prog ι ρ ε α
  | call (i : ι) (k : Except ε (ρ i) → Prog ι ρ ε α) : Prog ι ρ ε α

namespace Prog

variable {ι : Type} {ρ : ι → Type} {ε α β γ : Type}

def bind : Prog ι ρ ε α → (α → Prog ι ρ ε β) → Prog ι ρ ε β
  | .ret a, f => f a
  | .raise e, _ => .raise e
  | .call i k, f => .call i fun r => (k r).bind f

/-- `try p catch e => h e`: exceptions of `p`, its own and those its calls
answer with, are handed to `h`. -/
def tryCatch : Prog ι ρ ε α → (ε → Prog ι ρ ε α) → Prog ι ρ ε α
  | .ret a, _ => .ret a
  | .raise e, h => h e
  | .call i k, h => .call i fun r => (k r).tryCatch h

instance : Monad (Prog ι ρ ε) where
  pure := .ret
  bind := .bind

instance : MonadExceptOf ε (Prog ι ρ ε) where
  throw := .raise
  tryCatch := .tryCatch

/-- Make one call; an exceptional answer propagates. -/
def perform (i : ι) : Prog ι ρ ε (ρ i) :=
  .call i fun
    | .ok r => .ret r
    | .error e => .raise e

/-- Make one call and hand its answer, exceptional or not, to the program. -/
def attempt (i : ι) : Prog ι ρ ε (Except ε (ρ i)) := .call i .ret

/-- A pure computation that may raise. -/
def ofExcept : Except ε α → Prog ι ρ ε α
  | .ok a => .ret a
  | .error e => .raise e

@[simp] theorem pure_eq (a : α) : (pure a : Prog ι ρ ε α) = .ret a := rfl
@[simp] theorem throw_eq (e : ε) : (throw e : Prog ι ρ ε α) = .raise e := rfl
@[simp] theorem ret_bind (a : α) (f : α → Prog ι ρ ε β) : (Prog.ret a >>= f) = f a := rfl
@[simp] theorem raise_bind (e : ε) (f : α → Prog ι ρ ε β) :
    (Prog.raise e >>= f) = .raise e := rfl
@[simp] theorem call_bind (i : ι) (k : Except ε (ρ i) → Prog ι ρ ε α) (f : α → Prog ι ρ ε β) :
    (Prog.call i k >>= f) = .call i fun r => k r >>= f := rfl

theorem perform_bind (i : ι) (f : ρ i → Prog ι ρ ε β) :
    (perform i >>= f) = .call i fun
      | .ok r => f r
      | .error e => .raise e := by
  simp only [perform, call_bind]
  congr 1
  funext r
  cases r <;> rfl

theorem bind_assoc (p : Prog ι ρ ε α) (f : α → Prog ι ρ ε β) (g : β → Prog ι ρ ε γ) :
    (p >>= f >>= g) = (p >>= fun a => f a >>= g) := by
  induction p with
  | ret a => rfl
  | raise e => rfl
  | call i k ih =>
    simp only [call_bind]
    congr 1
    funext r
    exact ih r

theorem map_bind (f : α → β) (p : Prog ι ρ ε α) (g : β → Prog ι ρ ε γ) :
    (f <$> p >>= g) = (p >>= fun a => g (f a)) := bind_assoc p _ g

/-! ## Programs that make only some calls -/

/-- Every call the program can come to make meets `P`. -/
def Only (P : ι → Prop) : Prog ι ρ ε α → Prop
  | .ret _ | .raise _ => True
  | .call i k => P i ∧ ∀ r, (k r).Only P

section Only

variable {P : ι → Prop}

theorem Only.bind {p : Prog ι ρ ε α} {f : α → Prog ι ρ ε β} (hp : p.Only P)
    (hf : ∀ a, (f a).Only P) : (p >>= f).Only P := by
  induction p with
  | ret a => exact hf a
  | raise e => trivial
  | call i k ih => exact ⟨hp.1, fun r => ih r (hp.2 r)⟩

theorem Only.map {p : Prog ι ρ ε α} {f : α → β} (hp : p.Only P) : (f <$> p).Only P :=
  hp.bind fun _ => trivial

theorem only_perform {i : ι} (h : P i) : (perform i : Prog ι ρ ε (ρ i)).Only P := by
  refine ⟨h, fun r => ?_⟩
  cases r <;> trivial

theorem only_ofExcept (x : Except ε α) : (ofExcept x : Prog ι ρ ε α).Only P := by
  cases x <;> trivial

theorem only_ret (a : α) : (Prog.ret a : Prog ι ρ ε α).Only P := trivial

theorem only_true (p : Prog ι ρ ε α) : p.Only fun _ => True := by
  induction p with
  | ret a => trivial
  | raise e => trivial
  | call i k ih => exact ⟨trivial, ih⟩

end Only

/-! ## Traces of answered calls -/

/-- One answered call, with what the environment notes about it. -/
structure Event (ι : Type) (ρ : ι → Type) (ν : Type) where
  stmt : ι
  res : ρ stmt
  note : ν

variable {ν : Type}

/-- `p` makes the calls of the trace, in this order and with these answers,
and is then at `q`. -/
def Follows : Prog ι ρ ε α → List (Event ι ρ ν) → Prog ι ρ ε α → Prop
  | p, [], q => p = q
  | p, e :: es, q => ∃ k, p = .call e.stmt k ∧ Follows (k (.ok e.res)) es q

theorem Follows.snoc {p : Prog ι ρ ε α} {es : List (Event ι ρ ν)} {i : ι}
    {k : Except ε (ρ i) → Prog ι ρ ε α} (h : Follows p es (.call i k)) (r : ρ i) (n : ν) :
    Follows p (es ++ [⟨i, r, n⟩]) (k (.ok r)) := by
  induction es generalizing p with
  | nil => exact ⟨k, h, rfl⟩
  | cons e es ih =>
    obtain ⟨k', hk, hrest⟩ := h
    exact ⟨k', hk, ih hrest⟩

/-- The calls of a trace are calls that the program can come to make. -/
theorem Only.follows {P : ι → Prop} {p q : Prog ι ρ ε α} {es : List (Event ι ρ ν)}
    (hp : p.Only P) (h : Follows p es q) : ∀ e ∈ es, P e.stmt := by
  induction es generalizing p with
  | nil => exact fun e he => absurd he List.not_mem_nil
  | cons e es ih =>
    obtain ⟨k, rfl, hrest⟩ := h
    exact List.forall_mem_cons.mpr ⟨hp.1, ih (hp.2 _) hrest⟩

/-! Inversion of a complete trace, one rule for each way a program starts. -/

@[simp] theorem follows_ret (a b : α) (es : List (Event ι ρ ν)) :
    Follows (.ret a : Prog ι ρ ε α) es (.ret b) ↔ es = [] ∧ a = b := by
  cases es with
  | nil => simp [Follows]
  | cons e es => simp [Follows]

@[simp] theorem follows_raise (e : ε) (b : α) (es : List (Event ι ρ ν)) :
    ¬ Follows (.raise e : Prog ι ρ ε α) es (.ret b) := by
  cases es with
  | nil => simp [Follows]
  | cons e es => simp [Follows]

theorem Follows.perform {i : ι} {f : ρ i → Prog ι ρ ε α} {b : α} {es : List (Event ι ρ ν)}
    (h : Follows (perform i >>= f) es (.ret b)) :
    ∃ r n es', Follows (f r) es' (.ret b) ∧ es = ⟨i, r, n⟩ :: es' := by
  rw [perform_bind] at h
  cases es with
  | nil => cases h
  | cons e es =>
    obtain ⟨j, r, n⟩ := e
    obtain ⟨k, hk, hrest⟩ := h
    cases hk
    exact ⟨r, n, es, hrest, rfl⟩

theorem follows_map {f : α → β} {p : Prog ι ρ ε α} {es : List (Event ι ρ ν)} {b : β}
    (h : Follows (f <$> p) es (.ret b)) : ∃ a, Follows p es (.ret a) ∧ f a = b := by
  induction p generalizing es with
  | ret a => exact ⟨a, by simpa using ((follows_ret (f a) b es).mp h).1, (follows_ret _ b es).mp h |>.2⟩
  | raise e => exact absurd h (follows_raise e b es)
  | call i k ih =>
    cases es with
    | nil => cases h
    | cons e es =>
      obtain ⟨k', hk, h⟩ := h
      cases hk
      obtain ⟨a, ha, hb⟩ := ih _ h
      exact ⟨a, ⟨_, rfl, ha⟩, hb⟩

/-! ## Evaluation -/

section Eval

variable {σ : Type} {answer : (i : ι) → σ → Except ε (ρ i) × σ}

/-- The program run to its end, each call answered by `answer`. -/
def eval (answer : (i : ι) → σ → Except ε (ρ i) × σ) : Prog ι ρ ε α → σ → Except ε α × σ
  | .ret a, w => (.ok a, w)
  | .raise e, w => (.error e, w)
  | .call i k, w => (k (answer i w).1).eval answer (answer i w).2

/-- The calls it makes on the way. -/
def calls (answer : (i : ι) → σ → Except ε (ρ i) × σ) : Prog ι ρ ε α → σ → List ι
  | .ret _, _ | .raise _, _ => []
  | .call i k, w => i :: (k (answer i w).1).calls answer (answer i w).2

@[simp] theorem eval_ret (a : α) (w : σ) :
    (Prog.ret a : Prog ι ρ ε α).eval answer w = (.ok a, w) := rfl
@[simp] theorem eval_raise (e : ε) (w : σ) :
    (Prog.raise e : Prog ι ρ ε α).eval answer w = (.error e, w) := rfl

/-- A program that returns, and what follows. -/
theorem eval_bind_ok {p : Prog ι ρ ε α} {f : α → Prog ι ρ ε β} {w w' : σ} {a : α}
    (h : p.eval answer w = (.ok a, w')) : (p >>= f).eval answer w = (f a).eval answer w' := by
  induction p generalizing w with
  | ret b =>
    cases h
    rfl
  | raise e => cases h
  | call i k ih => exact ih _ h

/-- A program that raises. -/
theorem eval_bind_error {p : Prog ι ρ ε α} {f : α → Prog ι ρ ε β} {w w' : σ} {e : ε}
    (h : p.eval answer w = (.error e, w')) : (p >>= f).eval answer w = (.error e, w') := by
  induction p generalizing w with
  | ret b => cases h
  | raise e' =>
    cases h
    rfl
  | call i k ih => exact ih _ h

theorem eval_map_ok {p : Prog ι ρ ε α} {f : α → β} {w w' : σ} {a : α}
    (h : p.eval answer w = (.ok a, w')) : (f <$> p).eval answer w = (.ok (f a), w') :=
  eval_bind_ok h

theorem eval_map_error {p : Prog ι ρ ε α} {f : α → β} {w w' : σ} {e : ε}
    (h : p.eval answer w = (.error e, w')) : (f <$> p).eval answer w = (.error e, w') :=
  eval_bind_error h

theorem eval_map_world (p : Prog ι ρ ε α) (f : α → β) (w : σ) :
    ((f <$> p).eval answer w).2 = (p.eval answer w).2 := by
  cases h : p.eval answer w with
  | mk r w' =>
    cases r with
    | ok a => rw [eval_map_ok h]
    | error e => rw [eval_map_error h]

theorem eval_perform {i : ι} {w : σ} : (perform i).eval answer w = answer i w := by
  rw [perform, eval]
  cases h : (answer i w).1 with
  | ok r => exact congrArg (·, (answer i w).2) h.symm
  | error e => exact congrArg (·, (answer i w).2) h.symm

theorem eval_ofExcept (x : Except ε α) (w : σ) :
    (ofExcept x : Prog ι ρ ε α).eval answer w = (x, w) := by
  cases x <;> rfl

/-- What every call the program may make keeps. -/
theorem Only.eval {P : ι → Prop} {A : σ → Prop} (hA : ∀ i w, P i → A w → A (answer i w).2)
    {p : Prog ι ρ ε α} (hp : p.Only P) {w : σ} (h : A w) : A (p.eval answer w).2 := by
  induction p generalizing w with
  | ret a => exact h
  | raise e => exact h
  | call i k ih => exact ih _ (hp.2 _) (hA i w hp.1 h)

end Eval

end Prog
end TradePulse.Core
