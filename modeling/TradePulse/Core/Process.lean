import TradePulse.Core.Prog
import TradePulse.Core.Runs
import Mathlib.Logic.Relation

/-! # A process that calls into a shared world and may crash

One process serves calls, one at a time; each runs a program whose own calls
are answered by the world. Between two of them the environment changes the
world, and the process may die, which leaves what the world already holds and
nothing else. `Safe` is the crash-aware weakest precondition of a program:
what has to hold wherever the process may be cut off, and what holds when the
program is through. Proved once for the program of each call, it gives an
invariant of every run. -/
namespace TradePulse.Core.Process
open TradePulse.Core TradePulse.Core.Prog TradePulse.Core.Runs

/-- `exec` answers a call, given the choice `ω` the world makes (`none` when it
cannot make it); `enter`, `leave` and `crash` are what the world records of the
process itself. -/
structure Machine (ι : Type) (ρ : ι → Type) (ε κ ω η σ α : Type) where
  code : κ → Prog ι ρ ε α
  exec : (i : ι) → ω → σ → Option (Except ε (ρ i) × σ)
  enter : κ → σ → σ
  leave : Except ε α → σ → σ
  crash : σ → σ
  env : η → σ → Option σ

structure State (ι : Type) (ρ : ι → Type) (ε σ α : Type) where
  world : σ
  running : Option (Prog ι ρ ε α)

inductive Act (κ ω η : Type) where
  | enter (c : κ)
  | call (o : ω)
  | leave
  | crash
  | env (e : η)

variable {ι : Type} {ρ : ι → Type} {ε κ ω η σ α β : Type}

def step (M : Machine ι ρ ε κ ω η σ α) : Act κ ω η → State ι ρ ε σ α → Option (State ι ρ ε σ α)
  | .enter c, ⟨w, none⟩ => some ⟨M.enter c w, some (M.code c)⟩
  | .call o, ⟨w, some (.call i k)⟩ => (M.exec i o w).map fun a => ⟨a.2, some (k a.1)⟩
  | .leave, ⟨w, some (.ret a)⟩ => some ⟨M.leave (.ok a) w, none⟩
  | .leave, ⟨w, some (.raise e)⟩ => some ⟨M.leave (.error e) w, none⟩
  | .crash, ⟨w, _⟩ => some ⟨M.crash w, none⟩
  | .env e, ⟨w, p⟩ => (M.env e w).map fun w' => ⟨w', p⟩
  | _, _ => none

/-- Conditions on the steps of a run, each on the world before the step. -/
structure Guard (ι κ ω η σ : Type) where
  enter : κ → σ → Prop
  call : ι → ω → σ → Prop
  crash : σ → Prop
  env : η → σ → Prop

/-- Every step is admitted. -/
def Guard.any : Guard ι κ ω η σ :=
  ⟨fun _ _ => True, fun _ _ _ => True, fun _ => True, fun _ _ => True⟩

def Guard.ok (G : Guard ι κ ω η σ) : State ι ρ ε σ α → Act κ ω η → Prop
  | s, .enter c => G.enter c s.world
  | ⟨w, some (.call i _)⟩, .call o => G.call i o w
  | s, .crash => G.crash s.world
  | s, .env e => G.env e s.world
  | _, _ => True

instance (G : Guard ι κ ω η σ) [∀ c w, Decidable (G.enter c w)]
    [∀ i o w, Decidable (G.call i o w)] [∀ w, Decidable (G.crash w)]
    [∀ e w, Decidable (G.env e w)] (s : State ι ρ ε σ α) (a : Act κ ω η) :
    Decidable (G.ok s a) := by
  unfold Guard.ok
  split <;> infer_instance

instance (c : κ) (w : σ) : Decidable ((Guard.any : Guard ι κ ω η σ).enter c w) := .isTrue trivial
instance (i : ι) (o : ω) (w : σ) : Decidable ((Guard.any : Guard ι κ ω η σ).call i o w) :=
  .isTrue trivial
instance (w : σ) : Decidable ((Guard.any : Guard ι κ ω η σ).crash w) := .isTrue trivial
instance (e : η) (w : σ) : Decidable ((Guard.any : Guard ι κ ω η σ).env e w) := .isTrue trivial

theorem Guard.ok_mono {G H : Guard ι κ ω η σ} (henter : ∀ c w, G.enter c w → H.enter c w)
    (hcall : ∀ i o w, G.call i o w → H.call i o w) (hcrash : ∀ w, G.crash w → H.crash w)
    (henv : ∀ e w, G.env e w → H.env e w) {s : State ι ρ ε σ α} {a : Act κ ω η}
    (h : G.ok s a) : H.ok s a := by
  obtain ⟨w, p⟩ := s
  cases a with
  | enter c => exact henter c w h
  | call o =>
    match p, h with
    | some (.call i k), h => exact hcall i o w h
    | none, _ | some (.ret _), _ | some (.raise _), _ => trivial
  | leave => trivial
  | crash => exact hcrash w h
  | env e => exact henv e w h

/-- No call under way, in a world that meets `P`. -/
def idle (P : σ → Prop) (s : State ι ρ ε σ α) : Prop := P s.world ∧ s.running = none

/-! ## Crash-aware preconditions -/

section Safe

variable (M : Machine ι ρ ε κ ω η σ α) (G : Guard ι κ ω η σ)

/-- What admitted steps of the environment can make of a world. -/
def Envs : σ → σ → Prop :=
  Relation.ReflTransGen fun w w' => ∃ e, G.env e w ∧ M.env e w = some w'

/-- Kept by the environment. -/
def Stable (A : σ → Prop) : Prop :=
  ∀ w e w', A w → G.env e w → M.env e w = some w' → A w'

/-- From world `w` on, `C` holds wherever `p` is cut off and `Q` when it ends. -/
def Safe (C : σ → Prop) (Q : Except ε β → σ → Prop) : Prog ι ρ ε β → σ → Prop
  | .ret b, w => ∀ w', Envs M G w w' → C w' ∧ Q (.ok b) w'
  | .raise e, w => ∀ w', Envs M G w w' → C w' ∧ Q (.error e) w'
  | .call i k, w => ∀ w', Envs M G w w' → C w' ∧
      ∀ o r w'', G.call i o w' → M.exec i o w' = some (r, w'') → Safe C Q (k r) w''

variable {M G} {C : σ → Prop} {Q Q' : Except ε β → σ → Prop} {A : σ → Prop}

theorem Stable.envs (h : Stable M G A) {w w' : σ} (hA : A w) (he : Envs M G w w') : A w' := by
  induction he with
  | refl => exact hA
  | tail _ hstep ih =>
    obtain ⟨e, hg, he⟩ := hstep
    exact h _ e _ ih hg he

theorem Stable.and {B : σ → Prop} (hA : Stable M G A) (hB : Stable M G B) :
    Stable M G fun w => A w ∧ B w :=
  fun w e w' h hg he => ⟨hA w e w' h.1 hg he, hB w e w' h.2 hg he⟩

theorem Safe.crashed {p : Prog ι ρ ε β} {w : σ} (h : Safe M G C Q p w) : C w := by
  cases p with
  | ret b => exact (h w .refl).1
  | raise e => exact (h w .refl).1
  | call i k => exact (h w .refl).1

theorem Safe.envs {p : Prog ι ρ ε β} {w w' : σ} (h : Safe M G C Q p w) (he : Envs M G w w') :
    Safe M G C Q p w' := by
  cases p with
  | ret b => exact fun w'' he' => h w'' (he.trans he')
  | raise e => exact fun w'' he' => h w'' (he.trans he')
  | call i k => exact fun w'' he' => h w'' (he.trans he')

theorem Safe.ret {b : β} (hst : Stable M G A) (hC : ∀ w, A w → C w)
    (hQ : ∀ w, A w → Q (.ok b) w) {w : σ} (h : A w) : Safe M G C Q (.ret b) w :=
  fun _ he => ⟨hC _ (hst.envs h he), hQ _ (hst.envs h he)⟩

theorem Safe.raise {e : ε} (hst : Stable M G A) (hC : ∀ w, A w → C w)
    (hQ : ∀ w, A w → Q (.error e) w) {w : σ} (h : A w) : Safe M G C Q (.raise e) w :=
  fun _ he => ⟨hC _ (hst.envs h he), hQ _ (hst.envs h he)⟩

theorem Safe.call {i : ι} {k : Except ε (ρ i) → Prog ι ρ ε β} (hst : Stable M G A)
    (hC : ∀ w, A w → C w)
    (hexec : ∀ w o r w', A w → G.call i o w → M.exec i o w = some (r, w') →
      Safe M G C Q (k r) w') {w : σ} (h : A w) : Safe M G C Q (.call i k) w :=
  fun _ he => ⟨hC _ (hst.envs h he), fun o r w'' hg hx => hexec _ o r w'' (hst.envs h he) hg hx⟩

/-- One call whose exceptions propagate. -/
theorem Safe.perform {i : ι} {f : ρ i → Prog ι ρ ε β} (hst : Stable M G A)
    (hC : ∀ w, A w → C w)
    (hok : ∀ w o r w', A w → G.call i o w → M.exec i o w = some (.ok r, w') →
      Safe M G C Q (f r) w')
    (herr : ∀ w o e w', A w → G.call i o w → M.exec i o w = some (.error e, w') →
      Safe M G C Q (.raise e) w') {w : σ} (h : A w) :
    Safe M G C Q (perform i >>= f) w := by
  rw [perform_bind]
  refine Safe.call hst hC (fun w o r w' hA hg hx => ?_) h
  cases r with
  | ok r => exact hok w o r w' hA hg hx
  | error e => exact herr w o e w' hA hg hx

theorem Safe.mono {p : Prog ι ρ ε β} (hQ : ∀ r w, Q r w → Q' r w) {w : σ}
    (h : Safe M G C Q p w) : Safe M G C Q' p w := by
  induction p generalizing w with
  | ret b => exact fun w' he => ⟨(h w' he).1, hQ _ _ (h w' he).2⟩
  | raise e => exact fun w' he => ⟨(h w' he).1, hQ _ _ (h w' he).2⟩
  | call i k ih =>
    exact fun w' he => ⟨(h w' he).1, fun o r w'' hg hx => ih r ((h w' he).2 o r w'' hg hx)⟩

/-- Sequencing: the second program is safe from wherever the first returns. -/
theorem Safe.bind {γ : Type} {R : Except ε γ → σ → Prop} {p : Prog ι ρ ε β}
    {f : β → Prog ι ρ ε γ} {w : σ}
    (h : Safe M G C (fun r w => match r with
      | .ok b => Safe M G C R (f b) w
      | .error e => R (.error e) w) p w) : Safe M G C R (p >>= f) w := by
  induction p generalizing w with
  | ret b => exact (h w .refl).2
  | raise e => exact h
  | call i k ih =>
    exact fun w' he => ⟨(h w' he).1, fun o r w'' hg hx => ih r ((h w' he).2 o r w'' hg hx)⟩

/-- Catching: the handler is safe from wherever the program raises. -/
theorem Safe.tryCatch {p : Prog ι ρ ε β} {f : ε → Prog ι ρ ε β} {w : σ}
    (h : Safe M G C (fun r w => match r with
      | .ok b => Q (.ok b) w
      | .error e => Safe M G C Q (f e) w) p w) : Safe M G C Q (p.tryCatch f) w := by
  induction p generalizing w with
  | ret b => exact h
  | raise e => exact (h w .refl).2
  | call i k ih =>
    exact fun w' he => ⟨(h w' he).1, fun o r w'' hg hx => ih r ((h w' he).2 o r w'' hg hx)⟩

/-- A program whose calls all keep `A`. -/
theorem Safe.only {P : ι → Prop} (hst : Stable M G A) (hC : ∀ w, A w → C w)
    (hP : ∀ i o w r w', P i → A w → G.call i o w → M.exec i o w = some (r, w') → A w')
    (hQ : ∀ r w, A w → Q r w) {p : Prog ι ρ ε β} (hp : p.Only P) {w : σ} (h : A w) :
    Safe M G C Q p w := by
  induction p generalizing w with
  | ret b => exact Safe.ret hst hC (hQ _) h
  | raise e => exact Safe.raise hst hC (hQ _) h
  | call i k ih =>
    refine Safe.call hst hC (fun w o r w' hA hg hx => ?_) h
    exact ih r (hp.2 r) (hP i o w r w' hp.1 hA hg hx)

end Safe

/-! ## Runs -/

/-- What a run-level argument has to show: `I` between calls, `C` during them. -/
structure Proof (M : Machine ι ρ ε κ ω η σ α) (G : Guard ι κ ω η σ) (I C : σ → Prop)
    (Q : Except ε α → σ → Prop) : Prop where
  enter : ∀ c w, I w → G.enter c w → Safe M G C Q (M.code c) (M.enter c w)
  leave : ∀ r w, Q r w → I (M.leave r w)
  crash : ∀ w, C w → G.crash w → I (M.crash w)
  idle_crash : ∀ w, I w → G.crash w → I (M.crash w)
  idle_env : Stable M G I

/-- Where a state of a run stands. -/
def Holds (M : Machine ι ρ ε κ ω η σ α) (G : Guard ι κ ω η σ) (I C : σ → Prop)
    (Q : Except ε α → σ → Prop) (s : State ι ρ ε σ α) : Prop :=
  match s.running with
  | none => I s.world
  | some p => Safe M G C Q p s.world

variable {M : Machine ι ρ ε κ ω η σ α} {G : Guard ι κ ω η σ} {I C : σ → Prop}
  {Q : Except ε α → σ → Prop}

theorem Holds.step (P : Proof M G I C Q) {a : Act κ ω η} {s s' : State ι ρ ε σ α}
    (h : Holds M G I C Q s) (hg : G.ok s a) (hs : step M a s = some s') :
    Holds M G I C Q s' := by
  obtain ⟨w, p⟩ := s
  cases a with
  | enter c =>
    cases p with
    | none =>
      cases hs
      exact P.enter c w h hg
    | some p => cases hs
  | call o =>
    match p, h, hg, hs with
    | some (.call i k), h, hg, hs =>
      obtain ⟨⟨r, w'⟩, hx, hs⟩ := Option.map_eq_some_iff.mp hs
      cases hs
      exact (h w .refl).2 o r w' hg hx
  | leave =>
    match p, h, hs with
    | some (.ret a), h, hs =>
      cases hs
      exact P.leave _ _ (h w .refl).2
    | some (.raise e), h, hs =>
      cases hs
      exact P.leave _ _ (h w .refl).2
  | crash =>
    cases hs
    cases p with
    | none => exact P.idle_crash w h hg
    | some p => exact P.crash w h.crashed hg
  | env e =>
    obtain ⟨w', hw, hs⟩ := Option.map_eq_some_iff.mp hs
    cases hs
    cases p with
    | none => exact P.idle_env w e w' h hg hw
    | some p => exact h.envs (.single ⟨e, hg, hw⟩)

/-- **Soundness.** In every run from idle worlds that meet `I`, the world meets
`I` between calls and `C` during them. -/
theorem Proof.holds (P : Proof M G I C Q) {s : State ι ρ ε σ α}
    (h : Reach (step M) G.ok (idle I) s) : Holds M G I C Q s := by
  refine h.invariant (I := Holds M G I C Q) (fun s hs => ?_) fun _ _ _ hs hg h => hs.step P hg h
  obtain ⟨w, p⟩ := s
  obtain ⟨hI, rfl⟩ := hs
  exact hI

theorem Proof.always (P : Proof M G I C Q) {A : σ → Prop} (hI : ∀ w, I w → A w)
    (hC : ∀ w, C w → A w) {s : State ι ρ ε σ α} (h : Reach (step M) G.ok (idle I) s) :
    A s.world := by
  have hs := P.holds h
  obtain ⟨w, p⟩ := s
  cases p with
  | none => exact hI w hs
  | some p => exact hC w hs.crashed

theorem Proof.between (P : Proof M G I C Q) {s : State ι ρ ε σ α}
    (h : Reach (step M) G.ok (idle I) s) (hs : s.running = none) : I s.world := by
  have hh := P.holds h
  obtain ⟨w, p⟩ := s
  cases hs
  exact hh

/-- What every single step keeps. -/
theorem Proof.stepwise {A : σ → Prop} (henter : ∀ c w, A w → A (M.enter c w))
    (hleave : ∀ r w, A w → A (M.leave r w)) (hcrash : ∀ w, A w → A (M.crash w))
    (hexec : ∀ i o w r w', A w → G.call i o w → M.exec i o w = some (r, w') → A w')
    (henv : Stable M G A) : Proof M G A A (fun _ => A) where
  enter c w h _ := Safe.only henv (fun _ h => h) (fun i o w r w' _ hA hg hx =>
    hexec i o w r w' hA hg hx) (fun _ _ h => h) (only_true _) (henter c w h)
  leave := hleave
  crash w h _ := hcrash w h
  idle_crash w h _ := hcrash w h
  idle_env := henv

/-! ## Undisturbed calls -/

/-- A choice for each call, of which it is the `n`th, such that the world
answers it. -/
structure Undisturbed (exec : (i : ι) → ω → σ → Option (Except ε (ρ i) × σ)) where
  choice : ι → Nat → ω
  answers : ∀ i n w, (exec i (choice i n) w).isSome

namespace Undisturbed

variable {exec : (i : ι) → ω → σ → Option (Except ε (ρ i) × σ)}

/-- The answer in a world in which `w.2` calls have been made. -/
def answer (U : Undisturbed exec) (i : ι) (w : σ × Nat) : Except ε (ρ i) × (σ × Nat) :=
  let a := (exec i (U.choice i w.2) w.1).get (U.answers i w.2 w.1)
  (a.1, a.2, w.2 + 1)

theorem answer_eq (U : Undisturbed exec) {i : ι} {w : σ} {n : Nat} {r : Except ε (ρ i)} {w' : σ}
    (h : exec i (U.choice i n) w = some (r, w')) : U.answer i (w, n) = (r, w', n + 1) := by
  simp only [answer, h, Option.get_some]

theorem exec_answer (U : Undisturbed exec) (i : ι) (w : σ × Nat) :
    exec i (U.choice i w.2) w.1 = some ((U.answer i w).1, (U.answer i w).2.1) :=
  (Option.some_get (U.answers i w.2 w.1)).symm

/-- A program evaluated without disturbance is a run of the machine. -/
theorem reach (U : Undisturbed M.exec) {init : State ι ρ ε σ α → Prop}
    (hG : ∀ i n w, G.call i (U.choice i n) w) {p : Prog ι ρ ε α} {w : σ × Nat}
    (h : Reach (step M) G.ok init ⟨w.1, some p⟩) :
    Reach (step M) G.ok init ⟨M.leave (p.eval U.answer w).1 (p.eval U.answer w).2.1, none⟩ := by
  induction p generalizing w with
  | ret a => exact h.step (a := .leave) trivial rfl
  | raise e => exact h.step (a := .leave) trivial rfl
  | call i k ih =>
    refine ih _ (h.step (a := .call (U.choice i w.2)) (hG i w.2 w.1) ?_)
    simp only [step, U.exec_answer, Option.map_some]

/-- A call that is served without disturbance. -/
theorem serves (U : Undisturbed M.exec) {init : State ι ρ ε σ α → Prop}
    (hG : ∀ i n w, G.call i (U.choice i n) w) {c : κ} {w : σ} {n : Nat} (henter : G.enter c w)
    (h : Reach (step M) G.ok init ⟨w, none⟩) :
    let a := (M.code c).eval U.answer (M.enter c w, n)
    Reach (step M) G.ok init ⟨M.leave a.1 a.2.1, none⟩ :=
  U.reach (w := (M.enter c w, n)) hG (h.step (a := .enter c) henter rfl)

end Undisturbed

/-! ## Notes -/

section Notes

variable {ν : Type} {note : (i : ι) → ω → Except ε (ρ i) → σ → ν → ν}

/-- The machine beside notes of what its calls came to, which nothing reads. -/
def Machine.noting (M : Machine ι ρ ε κ ω η σ α)
    (note : (i : ι) → ω → Except ε (ρ i) → σ → ν → ν) : Machine ι ρ ε κ ω η (σ × ν) α where
  code := M.code
  exec i o w := (M.exec i o w.1).map fun a => (a.1, a.2, note i o a.1 a.2 w.2)
  enter c w := (M.enter c w.1, w.2)
  leave r w := (M.leave r w.1, w.2)
  crash w := (M.crash w.1, w.2)
  env e w := (M.env e w.1).map (·, w.2)

theorem exec_noting {i : ι} {o : ω} {w w' : σ × ν} {r : Except ε (ρ i)} :
    (M.noting note).exec i o w = some (r, w') ↔
      M.exec i o w.1 = some (r, w'.1) ∧ w'.2 = note i o r w'.1 w.2 := by
  rw [Machine.noting, Option.map_eq_some_iff]
  constructor
  · rintro ⟨a, ha, hr⟩
    cases hr
    exact ⟨ha, rfl⟩
  · rintro ⟨ha, hn⟩
    exact ⟨(r, w'.1), ha, by rw [← hn]⟩

theorem env_noting {e : η} {w w' : σ × ν} :
    (M.noting note).env e w = some w' ↔ M.env e w.1 = some w'.1 ∧ w'.2 = w.2 := by
  rw [Machine.noting, Option.map_eq_some_iff]
  constructor
  · rintro ⟨a, ha, hw⟩
    cases hw
    exact ⟨ha, rfl⟩
  · rintro ⟨ha, hn⟩
    exact ⟨w'.1, ha, by rw [← hn]⟩

/-- The state without the notes. -/
def State.erase (s : State ι ρ ε (σ × ν) α) : State ι ρ ε σ α := ⟨s.world.1, s.running⟩

theorem step_noting {a : Act κ ω η} {s s' : State ι ρ ε (σ × ν) α}
    (h : step (M.noting note) a s = some s') : step M a s.erase = some s'.erase := by
  obtain ⟨w, p⟩ := s
  cases a with
  | enter c =>
    cases p with
    | none =>
      cases h
      rfl
    | some p => cases h
  | call o =>
    match p, h with
    | some (.call i k), h =>
      obtain ⟨⟨r, w'⟩, hx, h⟩ := Option.map_eq_some_iff.mp h
      cases h
      obtain ⟨hx, -⟩ := exec_noting.mp hx
      simp only [step, State.erase, hx, Option.map_some]
  | leave =>
    match p, h with
    | some (.ret a), h =>
      cases h
      rfl
    | some (.raise e), h =>
      cases h
      rfl
  | crash =>
    cases h
    rfl
  | env e =>
    obtain ⟨w', hw, h⟩ := Option.map_eq_some_iff.mp h
    cases h
    obtain ⟨hw, -⟩ := env_noting.mp hw
    simp only [step, State.erase, hw, Option.map_some]

/-- **Notes change nothing.** A run with notes is a run. -/
theorem reach_erase {G : Guard ι κ ω η (σ × ν)} {H : Guard ι κ ω η σ}
    {init : State ι ρ ε (σ × ν) α → Prop} {init' : State ι ρ ε σ α → Prop}
    (hinit : ∀ s, init s → init' s.erase) (henter : ∀ c w, G.enter c w → H.enter c w.1)
    (hcall : ∀ i o w, G.call i o w → H.call i o w.1) (hcrash : ∀ w, G.crash w → H.crash w.1)
    (henv : ∀ e w, G.env e w → H.env e w.1) {s : State ι ρ ε (σ × ν) α}
    (h : Reach (step (M.noting note)) G.ok init s) : Reach (step M) H.ok init' s.erase := by
  induction h with
  | init h => exact .init (hinit _ h)
  | @step s s' a _ ha hs ih =>
    refine ih.step ?_ (step_noting hs)
    obtain ⟨w, p⟩ := s
    cases a with
    | enter c => exact henter c w ha
    | call o =>
      match p, ha with
      | some (.call i k), ha => exact hcall i o w ha
      | none, _ | some (.ret _), _ | some (.raise _), _ => trivial
    | leave => trivial
    | crash => exact hcrash w ha
    | env e => exact henv e w ha

end Notes

end TradePulse.Core.Process
