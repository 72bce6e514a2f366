import TradePulse.Core.Runs
import Mathlib.Data.List.Basic

/-! # `hooks/useAsync.js`

One use of the hook by a mounted component. Its runs share one state, which
each of them sets when its own promise settles. -/
namespace TradePulse.Dashboard
open TradePulse.Core.Runs

/-- `{ loading, error, data }`. -/
structure AsyncState (ε α : Type) where
  loading : Bool
  error : Option ε
  data : Option α
  deriving DecidableEq

inductive Outcome (ε α : Type) where
  | resolved (data : α)
  | rejected (error : ε)
  deriving DecidableEq

/-- What `run` sets behind the `await`. -/
def Outcome.state {ε α : Type} : Outcome ε α → AsyncState ε α
  | .resolved data => { loading := false, error := none, data := some data }
  | .rejected error => { loading := false, error := some error, data := none }

/-- A call of `fn`, as the render with `deps` has it. -/
structure AsyncRun (δ ε α : Type) where
  deps : δ
  outcome : Option (Outcome ε α)
  deriving DecidableEq

/-- `deps` are those of the newest render, and each render has left a `run`
behind that may still be called. The runs in the order they started and those
that have settled, in that order, are not of the program. -/
structure Hook (δ ε α : Type) where
  deps : δ
  renders : List δ
  state : AsyncState ε α
  runs : List (AsyncRun δ ε α)
  settled : List ℕ
  deriving DecidableEq

section Hook

variable {δ ε α : Type}

/-- `run` up to the `await`. -/
def Hook.start (h : Hook δ ε α) (deps : δ) : Hook δ ε α :=
  { h with state := { h.state with loading := true, error := none }
           runs := h.runs ++ [⟨deps, none⟩] }

def Hook.effect (immediate : Bool) (h : Hook δ ε α) : Hook δ ε α :=
  if immediate then h.start h.deps else h

def mount (immediate : Bool) (deps : δ) : Hook δ ε α :=
  Hook.effect immediate
    { deps, renders := [deps], state := { loading := immediate, error := none, data := none }
      runs := [], settled := [] }

inductive Act (δ ε α : Type) where
  | render (deps : δ)
  /-- A call of the `run` of a render, that of an earlier one in a handler that has been waiting. -/
  | refresh (deps : δ)
  | settle (i : ℕ) (outcome : Outcome ε α)

variable [DecidableEq δ]

def step (immediate : Bool) : Act δ ε α → Hook δ ε α → Option (Hook δ ε α)
  | .render deps, h =>
    if deps = h.deps then some h
    else some (Hook.effect immediate { h with deps, renders := h.renders ++ [deps] })
  | .refresh deps, h => if deps ∈ h.renders then some (h.start deps) else none
  | .settle i outcome, h => match h.runs[i]? with
    | some ⟨deps, none⟩ =>
      some { h with state := outcome.state, runs := h.runs.set i ⟨deps, some outcome⟩
                    settled := h.settled ++ [i] }
    | _ => none

/-! ## The property -/

section Property

omit [DecidableEq δ]

/-- Every promise has settled. -/
def Settled (h : Hook δ ε α) : Prop := ∀ run ∈ h.runs, run.outcome ≠ none

/-- What the run that was started last has settled with. -/
def Hook.latest (h : Hook δ ε α) : Option (Outcome ε α) := h.runs.getLast?.bind (·.outcome)

/-- What the run that settled last has settled with. -/
def Hook.newest (h : Hook δ ε α) : Option (Outcome ε α) :=
  h.settled.getLast?.bind fun i => h.runs[i]?.bind (·.outcome)

/-- A run for the present `deps` has brought the data. -/
def Hook.Brought (h : Hook δ ε α) (x : α) : Prop :=
  ∃ run ∈ h.runs, run.deps = h.deps ∧ run.outcome = some (.resolved x)

/-- The state is that of the run started last, and its data is not another
account's. -/
structure UpToDate (h : Hook δ ε α) : Prop where
  latest : ∃ o, h.latest = some o ∧ h.state = o.state
  own : ∀ x, h.state.data = some x → h.Brought x

/-- The promise that settled last gave what the run started last gave, and data
that a run for the present `deps` brought. -/
structure InOrder (h : Hook δ ε α) : Prop where
  latest : h.newest = h.latest
  own : ∀ x, h.newest = some (.resolved x) → h.Brought x

theorem Outcome.state_injective {o o' : Outcome ε α} (h : o.state = o'.state) : o = o' := by
  cases o <;> cases o' <;> cases h <;> rfl

theorem Outcome.state_data {o : Outcome ε α} {x : α} : o.state.data = some x ↔ o = .resolved x := by
  cases o with
  | resolved data =>
    constructor
    · intro h
      cases h
      rfl
    · intro h
      cases h
      rfl
  | rejected error =>
    constructor
    · intro h
      cases h
    · intro h
      cases h

/-- The promise of the run started last, for the present `deps`, settled last. -/
theorem InOrder.of_last {h : Hook δ ε α} {i : ℕ} (hi : h.settled.getLast? = some i)
    (hlast : i = h.runs.length - 1) (hdeps : ∀ run, h.runs.getLast? = some run → run.deps = h.deps) :
    InOrder h := by
  have hget : h.runs[i]? = h.runs.getLast? := by rw [hlast, List.getLast?_eq_getElem?]
  have hlatest : h.newest = h.latest := by rw [Hook.newest, hi, Option.bind_some, hget, Hook.latest]
  refine ⟨hlatest, fun x hx => ?_⟩
  rw [hlatest] at hx
  obtain ⟨run, hrun, hx⟩ := Option.bind_eq_some_iff.mp hx
  exact ⟨run, List.mem_of_getLast? hrun, hdeps run hrun, hx⟩

theorem not_settled_start (h : Hook δ ε α) (deps : δ) : ¬ Settled (h.start deps) :=
  fun hall => hall ⟨deps, none⟩ (List.mem_append_right _ (List.mem_singleton_self _)) rfl

end Property

/-! ## Runs -/

theorem settle_cases {immediate : Bool} {h t : Hook δ ε α} {i : ℕ} {o : Outcome ε α}
    (hs : step immediate (.settle i o) h = some t) : ∃ deps, h.runs[i]? = some ⟨deps, none⟩ ∧
      t = { h with state := o.state, runs := h.runs.set i ⟨deps, some o⟩
                   settled := h.settled ++ [i] } := by
  rw [step] at hs
  split at hs
  · rename_i deps hrun
    exact ⟨deps, hrun, (Option.some.inj hs).symm⟩
  · cases hs

/-- The state is the work of the promise that settled last. -/
def ShowsNewest (h : Hook δ ε α) : Prop :=
  Settled h → h.runs ≠ [] → ∃ o, h.newest = some o ∧ h.state = o.state

omit [DecidableEq δ] in
theorem ShowsNewest.effect {immediate : Bool} {h : Hook δ ε α} (hh : ShowsNewest h) :
    ShowsNewest (h.effect immediate) := by
  cases immediate with
  | true => exact fun hall => absurd hall (not_settled_start h h.deps)
  | false => exact hh

omit [DecidableEq δ] in
theorem showsNewest_mount (immediate : Bool) (deps : δ) :
    ShowsNewest (mount immediate deps : Hook δ ε α) :=
  ShowsNewest.effect fun _ hne => absurd rfl hne

theorem ShowsNewest.step {immediate : Bool} {h t : Hook δ ε α} {a : Act δ ε α}
    (hh : ShowsNewest h) (hs : step immediate a h = some t) : ShowsNewest t := by
  cases a with
  | render deps =>
    rw [Dashboard.step] at hs
    split at hs
    · cases hs
      exact hh
    · cases hs
      exact ShowsNewest.effect hh
  | refresh deps =>
    rw [Dashboard.step] at hs
    split at hs
    · cases hs
      exact fun hall => absurd hall (not_settled_start h deps)
    · cases hs
  | settle i o =>
    obtain ⟨deps, hrun, rfl⟩ := settle_cases hs
    obtain ⟨hlt, -⟩ := List.getElem?_eq_some_iff.mp hrun
    intro _ _
    refine ⟨o, ?_, rfl⟩
    simp [Hook.newest, hlt]

/-- When all runs have settled, the screen is up to date exactly where the
promises settled in order. -/
theorem up_to_date_iff {immediate : Bool} {deps : δ} {h : Hook δ ε α}
    (hr : Reach (step immediate) anyStep (· = mount immediate deps) h) (hall : Settled h)
    (hne : h.runs ≠ []) : UpToDate h ↔ InOrder h := by
  have hshows : ShowsNewest h := hr.invariant
    (fun s hs => hs ▸ showsNewest_mount immediate deps) fun s a t hs _ ht => hs.step ht
  obtain ⟨o, hnewest, hstate⟩ := hshows hall hne
  constructor
  · rintro ⟨⟨o', hlatest, hstate'⟩, hown⟩
    have ho : o = o' := Outcome.state_injective (hstate.symm.trans hstate')
    refine ⟨by rw [hnewest, hlatest, ho], fun x hx => hown x ?_⟩
    rw [hnewest] at hx
    rw [hstate, Option.some.inj hx]
    rfl
  · rintro ⟨hlatest, hown⟩
    refine ⟨⟨o, hlatest ▸ hnewest, hstate⟩, fun x hx => hown x ?_⟩
    rw [hstate] at hx
    rw [hnewest, Outcome.state_data.mp hx]

end Hook

section Accounts

/-- Two accounts, and what their promises give. -/
def switched (state : AsyncState String String) (settled : List ℕ) : Hook String String String where
  deps := "acct_456"
  renders := ["acct_123", "acct_456"]
  state := state
  runs := [⟨"acct_123", some (.resolved "trades of acct_123")⟩,
    ⟨"acct_456", some (.resolved "trades of acct_456")⟩]
  settled := settled

theorem switched_settled (state : AsyncState String String) (settled : List ℕ) :
    Settled (switched state settled) := by
  rw [Settled, switched, List.forall_mem_cons, List.forall_mem_singleton]
  decide

/-- Both promises settle in the order they were made. -/
theorem up_to_date_in_turn :
    UpToDate (switched ⟨false, none, some "trades of acct_456"⟩ [0, 1]) := by
  have hr : Reach (step true) anyStep (· = mount true "acct_123")
      (switched ⟨false, none, some "trades of acct_456"⟩ [0, 1]) :=
    Reach.run [.render "acct_456", .settle 0 (.resolved "trades of acct_123"),
      .settle 1 (.resolved "trades of acct_456")] (.init rfl) (by decide)
  refine (up_to_date_iff hr (switched_settled _ _) (by decide)).mpr ?_
  refine InOrder.of_last rfl rfl fun run hrun => ?_
  cases hrun
  rfl

/-- The slower answer to the account selected first stays on the screen. -/
theorem overtaken_response_shown :
    ¬ ∀ h : Hook String String String,
      Reach (step true) anyStep (· = mount true "acct_123") h → Settled h → h.runs ≠ [] →
        UpToDate h := by
  intro hall
  have hr : Reach (step true) anyStep (· = mount true "acct_123")
      (switched ⟨false, none, some "trades of acct_123"⟩ [1, 0]) :=
    Reach.run [.render "acct_456", .settle 1 (.resolved "trades of acct_456"),
      .settle 0 (.resolved "trades of acct_123")] (.init rfl) (by decide)
  obtain ⟨o, hlatest, hstate⟩ := (hall _ hr (switched_settled _ _) (by decide)).latest
  have ho : some (.resolved "trades of acct_456") = some o := hlatest
  cases ho
  exact absurd hstate (by decide)

end Accounts

end TradePulse.Dashboard
