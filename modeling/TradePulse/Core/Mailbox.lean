import Mathlib.Data.List.Basic
import Mathlib.Data.List.Induction

/-! # A bounded mailbox that drops what does not fit

Its owner receives from the front, others offer at the back, and an offer that
finds `cap` elements waiting is lost. What has been received and what waits is,
in order, what was offered while there was room. -/
namespace TradePulse.Core

variable {α : Type}

structure Mailbox (α : Type) where
  received : List α
  buffer : List α
  deriving DecidableEq

namespace Mailbox

inductive Act (α : Type) where
  | offer (a : α)
  | receive

def empty : Mailbox α := ⟨[], []⟩

def step (cap : Nat) (b : Mailbox α) : Act α → Mailbox α
  | .offer a => if b.buffer.length < cap then { b with buffer := b.buffer ++ [a] } else b
  | .receive => ⟨b.received ++ b.buffer.take 1, b.buffer.drop 1⟩

/-- The mailbox after the given acts. -/
def run (cap : Nat) (acts : List (Act α)) : Mailbox α := acts.foldl (step cap) empty

/-- Everything that was offered. -/
def offers (acts : List (Act α)) : List α :=
  acts.filterMap fun
    | .offer a => some a
    | .receive => none

/-- What has not been lost. -/
def kept (b : Mailbox α) : List α := b.received ++ b.buffer

/-- Each offer, and how many elements it found waiting. -/
def foundFrom (cap : Nat) : Mailbox α → List (Act α) → List (α × Nat)
  | _, [] => []
  | b, .offer a :: acts => (a, b.buffer.length) :: foundFrom cap (b.step cap (.offer a)) acts
  | b, .receive :: acts => foundFrom cap (b.step cap .receive) acts

def found (cap : Nat) (acts : List (Act α)) : List (α × Nat) := foundFrom cap empty acts

variable {cap : Nat} {b : Mailbox α} {acts : List (Act α)}

theorem run_snoc (acts : List (Act α)) (x : Act α) :
    run cap (acts ++ [x]) = (run cap acts).step cap x := by
  rw [run, run, List.foldl_append]
  rfl

theorem foundFrom_append (acts acts' : List (Act α)) : foundFrom cap b (acts ++ acts') =
    foundFrom cap b acts ++ foundFrom cap (acts.foldl (step cap) b) acts' := by
  induction acts generalizing b with
  | nil => rfl
  | cons x acts ih =>
    cases x with
    | offer a => exact congrArg ((a, b.buffer.length) :: ·) ih
    | receive => exact ih

theorem found_offer (acts : List (Act α)) (a : α) :
    found cap (acts ++ [.offer a]) = found cap acts ++ [(a, (run cap acts).buffer.length)] :=
  foundFrom_append acts [.offer a]

theorem found_receive (acts : List (Act α)) :
    found cap (acts ++ [.receive]) = found cap acts := by
  rw [found, foundFrom_append]
  exact List.append_nil _

theorem kept_step (x : Act α) : (b.step cap x).kept = match x with
    | .offer a => if b.buffer.length < cap then b.kept ++ [a] else b.kept
    | .receive => b.kept := by
  cases x with
  | offer a =>
    simp only [step, kept]
    split
    · rw [List.append_assoc]
    · rfl
  | receive => rw [step, kept, kept, List.append_assoc, List.take_append_drop]

/-- **Kept is what found room.** -/
theorem kept_run (acts : List (Act α)) :
    (run cap acts).kept = ((found cap acts).filter (·.2 < cap)).map (·.1) := by
  induction acts using List.reverseRecOn with
  | nil => rfl
  | append_singleton acts x ih =>
    rw [run_snoc, kept_step]
    cases x with
    | offer a =>
      rw [found_offer, List.filter_append, List.map_append, ← ih]
      by_cases h : (run cap acts).buffer.length < cap <;> simp [h]
    | receive => rw [found_receive, ih]

theorem buffer_le (acts : List (Act α)) : (run cap acts).buffer.length ≤ cap := by
  induction acts using List.reverseRecOn with
  | nil => exact Nat.zero_le _
  | append_singleton acts x ih =>
    rw [run_snoc]
    cases x with
    | offer a =>
      rw [step]
      split
      · rename_i h
        rw [List.length_append]
        exact h
      · exact ih
    | receive =>
      rw [step, List.length_drop]
      exact Nat.le_trans (Nat.sub_le ..) ih

/-- An offer is lost only when it found the mailbox full. -/
theorem found_le (acts : List (Act α)) : ∀ x ∈ found cap acts, x.2 ≤ cap := by
  induction acts using List.reverseRecOn with
  | nil =>
    intro x hx
    cases hx
  | append_singleton acts y ih =>
    intro x hx
    cases y with
    | offer a =>
      rw [found_offer, List.mem_append, List.mem_singleton] at hx
      rcases hx with hx | rfl
      · exact ih x hx
      · exact buffer_le acts
    | receive => exact ih x (by rwa [found_receive] at hx)

end Mailbox
end TradePulse.Core
