import TradePulse.Core.ConsumerGroup
import TradePulse.Poc.Store
import Mathlib.Logic.Function.Basic

/-! # The in-process stream bus

`stream_bus.py`. A dict whose order nothing reads is a partial function; the
pending entries of a group are a dict that is read in insertion order, and so a
list. `KeyError` is the only exception. -/
namespace TradePulse.Outbox
open TradePulse.Core TradePulse.Core.StreamLog
open TradePulse.Poc (upsert)

/-- `{"last": …, "pel": …}`. -/
structure Group (α : Type) where
  last : Int
  pel : List (Nat × α)

structure StreamBus (α : Type) where
  streams : String → Option (List (Nat × α))
  groups : String × String → Option (Group α)

inductive Failure where
  | KeyError
  | TypeError
  | IntegrityError
  | CrashInjected
  deriving DecidableEq

namespace StreamBus

variable {α : Type}

def new : StreamBus α := ⟨fun _ => none, fun _ => none⟩

/-- `self.streams.get(stream, [])`. -/
def entries (b : StreamBus α) (stream : String) : List (Nat × α) := (b.streams stream).getD []

def setStream (b : StreamBus α) (stream : String) (entries : List (Nat × α)) : StreamBus α :=
  { b with streams := Function.update b.streams stream (some entries) }

def setGroup (b : StreamBus α) (key : String × String) (g : Group α) : StreamBus α :=
  { b with groups := Function.update b.groups key (some g) }

def xadd (b : StreamBus α) (stream : String) (entry : α) : Nat × StreamBus α :=
  let eid := (b.entries stream).length + 1
  (eid, b.setStream stream (b.entries stream ++ [(eid, entry)]))

def stream_len (b : StreamBus α) (stream : String) : Nat := (b.entries stream).length

def xgroup_create (b : StreamBus α) (stream group : String) (start : Int) : StreamBus α :=
  (b.setStream stream (b.entries stream)).setGroup (stream, group) ⟨start, []⟩

/-- The loop of `xreadgroup`, with what is in `out` already. -/
def deliver (count : Int) (g : Group α) (out : List (Nat × α)) :
    List (Nat × α) → Group α × List (Nat × α)
  | [] => (g, out)
  | (eid, entry) :: rest =>
    if g.last < eid then
      let g := { last := eid, pel := upsert g.pel eid entry }
      let out := out ++ [(eid, entry)]
      if count ≤ out.length then (g, out) else deliver count g out rest
    else deliver count g out rest

def xreadgroup (b : StreamBus α) (stream group : String) (count : Int) :
    Except Failure (List (Nat × α) × StreamBus α) :=
  match b.groups (stream, group), b.streams stream with
  | some g, some entries =>
    let (g, out) := deliver count g [] entries
    .ok (out, b.setGroup (stream, group) g)
  | _, _ => .error .KeyError

/-- `pop(eid, None)`. -/
def xack (b : StreamBus α) (stream group : String) (eid : Nat) :
    Except Failure (StreamBus α) :=
  match b.groups (stream, group) with
  | some g => .ok (b.setGroup (stream, group) { g with pel := g.pel.filter (·.1 ≠ eid) })
  | none => .error .KeyError

def xpending (b : StreamBus α) (stream group : String) : Except Failure (List (Nat × α)) :=
  match b.groups (stream, group) with
  | some g => .ok g.pel
  | none => .error .KeyError

def redeliver_pending (b : StreamBus α) (stream group : String) :
    Except Failure (List (Nat × α)) := b.xpending stream group

def setid (b : StreamBus α) (stream group : String) (start : Int) : StreamBus α :=
  b.setGroup (stream, group) ⟨start, []⟩

@[simp] theorem groups_setStream (b : StreamBus α) (stream : String) (entries : List (Nat × α)) :
    (b.setStream stream entries).groups = b.groups := rfl

@[simp] theorem streams_setGroup (b : StreamBus α) (key : String × String) (g : Group α) :
    (b.setGroup key g).streams = b.streams := rfl

@[simp] theorem groups_setGroup (b : StreamBus α) (key : String × String) (g : Group α) :
    (b.setGroup key g).groups key = some g := Function.update_self ..

theorem groups_setGroup_ne {key key' : String × String} (h : key' ≠ key) (b : StreamBus α)
    (g : Group α) : (b.setGroup key g).groups key' = b.groups key' := Function.update_of_ne h ..

@[simp] theorem streams_setStream (b : StreamBus α) (stream : String)
    (entries : List (Nat × α)) : (b.setStream stream entries).streams stream = some entries :=
  Function.update_self ..

theorem streams_setStream_ne {stream stream' : String} (h : stream' ≠ stream)
    (b : StreamBus α) (entries : List (Nat × α)) :
    (b.setStream stream entries).streams stream' = b.streams stream' := Function.update_of_ne h ..

/-- A group more, and no entry. -/
@[simp] theorem entries_xgroup_create (b : StreamBus α) (stream group : String) (start : Int)
    (stream' : String) : (b.xgroup_create stream group start).entries stream' =
      b.entries stream' := by
  rw [entries, xgroup_create, streams_setGroup]
  by_cases h : stream' = stream
  · rw [h, streams_setStream, Option.getD_some]
  · rw [streams_setStream_ne h, entries]

theorem entries_xadd {b : StreamBus α} {stream : String} {log : List α}
    (h : b.entries stream = after log 0) (e : α) :
    (b.xadd stream e).2.entries stream = after (log ++ [e]) 0 := by
  have hlen : (b.entries stream).length = log.length := by rw [h, length_after, Nat.sub_zero]
  rw [entries, xadd, streams_setStream, Option.getD_some, hlen, h, after_zero_append]

/-! ## The loop of a read -/

/-- What is not behind the cursor is passed over. -/
theorem deliver_skip {count : Int} {g : Group α} {out skipped rest : List (Nat × α)}
    (h : ∀ e ∈ skipped, ¬ g.last < e.1) :
    deliver count g out (skipped ++ rest) = deliver count g out rest := by
  induction skipped with
  | nil => rfl
  | cons e skipped ih =>
    rw [List.cons_append, deliver, if_neg (h e List.mem_cons_self)]
    exact ih fun e he => h e (List.mem_cons_of_mem _ he)

/-- The entries behind the cursor are delivered until `count` are out; the test
comes after the first, so that at least one is. -/
theorem deliver_after (log : List α) {count : Int} {n : Nat} {g : Group α}
    {out : List (Nat × α)} (hlast : g.last.toNat = n) (hpel : ∀ e ∈ g.pel, e.1 ≤ n) :
    deliver count g out (after log n) =
      let new := (after log n).take (max 1 (count.toNat - out.length))
      (⟨if new = [] then g.last else n + new.length, g.pel ++ new⟩, out ++ new) := by
  induction hk : log.length - n generalizing n g out with
  | zero =>
    rw [after_of_length_le (by omega)]
    simp [deliver]
  | succ k ih =>
    obtain ⟨e, he⟩ : ∃ e, log[n]? = some e := ⟨log.get ⟨n, by omega⟩, List.getElem?_eq_getElem _⟩
    have hlt : g.last < ((n + 1 : Nat) : Int) := by omega
    have hfresh : g.pel.any (·.1 = n + 1) = false := by
      rw [List.any_eq_false]
      intro x hx
      have hle := hpel x hx
      simp only [decide_eq_true_eq]
      omega
    rw [after_of_getElem? he, deliver, if_pos hlt]
    simp only [upsert, hfresh, Bool.false_eq_true, if_false, List.length_append,
      List.length_singleton]
    split
    · rename_i hcount
      have htake : max 1 (count.toNat - out.length) = 1 := by omega
      simp [htake]
    · rename_i hcount
      have hlater := @ih (n + 1) ⟨((n + 1 : Nat) : Int), g.pel ++ [(n + 1, e)]⟩
        (out ++ [(n + 1, e)]) (Int.toNat_natCast _) (fun x hx => by
          rcases List.mem_append.mp hx with hx | hx
          · exact (hpel x hx).trans (Nat.le_succ n)
          · rw [List.mem_singleton.mp hx]) (by omega)
      have htake : max 1 (count.toNat - out.length) =
          max 1 (count.toNat - (out.length + 1)) + 1 := by omega
      rw [hlater, htake, List.take_succ_cons]
      simp only [List.length_append, List.length_singleton]
      have hcons : ¬ ((n + 1, e) :: List.take (max 1 (count.toNat - (out.length + 1)))
          (after log (n + 1)) = []) := List.cons_ne_nil _ _
      rw [if_neg hcons]
      generalize List.take (max 1 (count.toNat - (out.length + 1))) (after log (n + 1)) = new
      refine Prod.ext (congrArg₂ Group.mk ?_ ?_) ?_
      · split
        · rename_i hnil
          rw [hnil]
          simp
        · rw [List.length_cons]
          push_cast
          omega
      · simp
      · simp

end StreamBus

end TradePulse.Outbox
