import TradePulse.Core.EventStream
import TradePulse.Dashboard.RiskScreen
import Mathlib.Logic.Function.Basic

/-! # `StreamProvider`

The listeners of the provider on the events that its event source dispatches,
with the values of JavaScript as far as they look into them. `JSON.parse` is
any function. -/
namespace TradePulse.Dashboard
open TradePulse.Core.EventStream

/-! ## Values -/

/-- A number, as far as the listeners tell one from another. -/
class JsNumber (N : Type) where
  /-- `0`, `-0` and `NaN`. -/
  falsy : N → Bool
  toText : N → String

inductive JsValue (N : Type) where
  | undefined
  | null
  | bool (b : Bool)
  | number (x : N)
  | string (s : String)
  | array (xs : List (JsValue N))
  | object (kvs : List (String × JsValue N))

namespace JsValue

variable {N : Type}

/-- `x.key`, for a key that no prototype has; `none` is a `TypeError`. -/
def get (key : String) : JsValue N → Option (JsValue N)
  | .undefined | .null => none
  | .object kvs => some ((kvs.lookup key).getD .undefined)
  | .bool _ | .number _ | .string _ | .array _ => some .undefined

variable [JsNumber N]

def truthy : JsValue N → Bool
  | .undefined | .null => false
  | .bool b => b
  | .number x => !JsNumber.falsy x
  | .string s => s ≠ ""
  | .array _ | .object _ => true

/-- `x || y` -/
def or (x y : JsValue N) : JsValue N := if x.truthy then x else y

mutual

/-- `String(x)` -/
def toText : JsValue N → String
  | .undefined => "undefined"
  | .null => "null"
  | .bool b => if b then "true" else "false"
  | .number x => JsNumber.toText x
  | .string s => s
  | .array xs => ",".intercalate (elements xs)
  | .object _ => "[object Object]"

/-- The elements of an array that is joined. -/
def elements : List (JsValue N) → List String
  | [] => []
  | .undefined :: xs | .null :: xs => "" :: elements xs
  | x :: xs => toText x :: elements xs

end

end JsValue

/-! ## The listeners -/

section Page

variable {N : Type} [JsNumber N]

/-- `JSON.parse`; `none` is a `SyntaxError`. -/
abbrev Parse (N : Type) := List Char → Option (JsValue N)

/-- An entry of `ticks` and of `tickLog`. -/
structure TickEntry (N : Type) where
  symbol : JsValue N
  price : JsValue N
  volume : JsValue N
  tick_time : JsValue N
  seen : Nat

def TickEntry.key (t : TickEntry N) : String := t.symbol.toText

inductive Status where
  | connecting
  | open
  | reconnecting
  deriving DecidableEq

structure Page (N : Type) where
  status : Status
  ticks : String → Option (TickEntry N)
  tickLog : List (TickEntry N)
  /-- `risk` and `riskLog`. -/
  stream : Stream (JsValue N)

def Page.initial : Page N := ⟨.connecting, fun _ => none, [], initialStream⟩

/-- `env.data || {}`, unless the frame is malformed. -/
def frameData (parse : Parse N) (data : List Char) : Option (JsValue N) := do
  let env ← parse data
  let d ← env.get "data"
  return d.or (.object [])

/-- What the listener for `ticks` takes from a frame, if it takes anything. -/
def readTick (parse : Parse N) (data : List Char) (now : Nat) : Option (TickEntry N) := do
  let d ← frameData parse data
  let symbol ← d.get "symbol"
  if symbol.truthy then
    return ⟨symbol, ← d.get "price", ← d.get "volume", ← d.get "tick_time", now⟩
  else none

def Page.onTicks (parse : Parse N) (p : Page N) (data : List Char) (now : Nat) : Page N :=
  match readTick parse data now with
  | none => p
  | some entry =>
    { p with
      status := .open
      ticks := Function.update p.ticks entry.key (some entry)
      tickLog := (entry :: p.tickLog).take 50 }

/-- What the listener for `risk` takes from a frame. -/
def riskFrame (parse : Parse N) (data : List Char) (now : Nat) : Frame (JsValue N) :=
  ⟨frameData parse data, now⟩

def Page.onRisk (parse : Parse N) (p : Page N) (data : List Char) (now : Nat) : Page N :=
  let f := riskFrame parse data now
  { p with
    status := if f.data.isSome then .open else p.status
    stream := p.stream.onRisk f }

/-- An event goes to the listener for its type, and nowhere without one. -/
def Page.handle (parse : Parse N) (p : Page N) (e : Dispatched) (now : Nat) : Page N :=
  if e.1 = "ticks".toList then p.onTicks parse e.2 now
  else if e.1 = "risk".toList then p.onRisk parse e.2 now
  else p

/-! ## What the page shows -/

/-- The events handled of one type: their data, and when. -/
def framesOf (type : String) (handled : List (Dispatched × Nat)) : List (List Char × Nat) :=
  (handled.filter (·.1.1 = type.toList)).map fun e => (e.1.2, e.2)

/-- The entries of the ticks handled, oldest first. -/
def ticksOf (parse : Parse N) (handled : List (Dispatched × Nat)) : List (TickEntry N) :=
  (framesOf "ticks" handled).filterMap fun f => readTick parse f.1 f.2

/-- The newest tick of each symbol, the newest 50 of all, and the risk events. -/
structure Page.Shows (parse : Parse N) (p : Page N) (handled : List (Dispatched × Nat)) : Prop where
  ticks : ∀ k, p.ticks k = (ticksOf parse handled).reverse.find? (·.key = k)
  tickLog : p.tickLog = (ticksOf parse handled).reverse.take 50
  stream : p.stream = Stream.after ((framesOf "risk" handled).map fun f => riskFrame parse f.1 f.2)

theorem framesOf_append (type : String) (xs ys : List (Dispatched × Nat)) :
    framesOf type (xs ++ ys) = framesOf type xs ++ framesOf type ys := by simp [framesOf]

theorem ticksOf_append (parse : Parse N) (xs ys : List (Dispatched × Nat)) :
    ticksOf parse (xs ++ ys) = ticksOf parse xs ++ ticksOf parse ys := by
  rw [ticksOf, framesOf_append, List.filterMap_append, ticksOf, ticksOf]

section Handle

variable {parse : Parse N} {p : Page N} {handled : List (Dispatched × Nat)} {e : Dispatched}
  {now : Nat}

theorem framesOf_singleton (type : String) (e : Dispatched) (now : Nat) :
    framesOf type [(e, now)] = if e.1 = type.toList then [(e.2, now)] else [] := by
  by_cases h : e.1 = type.toList <;> simp [framesOf, h]

theorem shows_initial (parse : Parse N) : (Page.initial : Page N).Shows parse [] :=
  ⟨fun _ => rfl, rfl, rfl⟩

/-- What the page shows does not depend on its status. -/
theorem Page.Shows.status (h : p.Shows parse handled) (status : Status) :
    Page.Shows parse { p with status } handled := ⟨h.ticks, h.tickLog, h.stream⟩

theorem Page.Shows.onTicks (h : p.Shows parse handled) (he : e.1 = "ticks".toList) :
    (p.onTicks parse e.2 now).Shows parse (handled ++ [(e, now)]) := by
  have hticks : ticksOf parse (handled ++ [(e, now)]) =
      ticksOf parse handled ++ (readTick parse e.2 now).toList := by
    rw [ticksOf_append]
    congr 1
    rw [ticksOf, framesOf_singleton, if_pos he, List.filterMap_cons]
    cases readTick parse e.2 now <;> rfl
  have hrisk : framesOf "risk" (handled ++ [(e, now)]) = framesOf "risk" handled := by
    rw [framesOf_append, framesOf_singleton, if_neg (by rw [he]; decide), List.append_nil]
  unfold Page.onTicks
  cases hr : readTick parse e.2 now with
  | none =>
    rw [hr, Option.toList_none, List.append_nil] at hticks
    exact ⟨hticks ▸ h.ticks, hticks ▸ h.tickLog, hrisk ▸ h.stream⟩
  | some entry =>
    rw [hr, Option.toList_some] at hticks
    refine ⟨fun k => ?_, ?_, hrisk ▸ h.stream⟩
    · rw [hticks, List.reverse_append, List.reverse_singleton, List.singleton_append,
        List.find?_cons, ← h.ticks k]
      by_cases hk : entry.key = k
      · subst hk
        simp
      · simp [hk, Function.update_of_ne (Ne.symm hk)]
    · show (entry :: p.tickLog).take 50 = _
      rw [hticks, h.tickLog, List.reverse_append, List.reverse_singleton, List.singleton_append,
        List.take_succ_cons, List.take_succ_cons, List.take_take]
      rfl

theorem Page.Shows.onRisk (h : p.Shows parse handled) (he : e.1 = "risk".toList) :
    (p.onRisk parse e.2 now).Shows parse (handled ++ [(e, now)]) := by
  have hticks : ticksOf parse (handled ++ [(e, now)]) = ticksOf parse handled := by
    have hnone : ticksOf parse [(e, now)] = [] := by
      rw [ticksOf, framesOf_singleton, if_neg (by rw [he]; decide)]
      rfl
    rw [ticksOf_append, hnone, List.append_nil]
  refine ⟨hticks ▸ h.ticks, hticks ▸ h.tickLog, ?_⟩
  show p.stream.onRisk (riskFrame parse e.2 now) = _
  rw [h.stream, framesOf_append, framesOf_singleton, if_pos he, List.map_append, Stream.after,
    Stream.after, List.foldl_append]
  rfl

/-- **What the page shows of the events it has handled.** -/
theorem Page.Shows.handle (h : p.Shows parse handled) (e : Dispatched) (now : Nat) :
    (p.handle parse e now).Shows parse (handled ++ [(e, now)]) := by
  unfold Page.handle
  split
  · rename_i he
    exact h.onTicks he
  · rename_i hticks
    split
    · rename_i he
      exact h.onRisk he
    · rename_i hrisk
      have hsame : ∀ type : String, e.1 ≠ type.toList →
          framesOf type (handled ++ [(e, now)]) = framesOf type handled := by
        intro type hne
        rw [framesOf_append, framesOf_singleton, if_neg hne, List.append_nil]
      have hentries : ticksOf parse (handled ++ [(e, now)]) = ticksOf parse handled := by
        rw [ticksOf, hsame _ hticks, ticksOf]
      exact ⟨hentries ▸ h.ticks, hentries ▸ h.tickLog, hsame _ hrisk ▸ h.stream⟩

end Handle

end Page
end TradePulse.Dashboard
