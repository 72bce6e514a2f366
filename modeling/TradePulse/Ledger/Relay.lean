import TradePulse.Ledger.Schema
import TradePulse.Core.Process

/-! # `OutboxRelay`: publish, then mark sent

The relay reads a batch of unsent outbox rows, oldest first, adds each to the
`ledger.updates` stream and then marks it. Its calls are answered by a world
that holds the outbox and the stream; any of them may raise, `XADD` also after
the entry was appended and the `UPDATE` also after it took effect. -/
namespace TradePulse.Ledger
open TradePulse.Core TradePulse.Core.Process

/-! ## Program -/

structure OutboxEvent (π : Type) where
  event_id : UUID
  event_type : String
  payload : π
  deriving DecidableEq

structure LedgerStreamProperties where
  enabled : Bool
  batchSize : Int
  deriving DecidableEq

/-- The fields of a stream entry. -/
structure StreamFields (π : Type) where
  event_type : String
  schema_version : String
  event : π
  deriving DecidableEq

inductive RelayError where
  | dataAccess
  | redis
  deriving DecidableEq

/-- `xadd` carries the id of the row it publishes for the world's records; it
is no part of the entry. -/
inductive RelayCall (π : Type) where
  | findUnsent (limit : Int)
  | xadd (row : UUID) (fields : StreamFields π)
  | markSent (eventId : UUID)

abbrev RelayCall.Result {π : Type} : RelayCall π → Type
  | .findUnsent _ => List (OutboxEvent π)
  | .xadd _ _ => Nat
  | .markSent _ => Int

abbrev RelayM (π α : Type) := Prog (RelayCall π) RelayCall.Result RelayError α

section Program

variable {π : Type}

def findUnsent (limit : Int) : RelayM π (List (OutboxEvent π)) :=
  .perform (RelayCall.findUnsent limit)
def markSent (eventId : UUID) : RelayM π Int := .perform (RelayCall.markSent eventId)

/-- `StreamPublisher.publish`: the record id, or `none` (`null`) when disabled. -/
def publish (properties : LedgerStreamProperties) (row : UUID) (fields : StreamFields π) :
    RelayM π (Option Nat) :=
  if !properties.enabled then return none
  else some <$> (.perform (RelayCall.xadd row fields) : RelayM π Nat)

/-- `schemaVersion` is the text of the payload's `schema_version`, if the
payload parses and has one. -/
def toFields (schemaVersion : π → Option String) (event : OutboxEvent π) : StreamFields π where
  event_type := event.event_type
  schema_version := (schemaVersion event.payload).getD "1"
  event := event.payload

variable (schemaVersion : π → Option String) (properties : LedgerStreamProperties)

/-- The loop of `relayBatch` over the rows still to publish. -/
def relayRows : List (OutboxEvent π) → Int → RelayM π Int
  | [], published => return published
  | event :: later, published => do
    let sent ← (do
      let _ ← publish properties event.event_id (toFields schemaVersion event)
      return true).tryCatch fun _ => return false
    if !sent then return published   -- leave this row and all later rows unsent
    let _ ← markSent event.event_id
    relayRows later (published + 1)

def relayBatch : RelayM π Int :=
  if !properties.enabled then return 0
  else do
    let unsent ← findUnsent properties.batchSize
    relayRows schemaVersion properties unsent 0

def drainScheduled : RelayM π Unit :=
  if !properties.enabled then return ()
  else (do
    let _ ← relayBatch schemaVersion properties
    return ()).tryCatch fun _ => return ()

end Program

/-! ## World -/

/-- A store that has an outbox table. -/
structure Outbox (σ π : Type) where
  rows : σ → List (OutboxRow π)
  markSent : UUID → σ → σ
  rows_markSent : ∀ id s, rows (markSent id s) =
    (rows s).map fun r => if r.event_id = id then { r with sent := true } else r

/-- An entry of `ledger.updates`, with the row it was published for. -/
structure StreamEntry (π : Type) where
  row : UUID
  fields : StreamFields π
  deriving DecidableEq

inductive RelayLog where
  | published (row : UUID)
  | raised (row : UUID)
  | marked (row : UUID)
  deriving DecidableEq

/-- The store and the stream, and the world's records of the relay: the row
that has been appended and not yet marked, the failures that hit a row in
between, what the current call has done, whether it found the relay disabled,
and what it found on the stream and marked. -/
structure RelayWorld (σ π : Type) where
  store : σ
  stream : List (StreamEntry π)
  appended : Option UUID
  hits : List UUID
  log : List RelayLog
  disabled : Bool
  streamBefore : List (StreamEntry π)
  sentBefore : List UUID

/-- How the world answers a call: `order` is the outcome of the `ORDER BY`. -/
inductive RelayChoice (π : Type) where
  | rows (order : List (OutboxRow π))
  | done
  | raiseBefore
  | raiseAfter

section World

variable {σ π : Type} (O : Outbox σ π)

def OutboxRow.toEvent (r : OutboxRow π) : OutboxEvent π where
  event_id := r.event_id
  event_type := r.event_type.val
  payload := r.payload

def unsentRows (rows : List (OutboxRow π)) : List (OutboxRow π) := rows.filter (!·.sent)

/-- `order` lists the unsent rows by `created_at`; ties come in any order. -/
def IsOrdered (rows order : List (OutboxRow π)) : Prop :=
  order.Perm (unsentRows rows) ∧ order.Pairwise fun a b => a.created_at ≤ b.created_at

instance [DecidableEq π] (rows order : List (OutboxRow π)) : Decidable (IsOrdered rows order) :=
  inferInstanceAs (Decidable (_ ∧ _))

def sentIds (rows : List (OutboxRow π)) : List UUID :=
  (rows.filter (·.sent)).map (·.event_id)

namespace RelayWorld

/-- The entry is appended; the row now has to be marked. -/
def append (w : RelayWorld σ π) (row : UUID) (fields : StreamFields π) : RelayWorld σ π :=
  { w with stream := w.stream ++ [⟨row, fields⟩], appended := some row
           log := w.log ++ [.published row] }

/-- The entry is appended although `XADD` raised. -/
def appendLost (w : RelayWorld σ π) (row : UUID) (fields : StreamFields π) : RelayWorld σ π :=
  { w with stream := w.stream ++ [⟨row, fields⟩], hits := w.hits ++ [row]
           log := w.log ++ [.raised row] }

/-- `XADD` raised and appended nothing. -/
def refuse (w : RelayWorld σ π) (row : UUID) : RelayWorld σ π :=
  { w with log := w.log ++ [.raised row] }

/-- The row is marked. -/
def mark (w : RelayWorld σ π) (row : UUID) : RelayWorld σ π :=
  { w with store := O.markSent row w.store, appended := none, log := w.log ++ [.marked row] }

/-- The appended row is left unmarked. -/
def hit (w : RelayWorld σ π) : RelayWorld σ π :=
  { w with appended := none, hits := w.hits ++ w.appended.toList }

/-- A call begins. -/
def enter (w : RelayWorld σ π) (enabled : Bool) : RelayWorld σ π :=
  { w with log := [], disabled := !enabled, streamBefore := w.stream
           sentBefore := sentIds (O.rows w.store) }

/-- A call is over. -/
def leave (w : RelayWorld σ π) : RelayWorld σ π := { w with disabled := false }

end RelayWorld

def relayExec [DecidableEq π] : (i : RelayCall π) → RelayChoice π → RelayWorld σ π →
    Option (Except RelayError i.Result × RelayWorld σ π)
  | .findUnsent limit, .rows order, w =>
    if 0 ≤ limit ∧ IsOrdered (O.rows w.store) order then
      some (.ok ((order.take limit.toNat).map (·.toEvent)), w)
    else none
  | .findUnsent _, .raiseBefore, w => some (.error .dataAccess, w)
  | .xadd row fields, .done, w => some (.ok w.stream.length, w.append row fields)
  | .xadd row _, .raiseBefore, w => some (.error .redis, w.refuse row)
  | .xadd row fields, .raiseAfter, w => some (.error .redis, w.appendLost row fields)
  | .markSent id, .done, w => some (.ok 1, w.mark O id)
  | .markSent _, .raiseBefore, w => some (.error .dataAccess, w.hit)
  | .markSent id, .raiseAfter, w => some (.error .dataAccess, w.mark O id)
  | _, _, _ => none

/-- What starts the relay: the scheduler, or a direct call. -/
inductive RelayEntry where
  | relayBatch (properties : LedgerStreamProperties)
  | drainScheduled (properties : LedgerStreamProperties)

def RelayEntry.properties : RelayEntry → LedgerStreamProperties
  | .relayBatch p => p
  | .drainScheduled p => p

/-- The relay over a store whose environment steps are `env`. -/
def relayMachine [DecidableEq π] {η : Type} (schemaVersion : π → Option String)
    (env : η → σ → Option σ) :
    Machine (RelayCall π) RelayCall.Result RelayError RelayEntry (RelayChoice π) η
      (RelayWorld σ π) (Option Int) where
  code
    | .relayBatch p => some <$> relayBatch schemaVersion p
    | .drainScheduled p => (fun _ => none) <$> drainScheduled schemaVersion p
  exec := relayExec O
  enter c w := w.enter O c.properties.enabled
  leave _ w := w.leave
  crash w := w.hit.leave
  env e w := (env e w.store).map fun s => { w with store := s }

/-! ## Reasoning about the relay -/

/-- Assertions at the points of a batch: outside it, before the rows are
selected, before publishing the first of the rest, and before marking a
published row. -/
structure Points (σ π : Type) where
  rest : RelayWorld σ π → Prop
  start : RelayWorld σ π → Prop
  rows : List (OutboxRow π) → RelayWorld σ π → Prop
  mark : OutboxRow π → List (OutboxRow π) → RelayWorld σ π → Prop

variable [DecidableEq π] {η : Type} (schemaVersion : π → Option String)
  (env : η → σ → Option σ) (G : Guard (RelayCall π) RelayEntry (RelayChoice π) η (RelayWorld σ π))

/-- What an argument about the relay has to show of the assertions: the
environment keeps them, they imply `C`, and each step leads from one to the next. -/
structure RelayRules (C : RelayWorld σ π → Prop) (A : Points σ π) : Prop where
  rest_stable : Stable (relayMachine O schemaVersion env) G A.rest
  start_stable : Stable (relayMachine O schemaVersion env) G A.start
  rows_stable : ∀ rs, Stable (relayMachine O schemaVersion env) G (A.rows rs)
  mark_stable : ∀ x rs, Stable (relayMachine O schemaVersion env) G (A.mark x rs)
  rest_C : ∀ w, A.rest w → C w
  rows_C : ∀ rs w, A.rows rs w → C w
  mark_C : ∀ x rs w, A.mark x rs w → C w
  start_rest : ∀ w, A.start w → A.rest w
  nil_rest : ∀ w, A.rows [] w → A.rest w
  select : ∀ w order limit, A.start w → IsOrdered (O.rows w.store) order →
    A.rows (order.take limit) w
  append : ∀ w x rs fields, A.rows (x :: rs) w → fields.event = x.payload →
    A.mark x rs (w.append x.event_id fields)
  refuse : ∀ w x rs, A.rows (x :: rs) w → A.rest (w.refuse x.event_id)
  appendLost : ∀ w x rs fields, A.rows (x :: rs) w → fields.event = x.payload →
    A.rest (w.appendLost x.event_id fields)
  mark : ∀ w x rs, A.mark x rs w → A.rows rs (w.mark O x.event_id)
  markLate : ∀ w x rs, A.mark x rs w → A.rest (w.mark O x.event_id)
  markLost : ∀ w x rs, A.mark x rs w → A.rest w.hit
  enter : ∀ w enabled, A.rest w → A.rest (w.enter O enabled)
  begin : ∀ w, A.rest w → A.start (w.enter O true)
  leave : ∀ w, A.rest w → A.rest w.leave
  crash : ∀ w, C w → G.crash w → A.rest w.hit.leave

variable {O schemaVersion env G} {C : RelayWorld σ π → Prop} {A : Points σ π}
  {properties : LedgerStreamProperties} {β : Type}

/-- `Safe` for the relay: `C` wherever it is cut off, `A.rest` when it ends. -/
abbrev RelaySafe (O : Outbox σ π) (schemaVersion : π → Option String)
    (env : η → σ → Option σ)
    (G : Guard (RelayCall π) RelayEntry (RelayChoice π) η (RelayWorld σ π))
    (C : RelayWorld σ π → Prop) (A : Points σ π) (p : RelayM π β) (w : RelayWorld σ π) : Prop :=
  Safe (relayMachine O schemaVersion env) G C (fun _ => A.rest) p w

namespace RelayRules

theorem ret (R : RelayRules O schemaVersion env G C A) {b : β} {w : RelayWorld σ π}
    (h : A.rest w) : RelaySafe O schemaVersion env G C A (.ret b) w :=
  Safe.ret R.rest_stable R.rest_C (fun _ h => h) h

theorem raise (R : RelayRules O schemaVersion env G C A) {e : RelayError} {w : RelayWorld σ π}
    (h : A.rest w) : RelaySafe (β := β) O schemaVersion env G C A (.raise e) w :=
  Safe.raise R.rest_stable R.rest_C (fun _ h => h) h

/-- Marking a published row leads on to the rest of the batch. -/
theorem markSent (R : RelayRules O schemaVersion env G C A) {x : OutboxRow π}
    {rs : List (OutboxRow π)} {f : Int → RelayM π β}
    (hf : ∀ n w, A.rows rs w → RelaySafe O schemaVersion env G C A (f n) w)
    {w : RelayWorld σ π} (h : A.mark x rs w) :
    RelaySafe O schemaVersion env G C A (markSent x.event_id >>= f) w := by
  refine Safe.perform (R.mark_stable x rs) (R.mark_C x rs) ?_ ?_ h
  · intro w o n w' hA _ hx
    cases o with
    | done =>
      cases hx
      exact hf _ _ (R.mark w x rs hA)
    | _ => cases hx
  · intro w o e w' hA _ hx
    cases o with
    | raiseBefore =>
      cases hx
      exact R.raise (R.markLost w x rs hA)
    | raiseAfter =>
      cases hx
      exact R.raise (R.markLate w x rs hA)
    | _ => cases hx

/-- The attempt to publish: the row waits to be marked, or the batch is over. -/
theorem publish (R : RelayRules O schemaVersion env G C A) (hen : properties.enabled = true)
    {x : OutboxRow π} {rs : List (OutboxRow π)} {f : Bool → RelayM π β}
    (htrue : ∀ w, A.mark x rs w → RelaySafe O schemaVersion env G C A (f true) w)
    (hfalse : ∀ w, A.rest w → RelaySafe O schemaVersion env G C A (f false) w)
    {w : RelayWorld σ π} (h : A.rows (x :: rs) w) :
    RelaySafe O schemaVersion env G C A ((do
      let _ ← publish properties x.event_id (toFields schemaVersion x.toEvent)
      return true : RelayM π Bool).tryCatch (fun _ => return false) >>= f) w := by
  refine Safe.bind (Safe.tryCatch ?_)
  rw [Ledger.publish, if_neg (by simp [hen]), Prog.map_bind]
  refine Safe.perform (R.rows_stable (x :: rs)) (R.rows_C _) ?_ ?_ h
  · intro w o n w' hA _ hx
    cases o with
    | done =>
      cases hx
      exact Safe.ret (R.mark_stable x rs) (R.mark_C x rs) htrue (R.append w x rs _ hA rfl)
    | _ => cases hx
  · intro w o e w' hA _ hx
    -- the exception is caught, and the handler ends the batch
    refine Safe.raise (A := A.rest) R.rest_stable R.rest_C
      (fun w hw => Safe.ret R.rest_stable R.rest_C hfalse hw) ?_
    cases o with
    | raiseBefore =>
      cases hx
      exact R.refuse w x rs hA
    | raiseAfter =>
      cases hx
      exact R.appendLost w x rs _ hA rfl
    | _ => cases hx

theorem relayRows (R : RelayRules O schemaVersion env G C A) (hen : properties.enabled = true)
    (rs : List (OutboxRow π)) : ∀ (n : Int) (w : RelayWorld σ π), A.rows rs w →
      RelaySafe O schemaVersion env G C A
        (relayRows schemaVersion properties (rs.map (·.toEvent)) n) w := by
  induction rs with
  | nil => exact fun n w h => R.ret (R.nil_rest w h)
  | cons x rs ih =>
    intro n w h
    exact R.publish (f := fun sent => if !sent then return n else do
        let _ ← Ledger.markSent x.event_id
        Ledger.relayRows schemaVersion properties (rs.map (·.toEvent)) (n + 1)) hen
      (fun w hw => R.markSent (fun _ w hw => ih _ w hw) hw) (fun w hw => R.ret hw) h

theorem relayBatch (R : RelayRules O schemaVersion env G C A) {w : RelayWorld σ π}
    (hw : A.rest w) (hstart : properties.enabled = true → A.start w) :
    RelaySafe O schemaVersion env G C A (relayBatch schemaVersion properties) w := by
  by_cases hen : properties.enabled = true
  · rw [Ledger.relayBatch, if_neg (by simp [hen])]
    refine Safe.perform R.start_stable (fun w h => R.rest_C w (R.start_rest w h)) ?_ ?_
      (hstart hen)
    · intro w o rows w' hA _ hx
      cases o with
      | rows order =>
        simp only [relayMachine, relayExec, Option.ite_none_right_eq_some, Option.some.injEq,
          Prod.mk.injEq, Except.ok.injEq] at hx
        obtain ⟨⟨-, hord⟩, rfl, rfl⟩ := hx
        exact R.relayRows hen _ 0 _ (R.select w order _ hA hord)
      | _ => cases hx
    · intro w o e w' hA _ hx
      cases o with
      | raiseBefore =>
        cases hx
        exact R.raise (R.start_rest w hA)
      | rows order =>
        simp only [relayMachine, relayExec] at hx
        split at hx <;> cases hx
      | _ => cases hx
  · rw [Ledger.relayBatch, if_pos (by simp [hen])]
    exact R.ret hw

theorem drainScheduled (R : RelayRules O schemaVersion env G C A) {w : RelayWorld σ π}
    (hw : A.rest w) (hstart : properties.enabled = true → A.start w) :
    RelaySafe O schemaVersion env G C A (drainScheduled schemaVersion properties) w := by
  by_cases hen : properties.enabled = true
  · rw [Ledger.drainScheduled, if_neg (by simp [hen])]
    refine Safe.tryCatch (Safe.bind ((R.relayBatch hw hstart).mono fun r w h => ?_))
    cases r with
    | ok n => exact Safe.ret R.rest_stable R.rest_C (fun _ h => h) h
    | error e => exact R.ret h
  · rw [Ledger.drainScheduled, if_pos (by simp [hen])]
    exact R.ret hw

/-- **The relay keeps its assertions.** Between calls `A.rest` holds, during a
call `C` does. -/
theorem proof (R : RelayRules O schemaVersion env G C A) :
    Proof (relayMachine O schemaVersion env) G A.rest C (fun _ => A.rest) where
  enter c w h _ := by
    have hw := R.enter w c.properties.enabled h
    have hstart : c.properties.enabled = true → A.start (w.enter O c.properties.enabled) :=
      fun hen => hen ▸ R.begin w h
    cases c with
    | relayBatch p =>
      refine Safe.bind ((R.relayBatch hw hstart).mono fun r w h => ?_)
      cases r with
      | ok n => exact R.ret h
      | error e => exact h
    | drainScheduled p =>
      refine Safe.bind ((R.drainScheduled hw hstart).mono fun r w h => ?_)
      cases r with
      | ok n => exact R.ret h
      | error e => exact h
  leave _ w h := R.leave w h
  crash w h hg := R.crash w h hg
  idle_crash w h hg := R.crash w (R.rest_C w h) hg
  idle_env := R.rest_stable

end RelayRules

end World
end TradePulse.Ledger
