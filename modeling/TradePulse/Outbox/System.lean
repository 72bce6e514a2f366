import TradePulse.Core.Runs
import TradePulse.Outbox.Posting

/-! # Ledger, relay, bus and consumer

`relay.py` and `consumer.py`, and the calls that the scenarios make of them, in
any order. The relay may die after any of its effects; the consumer keeps its
state and leaves what it has read pending. -/
namespace TradePulse.Outbox
open TradePulse.Core
open TradePulse.Poc (upsert)

def STREAM : String := "ledger.updates"
def GROUP : String := "cg:risk-engine"

/-! ## The relay -/

section Relay

variable {α : Type} (loads : Envelope LedgerData → α)

/-- `relay_outbox`; `loads` is how a payload stands on the bus. -/
def relay_outbox (stream : String) (inject_dup : Bool) (l : Ledger) (b : StreamBus α) :
    Nat × Ledger × StreamBus α :=
  l.unsent_outbox.foldl (fun (published, l, b) (event_id, payload) =>
    let b := (b.xadd stream (loads payload)).2
    let b := if inject_dup then (b.xadd stream (loads payload)).2 else b
    (published + 1, (Ledger.exec (Ledger.mark_sent event_id) l).2, b)) (0, l, b)

/-- One effect of the relay on the ledger or the bus. -/
inductive Effect where
  | xadd (payload : Envelope LedgerData)
  | mark_sent (event_id : String)

def Effect.apply (stream : String) (s : Ledger × StreamBus α) : Effect → Ledger × StreamBus α
  | .xadd payload => (s.1, (s.2.xadd stream (loads payload)).2)
  | .mark_sent event_id => ((Ledger.exec (Ledger.mark_sent event_id) s.1).2, s.2)

def rowEffects (inject_dup : Bool) (row : String × Envelope LedgerData) : List Effect :=
  .xadd row.2 :: ((if inject_dup then [.xadd row.2] else []) ++ [.mark_sent row.1])

/-- The relay up to its `n`th effect. -/
def relayTo (stream : String) (inject_dup : Bool) (n : Nat) (l : Ledger) (b : StreamBus α) :
    Ledger × StreamBus α :=
  ((l.unsent_outbox.flatMap (rowEffects inject_dup)).take n).foldl (Effect.apply loads stream)
    (l, b)

/-- All effects together are the relay. -/
theorem relay_outbox_eq (stream : String) (inject_dup : Bool) (l : Ledger) (b : StreamBus α)
    {n : Nat} (hn : (l.unsent_outbox.flatMap (rowEffects inject_dup)).length ≤ n) :
    relay_outbox loads stream inject_dup l b =
      (l.unsent_outbox.length, relayTo loads stream inject_dup n l b) := by
  rw [relayTo, List.take_of_length_le hn, relay_outbox]
  have hloop : ∀ (rows : List (String × Envelope LedgerData)) (published : Nat) (l : Ledger)
      (b : StreamBus α), rows.foldl (fun (published, l, b) (event_id, payload) =>
        let b := (b.xadd stream (loads payload)).2
        let b := if inject_dup then (b.xadd stream (loads payload)).2 else b
        (published + 1, (Ledger.exec (Ledger.mark_sent event_id) l).2, b)) (published, l, b) =
      (published + rows.length,
        (rows.flatMap (rowEffects inject_dup)).foldl (Effect.apply loads stream) (l, b)) := by
    intro rows
    induction rows with
    | nil => exact fun published l b => rfl
    | cons row rows ih =>
      intro published l b
      rw [List.foldl_cons, ih, List.flatMap_cons, List.foldl_append, List.length_cons]
      refine Prod.ext (by dsimp only; omega) ?_
      cases inject_dup <;> rfl
  rw [hloop, Nat.zero_add]

end Relay

/-! ## The consumer -/

abbrev Bus : Type := StreamBus (Envelope LedgerData)

structure RiskConsumer where
  seen : List String
  position_view : List ((String × String) × ℚ)
  applied : Nat
  skipped : Nat

namespace RiskConsumer

def new : RiskConsumer := ⟨[], [], 0, 0⟩

/-- What `_apply` does to the consumer. -/
def note (c : RiskConsumer) (evt : Envelope LedgerData) : RiskConsumer :=
  if evt.event_id ∈ c.seen then { c with skipped := c.skipped + 1 }
  else
    { c with
      position_view := upsert c.position_view (evt.data.account_id, evt.data.symbol)
        evt.data.position_after
      seen := c.seen ++ [evt.event_id]
      applied := c.applied + 1 }

/-- `_apply`: both branches acknowledge at the end. -/
def apply (s : RiskConsumer × Bus) (e : Nat × Envelope LedgerData) :
    Except Failure (RiskConsumer × Bus) := do
  let b ← s.2.xack STREAM GROUP e.1
  return (s.1.note e.2, b)

inductive PollResult where
  | ok
  | crashed_before_ack

/-- The loop of `poll`. -/
def pollLoop (crash_before_ack : Bool) : List (Nat × Envelope LedgerData) → RiskConsumer × Bus →
    Except Failure (PollResult × RiskConsumer × Bus)
  | [], s => return (.ok, s)
  | e :: rest, s =>
    if crash_before_ack then return (.crashed_before_ack, s)
    else do pollLoop crash_before_ack rest (← apply s e)

def poll (crash_before_ack : Bool) (s : RiskConsumer × Bus) :
    Except Failure (PollResult × RiskConsumer × Bus) := do
  let (out, b) ← s.2.xreadgroup STREAM GROUP 10
  pollLoop crash_before_ack out (s.1, b)

def recover (s : RiskConsumer × Bus) : Except Failure (RiskConsumer × Bus) := do
  let pending ← s.2.redeliver_pending STREAM GROUP
  pending.foldlM apply s

end RiskConsumer

/-! ## Runs -/

structure World where
  ledger : Ledger
  bus : Bus
  consumer : Option RiskConsumer

def World.start (w : World) : Prop := w = ⟨.new, .new, none⟩

/-- The calls of a scenario. -/
inductive Act where
  | post_trade (req : Req) (crash_point : Option CrashPoint) (d : Draws)
  | relay_outbox (inject_dup : Bool) (effects : Nat)
  /-- `RiskConsumer(bus)`. -/
  | consume
  | poll (crash_before_ack : Bool)
  | recover
  | setid (start : Int)

/-- `none` where a method is called before the object exists, or raises a `KeyError`. -/
def step : Act → World → Option World
  | .post_trade req crash_point d, w =>
    some { w with ledger := (Ledger.exec (Ledger.post_trade req crash_point d) w.ledger).2 }
  | .relay_outbox inject_dup effects, w =>
    let (l, b) := relayTo id STREAM inject_dup effects w.ledger w.bus
    some { w with ledger := l, bus := b }
  | .consume, w =>
    some { w with bus := w.bus.xgroup_create STREAM GROUP 0, consumer := some .new }
  | .poll crash_before_ack, w => do
    let c ← w.consumer
    let (_, c, b) ← (RiskConsumer.poll crash_before_ack (c, w.bus)).toOption
    return { w with bus := b, consumer := some c }
  | .recover, w => do
    let c ← w.consumer
    let (c, b) ← (RiskConsumer.recover (c, w.bus)).toOption
    return { w with bus := b, consumer := some c }
  | .setid start, w => some { w with bus := w.bus.setid STREAM GROUP start }

theorem step_poll {crash_before_ack : Bool} {w w' : World}
    (h : step (.poll crash_before_ack) w = some w') : ∃ c, w.consumer = some c ∧
      ∃ r, RiskConsumer.poll crash_before_ack (c, w.bus) = .ok r ∧
        w' = { w with bus := r.2.2, consumer := some r.2.1 } := by
  obtain ⟨c, hc, h⟩ := Option.bind_eq_some_iff.mp h
  obtain ⟨r, hr, h⟩ := Option.bind_eq_some_iff.mp h
  cases h
  refine ⟨c, hc, r, ?_, rfl⟩
  cases hp : RiskConsumer.poll crash_before_ack (c, w.bus) with
  | ok r' =>
    rw [hp] at hr
    cases hr
    rfl
  | error e =>
    rw [hp] at hr
    cases hr

theorem step_recover {w w' : World} (h : step .recover w = some w') : ∃ c, w.consumer = some c ∧
    ∃ s, RiskConsumer.recover (c, w.bus) = .ok s ∧
      w' = { w with bus := s.2, consumer := some s.1 } := by
  obtain ⟨c, hc, h⟩ := Option.bind_eq_some_iff.mp h
  obtain ⟨s, hs, h⟩ := Option.bind_eq_some_iff.mp h
  cases h
  refine ⟨c, hc, s, ?_, rfl⟩
  cases hr : RiskConsumer.recover (c, w.bus) with
  | ok s' =>
    rw [hr] at hs
    cases hs
    rfl
  | error e =>
    rw [hr] at hs
    cases hs

/-- The identifiers of a call are new. -/
def Fresh (w : World) : Act → Prop
  | .post_trade _ _ d => Ledger.Fresh w.ledger.db d
  | _ => True

instance (db : Db) (d : Draws) : Decidable (Ledger.Fresh db d) :=
  decidable_of_iff (d.audit_id ∉ db.audit_log.map (·.audit_id) ∧
    d.je_id ∉ db.journal_entries.map (·.je_id) ∧ d.event_id ∉ db.outbox_events.map (·.event_id))
    ⟨fun h => ⟨h.1, h.2.1, h.2.2⟩, fun h => ⟨h.1, h.2, h.3⟩⟩

instance (w : World) : ∀ a : Act, Decidable (Fresh w a)
  | .post_trade _ _ d => inferInstanceAs (Decidable (Ledger.Fresh w.ledger.db d))
  | .relay_outbox .. | .consume | .poll _ | .recover | .setid _ => .isTrue trivial

/-! ## A scenario -/

/-- `req` of the scenarios, which buys ten at a hundred. -/
def buy (request_id : String) : Req :=
  ⟨request_id, "acct_123", "AAPL", "BUY", 10, 100, some "corr-1"⟩

def draws (n : String) : Draws :=
  ⟨"audit-" ++ n, "je-" ++ n, "event-" ++ n, "corr-" ++ n, "t", "t", "t", "t", "t"⟩

/-- Two trades, of which the first is published twice; the consumer crashes
before it has acknowledged either, recovers, and is made to read again. -/
def scenario : List Act :=
  [.consume, .post_trade (buy "r1") (some .after_commit_before_publish) (draws "1"),
    .relay_outbox true 10, .post_trade (buy "r2") none (draws "2"),
    .post_trade (buy "r2") none (draws "3"), .relay_outbox false 1, .relay_outbox false 10,
    .poll true, .recover, .setid 0, .poll false]

end TradePulse.Outbox
