import TradePulse.Outbox.Draining
import TradePulse.Risk.Exact

/-! # The pipeline of the end-to-end run

`market_data.py`, `risk_engine.py`, `gateway.py` and `run_pipeline.py`, on the
bus and the ledger of the other proof of concept and in exact arithmetic. The
`n`th call of `uuid4` and `now` for an envelope returns `draw n`. -/
namespace TradePulse.Outbox
open TradePulse.Core
open TradePulse.Poc (upsert)
open TradePulse.Risk (roundHalfEven)

structure TickData where
  symbol : String
  price : ℚ
  volume : ℚ
  source : String
  tick_time : String

structure RiskData where
  account_id : String
  portfolio_value : ℚ
  pnl : ℚ
  volatility : ℚ
  var : ℚ
  var_method : String
  sharpe : ℚ
  computed_at : String

inductive Data where
  | tick (d : TickData)
  | ledger (d : LedgerData)
  | risk (d : RiskData)

abbrev Event : Type := Envelope Data

/-- `json.loads` of a payload. -/
def ledgerEvent (e : Envelope LedgerData) : Event := { e with data := .ledger e.data }

def STREAM_TICKS : String := "market.ticks"
def STREAM_LEDGER : String := "ledger.updates"
def STREAM_RISK : String := "risk.updates"
def GROUP_GATEWAY : String := "cg:gateway"
def SEED_CASH : ℚ := 10000

/-- What is drawn for one envelope. -/
structure Draw where
  event_id : String
  produced_at : String
  time : String

def envelope (d : Draw) (event_type producer : String) (data : Data) (correlation_id : String) :
    Event where
  event_id := d.event_id
  event_type := event_type
  schema_version := "1"
  correlation_id := correlation_id
  produced_at := d.produced_at
  producer := producer
  data := data

/-! ## Market data -/

def tickEvent (d : Draw) (symbol : String) (correlation_id : String) (price : ℚ) : Event :=
  envelope d "TickReceived" "market-data" (.tick ⟨symbol, price, 100, "synthetic", d.time⟩)
    correlation_id

def produce_ticks (draw : Nat → Draw) (correlation_id symbol : String) :
    List ℚ → Nat × StreamBus Event → Nat × StreamBus Event
  | [], s => s
  | price :: prices, (n, b) =>
    produce_ticks draw correlation_id symbol prices
      (n + 1, (b.xadd STREAM_TICKS (tickEvent (draw n) symbol correlation_id price)).2)

/-! ## The risk engine -/

/-- `PriceCache.latest`, and the loop of `refresh`. -/
def refreshLoop : List (Nat × Event) → List (String × ℚ) × StreamBus Event →
    Except Failure (List (String × ℚ) × StreamBus Event)
  | [], s => return s
  | (eid, evt) :: rest, (latest, b) =>
    match evt.data with
    | .tick d => do
      let b ← b.xack STREAM_TICKS GROUP eid
      refreshLoop rest (upsert latest d.symbol d.price, b)
    | _ => throw .KeyError

def refresh (s : List (String × ℚ) × StreamBus Event) :
    Except Failure (List (String × ℚ) × StreamBus Event) := do
  let (out, b) ← s.2.xreadgroup STREAM_TICKS GROUP 10
  refreshLoop out (s.1, b)

structure RiskEngine where
  seen : List String
  pos : List (String × ℚ)
  cost : List (String × ℚ)
  returns : List ℚ
  last_pv : Option ℚ
  applied : Nat
  skipped : Nat

namespace RiskEngine

def new : RiskEngine := ⟨[], [], [], [], none, 0, 0⟩

/-- `pstdev` raises for no data only. -/
def volatility (returns : List ℚ) : ℚ :=
  if 1 < returns.length then (Risk.pstdev returns).toOption.getD 0 else 0

def sharpe (returns : List ℚ) (vol : ℚ) : ℚ :=
  if 0 < vol then (Risk.mean returns).toOption.getD 0 / vol else 0

/-- `d.get(key, 0.0)`. -/
def get (rows : List (String × ℚ)) (key : String) : ℚ := (Ledger.fetch key rows).getD 0

/-- `_compute`: the engine afterwards, and what it publishes. -/
def compute (r : RiskEngine) (latest : List (String × ℚ)) (d : Draw)
    (account_id correlation_id : String) : RiskEngine × Event :=
  let symbol := "AAPL"
  let price := get latest symbol
  let qty := get r.pos symbol
  let market_value := qty * price
  let cost := get r.cost symbol
  let pnl := market_value - cost
  let pv := SEED_CASH + pnl
  let returns := match r.last_pv with
    | some last => if last = 0 then r.returns else r.returns ++ [(pv - last) / last]
    | none => r.returns
  let vol := volatility returns
  let var := 33 / 20 * vol * pv
  ({ r with returns, last_pv := some pv },
    envelope d "RiskComputed" "risk-engine"
      (.risk
        { account_id, portfolio_value := roundHalfEven pv 2, pnl := roundHalfEven pnl 2
          volatility := roundHalfEven vol 6, var := roundHalfEven |var| 2
          var_method := "parametric", sharpe := roundHalfEven (sharpe returns vol) 4
          computed_at := d.time })
      correlation_id)

/-- The first branch of `_apply`, and the second up to `_compute`. -/
def note (r : RiskEngine) (evt : Event) (d : LedgerData) : RiskEngine :=
  { r with
    pos := upsert r.pos d.symbol d.position_after
    cost := upsert r.cost d.symbol (get r.cost d.symbol + -d.cash_delta)
    seen := r.seen ++ [evt.event_id]
    applied := r.applied + 1 }

/-- The engine, the calls drawn so far, and the bus. -/
abbrev Working : Type := RiskEngine × Nat × StreamBus Event

def apply (draw : Nat → Draw) (latest : List (String × ℚ)) (s : Working) (e : Nat × Event) :
    Except Failure Working :=
  let (r, n, b) := s
  if e.2.event_id ∈ r.seen then do
    let b ← b.xack STREAM_LEDGER GROUP e.1
    return ({ r with skipped := r.skipped + 1 }, n, b)
  else match e.2.data with
    | .ledger d => do
      let b ← b.xack STREAM_LEDGER GROUP e.1
      let (r, evt) := (r.note e.2 d).compute latest (draw n) d.account_id e.2.correlation_id
      return (r, n + 1, (b.xadd STREAM_RISK evt).2)
    | _ => throw .KeyError

/-- `poll`, and `replay_pending`, which has the same body. -/
def poll (draw : Nat → Draw) (latest : List (String × ℚ)) (s : Working) :
    Except Failure Working := do
  let (out, b) ← s.2.2.xreadgroup STREAM_LEDGER GROUP 10
  out.foldlM (apply draw latest) (s.1, s.2.1, b)

end RiskEngine

/-! ## The gateway -/

structure Gateway where
  seen : List String
  pushed : List (String × String)

namespace Gateway

def new : Gateway := ⟨[], []⟩

/-- `data.get("symbol") or data.get("account_id", "")`. -/
def label : Data → String
  | .tick d => d.symbol
  | .ledger d => if d.symbol = "" then d.account_id else d.symbol
  | .risk d => d.account_id

def note (gw : Gateway) (evt : Event) : Gateway :=
  if evt.event_id ∈ gw.seen then gw
  else ⟨gw.seen ++ [evt.event_id], gw.pushed ++ [(evt.event_type, label evt.data)]⟩

def pushEntry (stream : String) (s : Gateway × StreamBus Event) (e : Nat × Event) :
    Except Failure (Gateway × StreamBus Event) := do
  let b ← s.2.xack stream GROUP_GATEWAY e.1
  return (s.1.note e.2, b)

def pumpStream (stream : String) (s : Gateway × StreamBus Event) :
    Except Failure (Gateway × StreamBus Event) := do
  let (out, b) ← s.2.xreadgroup stream GROUP_GATEWAY 10
  out.foldlM (pushEntry stream) (s.1, b)

def pump (s : Gateway × StreamBus Event) : Except Failure (Gateway × StreamBus Event) :=
  [STREAM_TICKS, STREAM_RISK].foldlM (fun s stream => pumpStream stream s) s

end Gateway

/-! ## Runs -/

structure Pipeline where
  ledger : Ledger
  bus : StreamBus Event
  latest : List (String × ℚ)
  risk : RiskEngine
  gateway : Gateway
  drawn : Nat

/-- `main` after the constructors. -/
def Pipeline.new : Pipeline where
  ledger := .new
  bus := ((((StreamBus.new.xgroup_create STREAM_TICKS GROUP 0).xgroup_create
    STREAM_LEDGER GROUP 0).xgroup_create STREAM_TICKS GROUP_GATEWAY 0).xgroup_create
    STREAM_RISK GROUP_GATEWAY 0)
  latest := []
  risk := .new
  gateway := .new
  drawn := 0

inductive Call where
  | produce_ticks (prices : List ℚ) (correlation_id symbol : String)
  | refresh
  | post_trade (req : Req) (crash_point : Option CrashPoint) (d : Draws)
  | relay_outbox (inject_dup : Bool) (effects : Nat)
  | poll
  | pump
  /-- `xadd` of what `ledger.updates` has at a position. -/
  | duplicate (position : Nat)
  | setid (start : Int)

/-- `none` where a call raises a `KeyError`, or there is nothing to duplicate. -/
def Pipeline.step (draw : Nat → Draw) : Call → Pipeline → Option Pipeline
  | .produce_ticks prices correlation_id symbol, p =>
    let (n, b) := Outbox.produce_ticks draw correlation_id symbol prices (p.drawn, p.bus)
    some { p with bus := b, drawn := n }
  | .refresh, p => do
    let (latest, b) ← (Outbox.refresh (p.latest, p.bus)).toOption
    return { p with latest, bus := b }
  | .post_trade req crash_point d, p =>
    some { p with ledger := (Ledger.exec (Ledger.post_trade req crash_point d) p.ledger).2 }
  | .relay_outbox inject_dup effects, p =>
    let (l, b) := relayTo ledgerEvent STREAM_LEDGER inject_dup effects p.ledger p.bus
    some { p with ledger := l, bus := b }
  | .poll, p => do
    let (r, n, b) ← (RiskEngine.poll draw p.latest (p.risk, p.drawn, p.bus)).toOption
    return { p with risk := r, drawn := n, bus := b }
  | .pump, p => do
    let (gw, b) ← (Gateway.pump (p.gateway, p.bus)).toOption
    return { p with gateway := gw, bus := b }
  | .duplicate position, p => do
    let e ← (p.bus.entries STREAM_LEDGER)[position]?
    return { p with bus := (p.bus.xadd STREAM_LEDGER e.2).2 }
  | .setid start, p => some { p with bus := p.bus.setid STREAM_LEDGER GROUP start }

/-- New identifiers of a trade; a replay skips nothing that is still to be applied. -/
def Pipeline.Admitted (p : Pipeline) : Call → Prop
  | .post_trade _ _ d => Ledger.Fresh p.ledger.db d
  | .setid start => start.toNat ≤ p.bus.stream_len STREAM_LEDGER ∧
      ∀ e ∈ (p.bus.entries STREAM_LEDGER).take start.toNat, e.2.event_id ∈ p.risk.seen
  | _ => True

instance (p : Pipeline) : ∀ a : Call, Decidable (p.Admitted a)
  | .post_trade _ _ d => inferInstanceAs (Decidable (Ledger.Fresh p.ledger.db d))
  | .setid start => inferInstanceAs (Decidable (_ ≤ p.bus.stream_len STREAM_LEDGER ∧
      ∀ e ∈ (p.bus.entries STREAM_LEDGER).take start.toNat, e.2.event_id ∈ p.risk.seen))
  | .produce_ticks .. | .refresh | .relay_outbox .. | .poll | .pump | .duplicate _ =>
    .isTrue trivial

end TradePulse.Outbox
