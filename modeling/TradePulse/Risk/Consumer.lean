import TradePulse.Core.Prog
import TradePulse.Risk.Store

/-! # `RiskConsumer` and `RiskWorker`

The consumer's decisions and the worker's loops as programs over Redis, the
store, the clock and fresh identifiers, in the order of the source. Exceptions
that the source does not catch end the program. `json.loads` is a parameter. -/
namespace TradePulse.Risk
open TradePulse.Core

/-! ## Calls -/

/-- The streams that the worker reads through its group. -/
inductive StreamName where
  | ledger
  | ticks
  deriving DecidableEq

/-- The fields of a stream entry. -/
abbrev Fields := List (String × String)

/-- A `RiskComputed.v1` envelope. -/
structure RiskEnvelope (F : Type) where
  event_id : String
  event_type : String
  schema_version : String
  correlation_id : Json F
  produced_at : String
  producer : String
  data : RiskData F

/-- What is added to `risk.updates`; `event` is the document, in place of its text. -/
structure RiskFields (F : Type) where
  event_type : String
  schema_version : String
  event : RiskEnvelope F

inductive RiskCall (F : Type) where
  | xreadgroup (stream : StreamName) (count : Int)
  | xautoclaim (minIdleTime count : Int)
  | xack (stream : StreamName) (id : Nat)
  | xadd (fields : RiskFields F)
  /-- A `SELECT`: the file as it stands. -/
  | select
  | upsertPrice (symbol : Json F) (price : F)
  | appendPrice (symbol : Json F) (price : F) (windowSize : Int) (tickTime : Json F)
  | appendPv (accountId : Json F) (pv : F) (windowSize : Int) (computedAt : Json F)
  | applyLedgerEvent (event : RiskStore.LedgerEvent F)
  | saveRiskSnapshot (accountId : Json F) (metrics : RiskMetrics F) (computedAt : String)
  | nowIso
  | uuid4
  | monotonic
  /-- The worker's own `_last_recompute`. -/
  | lastRecompute
  | setLastRecompute (t : F)

abbrev RiskCall.Result {F : Type} : RiskCall F → Type
  | .xreadgroup _ _ | .xautoclaim _ _ => List (Nat × Fields)
  | .select => RiskStore F
  | .applyLedgerEvent _ => Bool
  | .nowIso | .uuid4 => String
  | .monotonic => F
  | .lastRecompute => Option F
  | _ => Unit

abbrev RiskM (F α : Type) := Prog (RiskCall F) RiskCall.Result PyError α

variable {F : Type} [PyFloat F]

/-- A method of the store that only reads. -/
def reads {α : Type} (f : RiskStore F → Except PyError α) : RiskM F α := do
  let store ← Prog.perform RiskCall.select
  Prog.ofExcept (f store)

def nowIso : RiskM F String := .perform RiskCall.nowIso
def uuid4 : RiskM F String := .perform RiskCall.uuid4

structure Config (F : Type) where
  seed_cash : F
  batch_size : Int
  min_idle_ms : Int
  window_size : Int
  recompute_interval_ms : Int

/-! ## Metrics -/

/-- `_history_metrics`: volatility, VaR and Sharpe over a return series. -/
def historyMetrics (portfolioValue : F) (pvReturns : List F) : Except PyError (F × F × F) := do
  let volatility ← if pvReturns.length > 1 then PyFloat.pstdev pvReturns else pure 0
  let var := PyFloat.abs (PyFloat.z95 * volatility * portfolioValue)
  let sharpe ←
    if PyFloat.lt 0 volatility then do
      let mean ← PyFloat.mean pvReturns
      pure (mean / volatility)
    else pure 0
  return (volatility, var, sharpe)

/-- `sum(qty * price for …)`. -/
def marketValue (positions : List (String × F × F)) : F :=
  PyFloat.sum (positions.map fun (_, qty, price) => qty * price)

def computeMetrics (cash : F) (positions : List (String × F × F)) (seedCash : F)
    (pvReturns : List F) : Except PyError (RiskMetrics F) := do
  let portfolioValue := cash + marketValue positions
  let pnl := portfolioValue - seedCash
  let (volatility, var, sharpe) ← historyMetrics portfolioValue pvReturns
  return { portfolio_value := PyFloat.round portfolioValue 2, pnl := PyFloat.round pnl 2
           volatility := PyFloat.round volatility 6, var := PyFloat.round var 2
           var_method := "parametric", sharpe := PyFloat.round sharpe 4 }

/-! ## `RiskConsumer` -/

section Consumer

variable (config : Config F)

/-- `float(price)` of a tick, whose `TypeError` and `ValueError` are caught. -/
def tickPrice (price : Json F) : Except PyError (Option F) :=
  match price.toFloat with
  | .ok x => .ok (some x)
  | .error .TypeError | .error .ValueError => .ok none
  | .error e => .error e

def processTickEnvelope (envelope : Json F) : RiskM F Bool := do
  let data ← .ofExcept (envelope.get "data")
  let data := data.or (.obj [])
  let symbol ← .ofExcept (data.get "symbol")
  let price ← .ofExcept (data.get "price")
  match symbol.truthy, price with
  | false, _ | _, .null => return false
  | _, _ =>
    let some price ← .ofExcept (tickPrice price) | return false
    Prog.perform (RiskCall.upsertPrice symbol price)
    let tickTime ← .ofExcept (data.get "tick_time")
    Prog.perform (RiskCall.appendPrice symbol price config.window_size tickTime)
    return true

/-- `correlation_id or str(uuid.uuid4())`. -/
def correlationOr (correlationId : Json F) : RiskM F (Json F) :=
  if correlationId.truthy then return correlationId else Json.str <$> uuid4

def buildRiskEnvelope (accountId correlationId : Json F) : RiskM F (RiskEnvelope F) := do
  let cash ← reads (·.accountCash accountId config.seed_cash)
  let positions ← reads (·.resolvedPositions accountId)
  let pvReturns ← reads (·.pvReturns accountId)
  let metrics ← .ofExcept (computeMetrics cash positions config.seed_cash pvReturns)
  let computedAt ← nowIso
  Prog.perform (RiskCall.saveRiskSnapshot accountId metrics computedAt)
  let eventId ← uuid4
  let correlationId ← correlationOr correlationId
  return { event_id := eventId, event_type := "RiskComputed", schema_version := "1"
           correlation_id := correlationId, produced_at := computedAt, producer := "risk-engine"
           data := { account_id := accountId, metrics, computed_at := computedAt } }

/-- What `process_ledger_envelope` makes of an envelope before it touches the
store: nothing of a malformed one, else the event to apply. -/
def ledgerEvent (envelope : Json F) : Except PyError (Option (RiskStore.LedgerEvent F)) := do
  let eventId ← envelope.get "event_id"
  let data ← envelope.get "data"
  let data := data.or (.obj [])
  let accountId ← data.get "account_id"
  let symbol ← data.get "symbol"
  if !eventId.truthy || !accountId.truthy || !symbol.truthy then return none
  let cashDelta ← data.get "cash_delta"
  let positionAfter ← data.get "position_after"
  match cashDelta, positionAfter with
  | .null, _ | _, .null => return none
  | _, _ =>
    let correlationId ← envelope.get "correlation_id"
    let side ← data.get "side"
    let quantity ← (← data.get "quantity").asFloat
    let price ← (← data.get "price").asFloat
    let cash_delta ← cashDelta.toFloat
    let position_after ← positionAfter.toFloat
    let postedAt ← data.get "posted_at"
    return some
      { event_id := eventId, account_id := accountId, symbol, side, quantity, price, cash_delta
        position_after, correlation_id := correlationId, posted_at := postedAt }

def processLedgerEnvelope (envelope : Json F) : RiskM F (Option (RiskEnvelope F)) := do
  let some event ← .ofExcept (ledgerEvent envelope) | return none
  let newlyApplied ← Prog.perform (RiskCall.applyLedgerEvent event)
  if !newlyApplied then return none
  some <$> buildRiskEnvelope config event.account_id event.correlation_id

def streamFields (envelope : RiskEnvelope F) : RiskFields F where
  event_type := envelope.event_type
  schema_version := envelope.schema_version
  event := envelope

def recomputeAccount (accountId correlationId : Json F) :
    RiskM F (Option (RiskEnvelope F)) := do
  let positions ← reads (·.resolvedPositions accountId)
  if positions.isEmpty then return none
  let cash ← reads (·.accountCash accountId config.seed_cash)
  let pv := cash + marketValue positions
  Prog.perform (RiskCall.appendPv accountId pv config.window_size .null)
  some <$> buildRiskEnvelope config accountId correlationId

end Consumer

/-! ## `RiskWorker` -/

section Worker

variable (loads : String → Except PyError (Json F)) (config : Config F)

/-- `_parse_event`: `None` for a missing field and for what `json.loads` rejects. -/
def parseEvent (fields : Fields) : Except PyError (Json F) :=
  match (fields.reverse.lookup "event").getD "" with
  | "" => .ok .null
  | raw => match loads raw with
    | .ok env => .ok env
    | .error .ValueError | .error .TypeError => .ok .null
    | .error e => .error e

def publish (riskEnv : RiskEnvelope F) : RiskM F Unit :=
  .perform (RiskCall.xadd (streamFields riskEnv))

/-- The body of `refresh_prices` up to the `XACK`. -/
def handleTick (fields : Fields) : RiskM F Unit := do
  let env ← .ofExcept (parseEvent loads fields)
  match env with
  | .null => return ()
  | env =>
    let _ ← processTickEnvelope config env
    return ()

def refreshTicks : List (Nat × Fields) → Int → RiskM F Int
  | [], n => return n
  | (entryId, fields) :: rest, n => do
    handleTick loads config fields
    Prog.perform (RiskCall.xack .ticks entryId)
    refreshTicks rest (n + 1)

def refreshPrices : RiskM F Int := do
  let reply ← Prog.perform (RiskCall.xreadgroup .ticks config.batch_size)
  refreshTicks loads config reply 0

/-- The body that `reclaim_ledger` and `drain_ledger` share up to the `XACK`:
apply one entry and publish what comes of it. -/
def handleLedger (fields : Fields) : RiskM F Bool := do
  let env ← .ofExcept (parseEvent loads fields)
  match env with
  | .null => return false
  | env =>
    match ← processLedgerEnvelope config env with
    | none => return false
    | some riskEnv =>
      publish riskEnv
      return true

def reclaimEntries : List (Nat × Fields) → Int → RiskM F Int
  | [], reclaimed => return reclaimed
  | (entryId, fields) :: rest, reclaimed => do
    let _ ← handleLedger loads config fields
    Prog.perform (RiskCall.xack .ledger entryId)
    reclaimEntries rest (reclaimed + 1)

def reclaimLedger : RiskM F Int := do
  let entries ← Prog.perform (RiskCall.xautoclaim config.min_idle_ms config.batch_size)
  reclaimEntries loads config entries 0

def drainEntries : List (Nat × Fields) → Int → RiskM F Int
  | [], published => return published
  | (entryId, fields) :: rest, published => do
    let sent ← handleLedger loads config fields
    Prog.perform (RiskCall.xack .ledger entryId)
    drainEntries rest (if sent then published + 1 else published)

def drainLedger : RiskM F Int := do
  let reply ← Prog.perform (RiskCall.xreadgroup .ledger config.batch_size)
  drainEntries loads config reply 0

def cycle : RiskM F Int := do
  let _ ← reclaimLedger loads config
  let _ ← refreshPrices loads config
  drainLedger loads config

def recomputeAccounts : List String → Int → RiskM F Int
  | [], published => return published
  | accountId :: rest, published => do
    match ← recomputeAccount config (.str accountId) .null with
    | none => recomputeAccounts rest published
    | some riskEnv =>
      publish riskEnv
      recomputeAccounts rest (published + 1)

/-- `time.monotonic() if now is None else now`. -/
def nowOr : Option F → RiskM F F
  | some now => return now
  | none => .perform RiskCall.monotonic

def maybeRecompute (now : Option F) : RiskM F Int := do
  let current ← nowOr now
  let last ← Prog.perform RiskCall.lastRecompute
  let early := last.any fun last =>
    PyFloat.ltInt ((current - last) * PyFloat.thousand) config.recompute_interval_ms
  if early then return 0
  Prog.perform (RiskCall.setLastRecompute current)
  let accounts ← reads fun store => .ok store.accounts
  recomputeAccounts config accounts 0

end Worker
end TradePulse.Risk
