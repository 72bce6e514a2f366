import TradePulse.Risk.Json
import Mathlib.Algebra.Group.Nat.Defs
import Mathlib.Data.List.Sort

/-! # `RiskStore`: the durable projection

The tables of the SQLite file as lists of rows in insertion (rowid) order, and
one definition for each method. A writing method binds its arguments, checks
the constraints of the table and commits, or raises and leaves the file as it
was; `INSERT OR IGNORE` skips a row that breaks a constraint. The two methods
of two statements say what their connection sees in either case. -/
namespace TradePulse.Risk

variable {F : Type} [PyFloat F]

structure AppliedEvent (F : Type) where
  event_id : Option String
  account_id : String
  symbol : String
  side : Option String
  quantity : Option F
  price : Option F
  cash_delta : F
  position_after : F
  correlation_id : Option String
  posted_at : Option String
  deriving DecidableEq

structure PriceTick (F : Type) where
  symbol : String
  price : F
  tick_time : Option String
  deriving DecidableEq

structure PvSample (F : Type) where
  account_id : String
  pv : F
  computed_at : Option String
  deriving DecidableEq

structure RiskMetrics (F : Type) where
  portfolio_value : F
  pnl : F
  volatility : F
  var : F
  var_method : String
  sharpe : F
  deriving DecidableEq

structure SnapshotRow (F : Type) where
  account_id : Option String
  metrics : RiskMetrics F
  computed_at : String
  deriving DecidableEq

structure RiskStore (F : Type) where
  applied_events : List (AppliedEvent F)
  price_cache : List (Option String × F)
  price_history : List (PriceTick F)
  pv_history : List (PvSample F)
  risk_snapshots : List (SnapshotRow F)
  deriving DecidableEq

/-- The `data` object of a `RiskComputed.v1` envelope, and what
`get_risk_snapshot` returns. -/
structure RiskData (F : Type) where
  account_id : Json F
  metrics : RiskMetrics F
  computed_at : String

namespace RiskStore

/-! ## Rolling windows -/

/-- Leave out the first `n` rows that meet `p`. -/
def dropFirst {α : Type} (p : α → Bool) : Nat → List α → List α
  | 0, rows => rows
  | _ + 1, [] => []
  | n + 1, row :: rows =>
    if p row then dropFirst p n rows else row :: dropFirst p (n + 1) rows

/-- Keep only the last `keep` of the rows that meet `p`. -/
def evict {α : Type} (p : α → Bool) (keep : Nat) (rows : List α) : List α :=
  dropFirst p (rows.countP p - keep) rows

/-- As many rows as give `window_size` returns. -/
def kept (windowSize : Int) : Nat := (max windowSize 0).toNat + 1

/-- The two statements of an append, on the rows that the connection sees, and
what they raise. -/
def appendRow {α : Type} (sameKey : α → Bool) (row : α) (windowSize : Int) (rows : List α) :
    Except PyError Unit × List α :=
  let keep := kept windowSize
  let rows := rows ++ [row]
  -- the row is in when a limit of more than 64 bits is refused
  if keep < 2 ^ 63 then (.ok (), evict sameKey keep rows)
  else (.error .OverflowError, rows)

/-- What the file holds after a method: the commit is its last statement, and
without it the rows are gone with the process that the exception ends. -/
def committed (called : Except PyError Unit × RiskStore F) :
    Except PyError (Unit × RiskStore F) :=
  called.1.map fun u => (u, called.2)

/-- Consecutive simple returns; a zero previous value is skipped. -/
def simpleReturns (values : List F) : List F :=
  (values.zip values.tail).filterMap fun (prev, cur) =>
    if PyFloat.isZero prev then none else some ((cur - prev) / prev)

/-! ## Prices -/

def upsertPrice (s : RiskStore F) (symbol : Json F) (price : F) :
    Except PyError (Unit × RiskStore F) := do
  let symbol ← symbol.bindText
  match bindReal price with
  | none => throw .IntegrityError
  | some price =>
    -- a NULL key conflicts with nothing
    if symbol.isSome ∧ s.price_cache.any (·.1 = symbol) then
      return ((), { s with price_cache := s.price_cache.map fun row =>
        if row.1 = symbol then (row.1, price) else row })
    else return ((), { s with price_cache := s.price_cache ++ [(symbol, price)] })

def getPrice (s : RiskStore F) (symbol : String) : Option F :=
  (s.price_cache.find? (·.1 = some symbol)).map (·.2)

/-- The row to insert, whose symbol and price are `NOT NULL`. -/
def priceRow (symbol : Json F) (price : F) (tickTime : Json F) :
    Except PyError (PriceTick F) := do
  let symbol ← symbol.bindText
  let tick_time ← tickTime.bindText
  match symbol, bindReal price with
  | some symbol, some price => return { symbol, price, tick_time }
  | _, _ => throw .IntegrityError

def appendPrice (s : RiskStore F) (symbol : Json F) (price : F) (windowSize : Int)
    (tickTime : Json F) : Except PyError Unit × RiskStore F :=
  match priceRow symbol price tickTime with
  | .error e => (.error e, s)
  | .ok row =>
    let (raised, price_history) := appendRow (·.symbol = row.symbol) row windowSize s.price_history
    (raised, { s with price_history })

def priceWindow (s : RiskStore F) (symbol : String) : List F :=
  (s.price_history.filter (·.symbol = symbol)).map (·.price)

def historyLen (s : RiskStore F) (symbol : String) : Nat :=
  s.price_history.countP (·.symbol = symbol)

def returns (s : RiskStore F) (symbol : String) : List F := simpleReturns (s.priceWindow symbol)

/-! ## Portfolio values -/

def pvRow (accountId : Json F) (pv : F) (computedAt : Json F) : Except PyError (PvSample F) := do
  let account_id ← accountId.bindText
  let computed_at ← computedAt.bindText
  match account_id, bindReal pv with
  | some account_id, some pv => return { account_id, pv, computed_at }
  | _, _ => throw .IntegrityError

def appendPv (s : RiskStore F) (accountId : Json F) (pv : F) (windowSize : Int)
    (computedAt : Json F) : Except PyError Unit × RiskStore F :=
  match pvRow accountId pv computedAt with
  | .error e => (.error e, s)
  | .ok row =>
    let (raised, pv_history) := appendRow (·.account_id = row.account_id) row windowSize s.pv_history
    (raised, { s with pv_history })

def pvWindow (s : RiskStore F) (accountId : Json F) : Except PyError (List F) := do
  let account ← accountId.bindText
  return (s.pv_history.filter (some ·.account_id = account)).map (·.pv)

def pvHistoryLen (s : RiskStore F) (accountId : Json F) : Except PyError Nat := do
  let account ← accountId.bindText
  return s.pv_history.countP (some ·.account_id = account)

def pvReturns (s : RiskStore F) (accountId : Json F) : Except PyError (List F) := do
  let window ← s.pvWindow accountId
  return simpleReturns window

/-! ## The ledger event log -/

/-- The arguments of `apply_ledger_event`. -/
structure LedgerEvent (F : Type) where
  event_id : Json F
  account_id : Json F
  symbol : Json F
  side : Json F
  quantity : Option F
  price : Option F
  cash_delta : F
  position_after : F
  correlation_id : Json F
  posted_at : Json F

/-- The row to insert; `none` when a `NOT NULL` column has no value. -/
def LedgerEvent.row (e : LedgerEvent F) : Except PyError (Option (AppliedEvent F)) := do
  let event_id ← e.event_id.bindText
  let account_id ← e.account_id.bindText
  let symbol ← e.symbol.bindText
  let side ← e.side.bindText
  let correlation_id ← e.correlation_id.bindText
  let posted_at ← e.posted_at.bindText
  match account_id, symbol, bindReal e.cash_delta, bindReal e.position_after with
  | some account_id, some symbol, some cash_delta, some position_after =>
    return some
      { event_id, account_id, symbol, side, quantity := e.quantity.bind bindReal
        price := e.price.bind bindReal, cash_delta, position_after, correlation_id, posted_at }
  | _, _, _, _ => return none

/-- The event id is in `applied_events`. -/
def Applied (s : RiskStore F) (id : String) : Prop :=
  some id ∈ s.applied_events.map (·.event_id)

instance (s : RiskStore F) (id : String) : Decidable (s.Applied id) :=
  inferInstanceAs (Decidable (_ ∈ _))

/-- `INSERT OR IGNORE`: a row with a known event id is skipped. -/
def insertOrIgnore (rows : List (AppliedEvent F)) (row : AppliedEvent F) :
    Bool × List (AppliedEvent F) :=
  if row.event_id.isSome ∧ row.event_id ∈ rows.map (·.event_id) then (false, rows)
  else (true, rows ++ [row])

def applyLedgerEvent (s : RiskStore F) (e : LedgerEvent F) :
    Except PyError (Bool × RiskStore F) := do
  match ← e.row with
  | none => return (false, s)
  | some row =>
    let (newlyApplied, applied_events) := insertOrIgnore s.applied_events row
    return (newlyApplied, { s with applied_events })

def appliedCount (s : RiskStore F) : Nat := s.applied_events.length

/-! ## Derived projection -/

/-- The rows of an account, as its id compares with the column. -/
def accountRows (s : RiskStore F) (accountId : Json F) :
    Except PyError (List (AppliedEvent F)) := do
  let account ← accountId.bindText
  return s.applied_events.filter (some ·.account_id = account)

/-- `COALESCE(SUM(…), 0)`. -/
def total (xs : List F) : F := (PyFloat.sumColumn xs).getD 0

def accountCash (s : RiskStore F) (accountId : Json F) (seedCash : F) : Except PyError F := do
  let rows ← s.accountRows accountId
  return seedCash + total (rows.map (·.cash_delta))

/-- The rows that no later row of the same account and symbol follows. -/
def latest : List (AppliedEvent F) → List (AppliedEvent F)
  | [] => []
  | row :: rows =>
    if rows.any fun later => later.account_id = row.account_id && later.symbol = row.symbol
    then latest rows
    else row :: latest rows

def latestPositions (s : RiskStore F) (accountId : Json F) :
    Except PyError (List (String × F × F)) := do
  let account ← accountId.bindText
  return (((latest s.applied_events).filter (some ·.account_id = account)).insertionSort
    (·.symbol ≤ ·.symbol)).map fun row => (row.symbol, row.position_after, row.price.getD 0)

def resolvedPositions (s : RiskStore F) (accountId : Json F) :
    Except PyError (List (String × F × F)) := do
  let positions ← s.latestPositions accountId
  return positions.map fun (symbol, qty, tradePrice) =>
    (symbol, qty, (s.getPrice symbol).getD tradePrice)

/-- `SELECT DISTINCT account_id`. -/
def accounts (s : RiskStore F) : List String := (s.applied_events.map (·.account_id)).eraseDups

/-! ## Latest risk snapshot -/

/-- The columns are `NOT NULL`, and NaN binds as NULL. -/
def RiskMetrics.bindable (m : RiskMetrics F) : Bool :=
  [m.portfolio_value, m.pnl, m.volatility, m.var, m.sharpe].all fun x => !PyFloat.isNaN x

def saveRiskSnapshot (s : RiskStore F) (accountId : Json F) (metrics : RiskMetrics F)
    (computedAt : String) : Except PyError (Unit × RiskStore F) := do
  let account_id ← accountId.bindText
  let row : SnapshotRow F := { account_id, metrics, computed_at := computedAt }
  if RiskMetrics.bindable metrics then
    if account_id.isSome ∧ s.risk_snapshots.any (·.account_id = account_id) then
      return ((), { s with risk_snapshots := s.risk_snapshots.map fun old =>
        if old.account_id = account_id then row else old })
    else return ((), { s with risk_snapshots := s.risk_snapshots ++ [row] })
  else throw .IntegrityError

def getRiskSnapshot (s : RiskStore F) (accountId : String) : Option (RiskData F) :=
  (s.risk_snapshots.find? (·.account_id = some accountId)).map fun row =>
    { account_id := .str accountId, metrics := row.metrics, computed_at := row.computed_at }

/-- A file with the schema and no rows. -/
def empty : RiskStore F := ⟨[], [], [], [], []⟩

end RiskStore
end TradePulse.Risk
