import TradePulse.Ledger.Repository
import Mathlib.Data.List.Dedup

/-! # `LedgerRepository`: the read endpoints

Filters are optional, as in the endpoints; a sort keeps the insertion order of
rows it does not tell apart. -/
namespace TradePulse.Ledger
open TradePulse.Core

/-- What the database server settles by itself: the digits of a `NUMERIC`
quotient and the collation of texts. -/
structure Server where
  divide : BigDecimal → BigDecimal → BigDecimal
  collate : String → String → Bool

structure BalanceDto where
  account_id : String
  currency : String
  amount : BigDecimal
  deriving DecidableEq

structure AuditEntryDto where
  audit_id : UUID
  account_id : String
  action : AuditAction
  outcome : AuditOutcome
  reason : Option String
  recorded_at : OffsetDateTime
  deriving DecidableEq

structure PositionDto where
  account_id : String
  symbol : String
  quantity : BigDecimal
  avg_price : BigDecimal
  deriving DecidableEq

/-- The text of `trades.status`. -/
def TradeStatus.text : TradeStatus → String
  | .posted => "posted"
  | .rejected => "rejected"

/-- `AND column = ?`, appended only for a filter that is given. -/
def matchesFilter (column : String) (filter : Option String) : Bool := filter.all (column = ·)

/-- The rows of one trade in `trades LEFT JOIN journal_entries`. -/
def Db.joined (db : Db) (t : Trade) : List TradeResultDto :=
  match db.journal_entries.filter (·.source_event_id = t.request_id) with
  | [] => [tradeResultMapper t none]
  | es => es.map fun je => tradeResultMapper t (some je)

def Db.history (db : Db) (accountId status : Option String) : List TradeResultDto :=
  ((db.trades.filter fun t => matchesFilter t.account_id.val accountId &&
    matchesFilter t.status.text status).mergeSort
      fun t u => decide (t.created_at ≤ u.created_at)).flatMap db.joined

def Db.balances (db : Db) (accountId : Option String) : List BalanceDto :=
  (db.accounts.filter fun a => matchesFilter a.account_id.val accountId).map fun a =>
    { account_id := a.account_id.val, currency := a.currency.val
      amount := a.cash_balance.toRat }

def Db.audit (db : Db) (accountId : Option String) : List AuditEntryDto :=
  ((db.audit_log.filter fun a => matchesFilter a.account_id.val accountId).mergeSort
    fun a b => decide (a.recorded_at ≤ b.recorded_at)).map fun a =>
      { audit_id := a.audit_id, account_id := a.account_id.val, action := a.action
        outcome := a.outcome, reason := a.reason.map (·.val), recorded_at := a.recorded_at }

/-- `SUM(CASE WHEN side = 'BUY' THEN f ELSE 0 END)`. -/
def boughtSum (f : Trade → BigDecimal) (ts : List Trade) : BigDecimal :=
  (ts.map fun t => if t.side.val = "BUY" then f t else 0).sum

/-- One group of `positions`, or `none` where its net quantity is zero. -/
def positionOfGroup (server : Server) (account symbol : String) (ts : List Trade) :
    Option PositionDto :=
  let qty := (ts.map Trade.signedQuantity).sum
  let bought := boughtSum (·.quantity.toRat) ts
  let avg_price := if bought > 0
    then server.divide (boughtSum (fun t => t.quantity.toRat * t.price.toRat) ts) bought else 0
  if qty = 0 then none else some { account_id := account, symbol, quantity := qty, avg_price }

def Db.positions (server : Server) (db : Db) (accountId : Option String) : List PositionDto :=
  let rows := db.trades.filter fun t => t.status = .posted &&
    matchesFilter t.account_id.val accountId
  let groups := (rows.map fun t => (t.account_id.val, t.symbol.val)).dedup
  (groups.filterMap fun g => positionOfGroup server g.1 g.2
    (rows.filter fun t => (t.account_id.val, t.symbol.val) = g)).mergeSort
      fun p q => server.collate p.symbol q.symbol

end TradePulse.Ledger
