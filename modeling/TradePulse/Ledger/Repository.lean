import TradePulse.Ledger.Schema
import TradePulse.Core.Rows
import TradePulse.Core.Transactions

/-! # `LedgerRepository`: the SQL of the write path

One definition per repository method, on the view of the database that its
statement sees. An `INSERT` stores each column, then checks the row, then its
unique keys and references, and yields the row; `engine` runs the methods as
statements of a READ COMMITTED transaction. -/
namespace TradePulse.Ledger
open TradePulse.Core TradePulse.Core.Transactions

inductive LedgerError where
  | valueTooLong (column : String)
  | numericOverflow (column : String)
  | checkViolation (constraint : String)
  | uniqueViolation (constraint : String)
  | foreignKeyViolation (constraint : String)
  | nullPointer
  | illegalArgument (message : String)
  | illegalState (message : String)
  deriving DecidableEq

structure TradeRequestDto where
  request_id : UUID
  account_id : String
  symbol : String
  side : String
  quantity : BigDecimal
  price : BigDecimal
  requested_by : Option String
  deriving DecidableEq

structure TradeResultDto where
  request_id : UUID
  journal_entry_id : Option UUID
  symbol : String
  side : String
  quantity : BigDecimal
  price : BigDecimal
  status : TradeStatus
  rejection_reason : Option String
  posted_at : Option OffsetDateTime
  deriving DecidableEq

/-! ## Storing and checking -/

def require (p : Prop) [Decidable p] (e : LedgerError) : Except LedgerError Unit :=
  if p then .ok () else .error e

def varchar (n : Nat) (column s : String) : Except LedgerError (Varchar n) :=
  match Varchar.store n s with
  | some v => .ok v
  | none => .error (.valueTooLong column)

def numeric (column : String) (q : BigDecimal) : Except LedgerError Money :=
  match Numeric.store 20 4 q with
  | some m => .ok m
  | none => .error (.numericOverflow column)

def varchar? (n : Nat) (column : String) : Option String → Except LedgerError (Option (Varchar n))
  | none => .ok none
  | some s => (varchar n column s).map some

@[simp] theorem require_ok {p : Prop} [Decidable p] {e : LedgerError} {u : Unit} :
    require p e = .ok u ↔ p := by
  unfold require
  split <;> simp_all

@[simp] theorem varchar_ok {n : Nat} {c s : String} {v : Varchar n} :
    varchar n c s = .ok v ↔ Varchar.store n s = some v := by
  unfold varchar
  split <;> simp_all

@[simp] theorem numeric_ok {c : String} {q : BigDecimal} {m : Money} :
    numeric c q = .ok m ↔ Numeric.store 20 4 q = some m := by
  unfold numeric
  split <;> simp_all

/-! ## Reads used during posting -/

/-- `tradeResultMapper` on a row of `trades LEFT JOIN journal_entries`. -/
def tradeResultMapper (t : Trade) (je : Option JournalEntry) : TradeResultDto where
  request_id := t.request_id
  journal_entry_id := je.map (·.journal_entry_id)
  symbol := t.symbol.val
  side := t.side.val
  quantity := t.quantity.toRat
  price := t.price.toRat
  status := t.status
  rejection_reason := t.rejection_reason.map (·.val)
  posted_at := je.map (·.posted_at)

/-- `trades t LEFT JOIN journal_entries je ON je.source_event_id = t.request_id`. -/
def Db.tradesWithEntries (db : Db) : List TradeResultDto :=
  db.trades.flatMap fun t =>
    match db.journal_entries.filter (·.source_event_id = t.request_id) with
    | [] => [tradeResultMapper t none]
    | es => es.map fun je => tradeResultMapper t (some je)

def Db.findTradeByRequestId (db : Db) (requestId : UUID) : Option TradeResultDto :=
  db.tradesWithEntries.find? (·.request_id = requestId)

/-- The account's cash, or `none` (Java `null`) if the account does not exist. -/
def Db.getCash (db : Db) (accountId : String) : Option BigDecimal :=
  (db.accounts.find? (·.account_id.val = accountId)).map (·.cash_balance.toRat)

def Db.positionAfter (db : Db) (accountId symbol : String) : BigDecimal :=
  db.netPosition accountId symbol

/-! ## Writes -/

def Db.insertTrade (db : Db) (tradeId requestId : UUID) (accountId symbol side : String)
    (quantity price : BigDecimal) (status : TradeStatus) (rejectionReason : Option String)
    (createdAt : OffsetDateTime) : Except LedgerError Trade := do
  let account_id ← varchar 64 "account_id" accountId
  let symbol ← varchar 32 "symbol" symbol
  let side ← varchar 4 "side" side
  let quantity ← numeric "quantity" quantity
  let price ← numeric "price" price
  let rejection_reason ← varchar? 32 "rejection_reason" rejectionReason
  require (side.val = "BUY" ∨ side.val = "SELL") (.checkViolation "chk_trades_side")
  require (0 < quantity.units) (.checkViolation "chk_trades_qty_pos")
  require (0 < price.units) (.checkViolation "chk_trades_price_pos")
  require (∀ t ∈ db.trades, t.trade_id ≠ tradeId) (.uniqueViolation "trades_pkey")
  require (∀ t ∈ db.trades, t.request_id ≠ requestId) (.uniqueViolation "trades_request_id_key")
  require (∃ a ∈ db.accounts, a.account_id = account_id)
    (.foreignKeyViolation "trades_account_id_fkey")
  return { trade_id := tradeId, request_id := requestId, account_id, symbol, side, quantity,
           price, status, rejection_reason, created_at := createdAt }

def Db.insertJournalEntry (db : Db) (journalEntryId sourceEventId : UUID) (accountId : String)
    (postedAt : OffsetDateTime) : Except LedgerError JournalEntry := do
  let account_id ← varchar 64 "account_id" accountId
  require (∀ e ∈ db.journal_entries, e.journal_entry_id ≠ journalEntryId)
    (.uniqueViolation "journal_entries_pkey")
  require (∀ e ∈ db.journal_entries, e.source_event_id ≠ sourceEventId)
    (.uniqueViolation "journal_entries_source_event_id_key")
  require (∃ a ∈ db.accounts, a.account_id = account_id)
    (.foreignKeyViolation "journal_entries_account_id_fkey")
  return { journal_entry_id := journalEntryId, source_event_id := sourceEventId, account_id,
           posted_at := postedAt }

def Db.insertJournalLine (db : Db) (journalEntryId : UUID) (accountRef : String)
    (debit credit : BigDecimal) : Except LedgerError JournalLine := do
  let account_ref ← varchar 64 "account_ref" accountRef
  let debit ← numeric "debit" debit
  let credit ← numeric "credit" credit
  require (0 ≤ debit.units) (.checkViolation "chk_lines_debit_non_negative")
  require (0 ≤ credit.units) (.checkViolation "chk_lines_credit_non_negative")
  require ((0 < debit.units ∧ credit.units = 0) ∨ (0 < credit.units ∧ debit.units = 0))
    (.checkViolation "chk_lines_debit_xor_credit")
  require (∃ e ∈ db.journal_entries, e.journal_entry_id = journalEntryId)
    (.foreignKeyViolation "journal_lines_journal_entry_id_fkey")
  return { journal_entry_id := journalEntryId, account_ref, debit, credit }

/-- `UPDATE accounts SET cash_balance = cash_balance + ?`: the updated row, or
`none` when no account has the id. -/
def Db.updateCash (db : Db) (accountId : String) (delta : BigDecimal) :
    Except LedgerError (Option Account) :=
  match db.accounts.find? (·.account_id.val = accountId) with
  | none => .ok none
  | some a => do
    let cash_balance ← numeric "cash_balance" (a.cash_balance.toRat + delta)
    require (0 ≤ cash_balance.units) (.checkViolation "chk_accounts_cash_non_negative")
    return some { a with cash_balance }

def Db.insertAudit (db : Db) (auditId : UUID) (accountId : String) (sourceEventId : UUID)
    (action : AuditAction) (outcome : AuditOutcome) (reason : Option String)
    (recordedAt : OffsetDateTime) : Except LedgerError AuditRow := do
  let account_id ← varchar 64 "account_id" accountId
  let reason ← varchar? 64 "reason" reason
  require (∀ a ∈ db.audit_log, a.audit_id ≠ auditId) (.uniqueViolation "audit_log_pkey")
  return { audit_id := auditId, account_id, source_event_id := sourceEventId, action, outcome,
           reason, recorded_at := recordedAt }

def Db.insertOutbox (db : Db) (eventId : UUID) (eventType : String)
    (payload : LedgerUpdatedEnvelope) (createdAt : OffsetDateTime) :
    Except LedgerError (OutboxRow LedgerUpdatedEnvelope) := do
  let event_type ← varchar 64 "event_type" eventType
  require (∀ o ∈ db.outbox_events, o.event_id ≠ eventId) (.uniqueViolation "outbox_events_pkey")
  return { event_id := eventId, event_type, payload, sent := false, created_at := createdAt }

/-! ## The methods as statements of a transaction -/

/-- The repository methods of the write path, and the two things the service
takes from the platform: the clock and fresh identifiers. -/
inductive Statement where
  | findTradeByRequestId (requestId : UUID)
  | getCash (accountId : String)
  | positionAfter (accountId symbol : String)
  | insertTrade (tradeId requestId : UUID) (accountId symbol side : String)
      (quantity price : BigDecimal) (status : TradeStatus) (rejectionReason : Option String)
      (createdAt : OffsetDateTime)
  | insertJournalEntry (journalEntryId sourceEventId : UUID) (accountId : String)
      (postedAt : OffsetDateTime)
  | insertJournalLine (journalEntryId : UUID) (accountRef : String) (debit credit : BigDecimal)
  | updateCash (accountId : String) (delta : BigDecimal)
  | insertAudit (auditId : UUID) (accountId : String) (sourceEventId : UUID)
      (action : AuditAction) (outcome : AuditOutcome) (reason : Option String)
      (recordedAt : OffsetDateTime)
  | insertOutbox (eventId : UUID) (eventType : String) (payload : LedgerUpdatedEnvelope)
      (createdAt : OffsetDateTime)
  | now
  | randomUUID

abbrev Statement.Result : Statement → Type
  | .findTradeByRequestId _ => Option TradeResultDto
  | .getCash _ => Option BigDecimal
  | .positionAfter _ _ => BigDecimal
  | .now => OffsetDateTime
  | .randomUUID => UUID
  | _ => Unit

/-- What the platform supplies to a statement. -/
structure Ambient where
  uuid : UUID
  clock : OffsetDateTime
  deriving DecidableEq

inductive Write where
  | trade (t : Trade)
  | journalEntry (e : JournalEntry)
  | journalLine (l : JournalLine)
  | account (a : Account)
  | audit (a : AuditRow)
  | outbox (o : OutboxRow LedgerUpdatedEnvelope)
  deriving DecidableEq

/-- Replace the row of the account. -/
def updateRow (a : Account) (rows : List Account) : List Account :=
  rows.map fun b => if b.account_id = a.account_id then a else b

@[simp] theorem updateRow_ids (a : Account) (rows : List Account) :
    (updateRow a rows).map (·.account_id) = rows.map (·.account_id) :=
  map_key_update (fun _ _ => rfl) rows

def Db.apply (db : Db) : Write → Db
  | .trade t => { db with trades := db.trades ++ [t] }
  | .journalEntry e => { db with journal_entries := db.journal_entries ++ [e] }
  | .journalLine l => { db with journal_lines := db.journal_lines ++ [l] }
  | .account a =>
    { db with
      accounts := updateRow a db.accounts
      accounts_pkey := by rw [updateRow_ids]; exact db.accounts_pkey }
  | .audit a => { db with audit_log := db.audit_log ++ [a] }
  | .outbox o => { db with outbox_events := db.outbox_events ++ [o] }

/-- Two pending writes of one unique key, or two updates of one row. -/
def Write.conflicts : Write → Write → Bool
  | .trade s, .trade t => s.trade_id = t.trade_id || s.request_id = t.request_id
  | .journalEntry d, .journalEntry e =>
    d.journal_entry_id = e.journal_entry_id || d.source_event_id = e.source_event_id
  | .account a, .account b => a.account_id = b.account_id
  | .audit a, .audit b => a.audit_id = b.audit_id
  | .outbox o, .outbox p => o.event_id = p.event_id
  | _, _ => false

/-- The statement's row, as the engine reports it. -/
def inserted {α : Type} (row : α → Write) (x : Except LedgerError α) :
    Except LedgerError (Unit × Option Write) :=
  x.map fun a => ((), some (row a))

def exec : (i : Statement) → Ambient → Db → Except LedgerError (i.Result × Option Write)
  | .findTradeByRequestId r, _, db => .ok (db.findTradeByRequestId r, none)
  | .getCash a, _, db => .ok (db.getCash a, none)
  | .positionAfter a y, _, db => .ok (db.positionAfter a y, none)
  | .insertTrade i r a y d q p t v c, _, db => inserted .trade (db.insertTrade i r a y d q p t v c)
  | .insertJournalEntry j r a c, _, db => inserted .journalEntry (db.insertJournalEntry j r a c)
  | .insertJournalLine j a d c, _, db => inserted .journalLine (db.insertJournalLine j a d c)
  | .updateCash a d, _, db => (db.updateCash a d).map fun o => ((), o.map .account)
  | .insertAudit i a r n o v c, _, db => inserted .audit (db.insertAudit i a r n o v c)
  | .insertOutbox i t p c, _, db => inserted .outbox (db.insertOutbox i t p c)
  | .now, w, _ => .ok (w.clock, none)
  | .randomUUID, w, _ => .ok (w.uuid, none)

/-- PostgreSQL with the ledger schema. -/
def engine : Engine Statement Statement.Result LedgerError Ambient Db Write where
  apply := Db.apply
  exec := exec
  conflicts := Write.conflicts

end TradePulse.Ledger
