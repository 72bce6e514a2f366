import TradePulse.Core.Rows
import TradePulse.Outbox.StreamBus
import Mathlib.Algebra.BigOperators.Group.List.Basic
import Mathlib.Algebra.Order.Ring.Abs
import Mathlib.Algebra.Order.Ring.Rat

/-! # The SQLite ledger with its outbox

`ledger.py`, with the tables as lists of rows in insertion order and exact
amounts. A `payload` is the document whose JSON text the column holds. The
connection sees its own writes; `committed` is what the file holds, and what
another start of the process would find. -/
namespace TradePulse.Outbox
open TradePulse.Core

/-- The envelope of an event. -/
structure Envelope (δ : Type) where
  event_id : String
  event_type : String
  schema_version : String
  correlation_id : String
  produced_at : String
  producer : String
  data : δ

/-- `data` of a `LedgerUpdated` event. -/
structure LedgerData where
  journal_entry_id : String
  source_event_id : String
  account_id : String
  symbol : String
  side : String
  quantity : ℚ
  price : ℚ
  cash_delta : ℚ
  position_after : ℚ
  posted_at : String

structure JournalEntry where
  je_id : String
  source_event_id : String
  posted_at : String

structure JournalLine where
  je_id : String
  account_id : String
  debit : ℚ
  credit : ℚ

structure AuditRow where
  audit_id : String
  source_event_id : String
  outcome : String
  reason : Option String
  recorded_at : String

structure OutboxRow where
  event_id : String
  event_type : String
  payload : Envelope LedgerData
  sent : Bool
  created_at : String

structure Db where
  accounts : List (String × ℚ)
  journal_entries : List JournalEntry
  journal_lines : List JournalLine
  positions : List ((String × String) × ℚ)
  audit_log : List AuditRow
  outbox_events : List OutboxRow

structure Ledger where
  db : Db
  committed : Db

/-- What a request has that `post_trade` reads. -/
structure Req where
  request_id : String
  account_id : String
  symbol : String
  side : String
  quantity : ℚ
  price : ℚ
  correlation_id : Option String

inductive CrashPoint where
  | before_commit
  | after_commit_before_publish
  deriving DecidableEq

inductive Reply where
  | replay (je_id : String)
  | rejected
  | posted (je_id event_id : String)
  deriving DecidableEq

/-- What `uuid4` and `now` return in one call of `post_trade`. -/
structure Draws where
  audit_id : String
  je_id : String
  event_id : String
  correlation_id : String
  posted_at : String
  recorded_at : String
  produced_at : String
  data_posted_at : String
  created_at : String

namespace Ledger

def new : Ledger :=
  let db : Db := ⟨[("acct_123", 10000)], [], [], [], [], []⟩
  ⟨db, db⟩

/-! ## Statements -/

/-- The state stays as an exception finds it. -/
abbrev Sql := ExceptT Failure (StateM Ledger)

def select {α : Type} (read : Db → α) : Sql α := return read (← get).db

def update (write : Db → Db) : Sql Unit := modify fun l => { l with db := write l.db }

def commit : Sql Unit := modify fun l => { l with committed := l.db }

def rollback : Sql Unit := modify fun l => { l with db := l.committed }

def insertAudit (row : AuditRow) : Sql Unit := do
  if row.audit_id ∈ (← select fun db => db.audit_log.map (·.audit_id)) then
    throw .IntegrityError
  update fun db => { db with audit_log := db.audit_log ++ [row] }

def insertEntry (row : JournalEntry) : Sql Unit := do
  let entries ← select (·.journal_entries)
  if row.je_id ∈ entries.map (·.je_id) ∨ row.source_event_id ∈ entries.map (·.source_event_id) then
    throw .IntegrityError
  update fun db => { db with journal_entries := db.journal_entries ++ [row] }

def insertLine (row : JournalLine) : Sql Unit :=
  update fun db => { db with journal_lines := db.journal_lines ++ [row] }

def insertOutbox (row : OutboxRow) : Sql Unit := do
  if row.event_id ∈ (← select fun db => db.outbox_events.map (·.event_id)) then
    throw .IntegrityError
  update fun db => { db with outbox_events := db.outbox_events ++ [row] }

/-- `UPDATE accounts SET cash=cash+? WHERE account_id=?`. -/
def addCash (account : String) (delta : ℚ) (rows : List (String × ℚ)) : List (String × ℚ) :=
  rows.map fun row => if row.1 = account then (row.1, row.2 + delta) else row

/-- `INSERT … ON CONFLICT(account_id,symbol) DO UPDATE SET qty=qty+?`. -/
def addQty (key : String × String) (qd : ℚ) (rows : List ((String × String) × ℚ)) :
    List ((String × String) × ℚ) :=
  if rows.any (·.1 = key) then
    rows.map fun row => if row.1 = key then (row.1, row.2 + qd) else row
  else rows ++ [(key, qd)]

/-- `fetchone()` on a row with the key. -/
def fetch {κ : Type} [DecidableEq κ] (key : κ) (rows : List (κ × ℚ)) : Option ℚ :=
  (rows.find? (·.1 = key)).map (·.2)

/-- `fetchone()[0]`. -/
def fetchOne {κ : Type} [DecidableEq κ] (key : κ) (read : Db → List (κ × ℚ)) : Sql ℚ := do
  match ← select fun db => fetch key (read db) with
  | some x => return x
  | none => throw .TypeError

/-! ## Posting -/

def cashDelta (req : Req) : ℚ :=
  if req.side = "BUY" then -req.quantity * req.price else req.quantity * req.price

def qtyDelta (req : Req) : ℚ := if req.side = "BUY" then req.quantity else -req.quantity

/-- The mirrored lines of a journal entry. -/
def linesOf (je account side : String) (amount : ℚ) : List JournalLine :=
  if side = "BUY" then [⟨je, "securities", amount, 0⟩, ⟨je, account, 0, amount⟩]
  else [⟨je, account, amount, 0⟩, ⟨je, "securities", 0, amount⟩]

def envelopeOf (req : Req) (cash_delta pos : ℚ) (d : Draws) : Envelope LedgerData where
  event_id := d.event_id
  event_type := "LedgerUpdated"
  schema_version := "1"
  correlation_id := req.correlation_id.getD d.correlation_id
  produced_at := d.produced_at
  producer := "ledger-core"
  data :=
    { journal_entry_id := d.je_id, source_event_id := req.request_id
      account_id := req.account_id, symbol := req.symbol, side := req.side
      quantity := req.quantity, price := req.price, cash_delta, position_after := pos
      posted_at := d.data_posted_at }

/-- The writes of a filled trade, in one transaction. -/
def writeTrade (req : Req) (cash_delta : ℚ) (d : Draws) : Sql Unit := do
  insertEntry ⟨d.je_id, req.request_id, d.posted_at⟩
  (linesOf d.je_id req.account_id req.side |cash_delta|).forM insertLine
  update fun db => { db with accounts := addCash req.account_id cash_delta db.accounts }
  update fun db =>
    { db with positions := addQty (req.account_id, req.symbol) (qtyDelta req) db.positions }
  insertAudit ⟨d.audit_id, req.request_id, "accepted", none, d.recorded_at⟩
  let pos ← fetchOne (req.account_id, req.symbol) (·.positions)
  insertOutbox
    ⟨d.event_id, "LedgerUpdated", envelopeOf req cash_delta pos d, false, d.created_at⟩

def post_trade (req : Req) (crash_point : Option CrashPoint) (d : Draws) : Sql Reply := do
  match ← select fun db => db.journal_entries.find? (·.source_event_id = req.request_id) with
  | some row => return .replay row.je_id
  | none =>
    let cash ← fetchOne req.account_id (·.accounts)
    let cash_delta := cashDelta req
    if cash + cash_delta < 0 then
      insertAudit ⟨d.audit_id, req.request_id, "rejected", some "NEGATIVE_CASH", d.recorded_at⟩
      commit
      return .rejected
    tryCatch (do
      writeTrade req cash_delta d
      if crash_point = some .before_commit then throw .CrashInjected
      commit) fun
      | .CrashInjected => do rollback; throw .CrashInjected
      | e => throw e
    if crash_point = some .after_commit_before_publish then throw .CrashInjected
    return .posted d.je_id d.event_id

/-! ## The outbox, and reads -/

def unsent_outbox (l : Ledger) : List (String × Envelope LedgerData) :=
  (l.db.outbox_events.filter fun row => !row.sent).map fun row => (row.event_id, row.payload)

def markSent (event_id : String) (rows : List OutboxRow) : List OutboxRow :=
  rows.map fun row => if row.event_id = event_id then { row with sent := true } else row

def mark_sent (event_id : String) : Sql Unit := do
  update fun db => { db with outbox_events := markSent event_id db.outbox_events }
  commit

/-- The sums that `assert_double_entry` compares. -/
def debits_credits (l : Ledger) : ℚ × ℚ :=
  ((l.db.journal_lines.map (·.debit)).sum, (l.db.journal_lines.map (·.credit)).sum)

def cash (l : Ledger) (account : String) : Option ℚ := fetch account l.db.accounts

def position (l : Ledger) (account symbol : String) : ℚ :=
  (fetch (account, symbol) l.db.positions).getD 0

def je_count (l : Ledger) : Nat := l.db.journal_entries.length

end Ledger

end TradePulse.Outbox
