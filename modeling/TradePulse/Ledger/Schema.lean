import TradePulse.Core.Numeric

/-! # The ledger schema

The tables of the migrations `V1` to `V4` as lists of rows in insertion order,
with the columns that the service reads or writes. Column types carry their
own limits: a `Varchar n` is a string that fits, a `Money` is a
`NUMERIC(20, 4)`. Accounts are only ever updated, so their primary key is part
of the type; the other keys, `CHECK`s and references are enforced by the
statements of `Repository`. -/
namespace TradePulse.Ledger
open TradePulse.Core

structure UUID where
  bits : BitVec 128
  deriving DecidableEq

/-- The canonical 8-4-4-4-12 hexadecimal form. -/
def UUID.toString (u : UUID) : String :=
  let digits := Nat.toDigits 16 u.bits.toNat
  let h := List.replicate (32 - digits.length) '0' ++ digits
  String.ofList (h.take 8 ++ '-' :: (h.drop 8).take 4 ++ '-' :: (h.drop 12).take 4 ++
    '-' :: (h.drop 16).take 4 ++ '-' :: h.drop 20)

/-- An instant, in microseconds (the resolution of `TIMESTAMP WITH TIME ZONE`). -/
abbrev OffsetDateTime := Int

/-- `java.math.BigDecimal`, by value: the service only adds, negates,
multiplies and compares, all of which are exact. -/
abbrev BigDecimal := ℚ

/-- `NUMERIC(20, 4)`. -/
abbrev Money := Numeric 20 4

structure Varchar (n : Nat) where
  val : String
  fits : val.length ≤ n
  deriving DecidableEq

/-- Assignment to a `VARCHAR(n)` column: excess trailing spaces are cut off,
any other excess and the NUL character are refused. -/
def Varchar.store (n : Nat) (s : String) : Option (Varchar n) :=
  if '\x00' ∈ s.toList then none
  else if h : s.length ≤ n then some ⟨s, h⟩
  else if (s.toList.drop n).all (· = ' ') then
    some ⟨String.ofList (s.toList.take n), by rw [String.length_ofList, List.length_take]; omega⟩
  else none

theorem Varchar.store_of_length {n : Nat} {s : String} {v : Varchar n}
    (hs : s.length ≤ n) (h : Varchar.store n s = some v) : v.val = s := by
  simp only [store, hs, dif_pos] at h
  split at h
  · cases h
  · exact (congrArg Varchar.val (Option.some.inj h)).symm

/-- Values of `trades.status` admitted by `chk_trades_status`. -/
inductive TradeStatus where
  | posted
  | rejected
  deriving DecidableEq

/-- The two actions the service audits. -/
inductive AuditAction where
  | POST_TRADE
  | ADMIN_CREDIT
  deriving DecidableEq

/-- Values of `audit_log.outcome` admitted by `chk_audit_outcome`. -/
inductive AuditOutcome where
  | accepted
  | rejected
  deriving DecidableEq

structure Account where
  account_id : Varchar 64
  currency : Varchar 3
  cash_balance : Money
  deriving DecidableEq

structure Trade where
  trade_id : UUID
  request_id : UUID
  account_id : Varchar 64
  symbol : Varchar 32
  side : Varchar 4
  quantity : Money
  price : Money
  status : TradeStatus
  rejection_reason : Option (Varchar 32)
  created_at : OffsetDateTime
  deriving DecidableEq

structure JournalEntry where
  journal_entry_id : UUID
  source_event_id : UUID
  account_id : Varchar 64
  posted_at : OffsetDateTime
  deriving DecidableEq

structure JournalLine where
  journal_entry_id : UUID
  account_ref : Varchar 64
  debit : Money
  credit : Money
  deriving DecidableEq

structure AuditRow where
  audit_id : UUID
  account_id : Varchar 64
  source_event_id : UUID
  action : AuditAction
  outcome : AuditOutcome
  reason : Option (Varchar 64)
  recorded_at : OffsetDateTime
  deriving DecidableEq

/-- The `data` object of a `LedgerUpdated.v1` envelope. -/
structure LedgerUpdatedData where
  journal_entry_id : UUID
  source_event_id : UUID
  account_id : String
  symbol : String
  side : String
  quantity : BigDecimal
  price : BigDecimal
  cash_delta : BigDecimal
  position_after : BigDecimal
  posted_at : OffsetDateTime
  deriving DecidableEq

/-- The envelope of `docs/contracts/events`, the JSON document that
`outbox_events.payload` holds as text. -/
structure LedgerUpdatedEnvelope where
  event_id : UUID
  event_type : String
  schema_version : String
  correlation_id : String
  produced_at : OffsetDateTime
  producer : String
  data : LedgerUpdatedData
  deriving DecidableEq

/-- A row of `outbox_events`; `π` is the document in `payload`. -/
structure OutboxRow (π : Type) where
  event_id : UUID
  event_type : Varchar 64
  payload : π
  sent : Bool
  created_at : OffsetDateTime
  deriving DecidableEq

structure Db where
  accounts : List Account
  accounts_pkey : (accounts.map (·.account_id)).Nodup
  trades : List Trade
  journal_entries : List JournalEntry
  journal_lines : List JournalLine
  audit_log : List AuditRow
  outbox_events : List (OutboxRow LedgerUpdatedEnvelope)
  deriving DecidableEq

/-- Net quantity of a row: BUY `+qty`, anything else `-qty`. -/
def Trade.signedQuantity (t : Trade) : BigDecimal :=
  if t.side.val = "BUY" then t.quantity.toRat else -t.quantity.toRat

/-- The row counts in the net position of the account and symbol. -/
def Trade.isPosted (t : Trade) (accountId symbol : String) : Bool :=
  t.account_id.val = accountId && t.symbol.val = symbol && t.status = .posted

/-- Sum of the signed quantities of the posted rows of an account and symbol. -/
def Db.netPosition (db : Db) (accountId symbol : String) : BigDecimal :=
  ((db.trades.filter (·.isPosted accountId symbol)).map Trade.signedQuantity).sum

end TradePulse.Ledger
