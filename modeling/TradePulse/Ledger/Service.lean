import TradePulse.Ledger.Repository

/-! # `LedgerService`: posting trades and crediting accounts

The use cases as programs over the statements of `Repository`, in the order in
which the service executes them. The repository rules (`ComplianceRules`) and
the controllers' validation are pure functions. Where the service throws, the
program raises; Spring then rolls the transaction back. -/
namespace TradePulse.Ledger
open TradePulse.Core

abbrev Tx (α : Type) := Prog Statement Statement.Result LedgerError α

/-! ## Statements as calls -/

def findTradeByRequestId (requestId : UUID) : Tx (Option TradeResultDto) :=
  .perform (Statement.findTradeByRequestId requestId)
def getCash (accountId : String) : Tx (Option BigDecimal) := .perform (Statement.getCash accountId)
def positionAfter (accountId symbol : String) : Tx BigDecimal :=
  .perform (Statement.positionAfter accountId symbol)
def insertTrade (tradeId requestId : UUID) (accountId symbol side : String)
    (quantity price : BigDecimal) (status : TradeStatus) (rejectionReason : Option String)
    (createdAt : OffsetDateTime) : Tx Unit :=
  .perform (Statement.insertTrade tradeId requestId accountId symbol side quantity price status
    rejectionReason createdAt)
def insertJournalEntry (journalEntryId sourceEventId : UUID) (accountId : String)
    (postedAt : OffsetDateTime) : Tx Unit :=
  .perform (Statement.insertJournalEntry journalEntryId sourceEventId accountId postedAt)
def insertJournalLine (journalEntryId : UUID) (accountRef : String)
    (debit credit : BigDecimal) : Tx Unit :=
  .perform (Statement.insertJournalLine journalEntryId accountRef debit credit)
def updateCash (accountId : String) (delta : BigDecimal) : Tx Unit :=
  .perform (Statement.updateCash accountId delta)
def insertAudit (auditId : UUID) (accountId : String) (sourceEventId : UUID)
    (action : AuditAction) (outcome : AuditOutcome) (reason : Option String)
    (recordedAt : OffsetDateTime) : Tx Unit :=
  .perform (Statement.insertAudit auditId accountId sourceEventId action outcome reason recordedAt)
def insertOutbox (eventId : UUID) (eventType : String) (payload : LedgerUpdatedEnvelope)
    (createdAt : OffsetDateTime) : Tx Unit :=
  .perform (Statement.insertOutbox eventId eventType payload createdAt)
/-- `OffsetDateTime.now(ZoneOffset.UTC)`. -/
def now : Tx OffsetDateTime := .perform Statement.now
def randomUUID : Tx UUID := .perform Statement.randomUUID

/-! ## Compliance -/

structure ComplianceRules where
  maxPosition : BigDecimal

def NEGATIVE_CASH : String := "NEGATIVE_CASH"
def MAX_POSITION_EXCEEDED : String := "MAX_POSITION_EXCEEDED"

def ComplianceRules.firstViolation (rules : ComplianceRules)
    (cashAfter positionAfter : BigDecimal) : Option String :=
  if cashAfter < 0 then some NEGATIVE_CASH
  else if |positionAfter| > rules.maxPosition then some MAX_POSITION_EXCEEDED
  else none

theorem firstViolation_none {rules : ComplianceRules} {c p : BigDecimal} :
    rules.firstViolation c p = none ↔ 0 ≤ c ∧ |p| ≤ rules.maxPosition := by
  unfold ComplianceRules.firstViolation
  split
  · simp_all
  · split <;> simp_all

/-! ## The use cases -/

structure PostOutcome where
  result : TradeResultDto
  created : Bool
  deriving DecidableEq

structure AdminCreditResult where
  account_id : String
  amount : BigDecimal
  new_cash_balance : BigDecimal
  status : String
  deriving DecidableEq

/-- `String.isBlank`: Java whitespace only. -/
def isBlank (s : String) : Bool := s.toList.all fun c =>
  let n := c.toNat
  (9 ≤ n && n ≤ 13) || (28 ≤ n && n ≤ 32) || n = 0x1680 ||
    (0x2000 ≤ n && n ≤ 0x200A && n ≠ 0x2007) || n = 0x2028 || n = 0x2029 || n = 0x205F ||
    n = 0x3000

/-- The correlation id of the request's logging context, or a fresh one. -/
def correlationIdOr (mdc : Option String) : Tx String :=
  match mdc with
  | some c => if isBlank c then UUID.toString <$> randomUUID else pure c
  | none => UUID.toString <$> randomUUID

def buildLedgerUpdatedEnvelope (mdc : Option String) (req : TradeRequestDto)
    (journalEntryId : UUID) (cashDelta positionAfter : BigDecimal) (postedAt : OffsetDateTime) :
    Tx LedgerUpdatedEnvelope := do
  let correlationId ← correlationIdOr mdc
  let data : LedgerUpdatedData :=
    { journal_entry_id := journalEntryId, source_event_id := req.request_id
      account_id := req.account_id, symbol := req.symbol, side := req.side
      quantity := req.quantity, price := req.price, cash_delta := cashDelta
      position_after := positionAfter, posted_at := postedAt }
  let eventId ← randomUUID
  return { event_id := eventId, event_type := "LedgerUpdated", schema_version := "1",
           correlation_id := correlationId, produced_at := postedAt, producer := "ledger-core",
           data }

def creditAccount (accountId : String) (amount : BigDecimal) (reason : Option String) :
    Tx AdminCreditResult := do
  if amount ≤ 0 then
    throw (.illegalArgument "amount must be > 0")
  let some cash ← getCash accountId | throw (.illegalState "unknown account_id")
  let now ← now
  let sourceEventId ← randomUUID
  let journalEntryId ← randomUUID
  insertJournalEntry journalEntryId sourceEventId accountId now
  insertJournalLine journalEntryId accountId amount 0
  insertJournalLine journalEntryId "funding" 0 amount
  updateCash accountId amount
  let auditId ← randomUUID
  insertAudit auditId accountId sourceEventId .ADMIN_CREDIT .accepted reason now
  return { account_id := accountId, amount, new_cash_balance := cash + amount,
           status := "credited" }

def postTrade (rules : ComplianceRules) (mdc : Option String) (req : TradeRequestDto) :
    Tx PostOutcome := do
  -- 1) Idempotency: a retried request_id returns the original outcome.
  if let some existing ← findTradeByRequestId req.request_id then
    return { result := existing, created := false }
  let now ← now
  let some cash ← getCash req.account_id | throw .nullPointer
  let amount := req.price * req.quantity
  let isBuy : Bool := "BUY" = req.side
  let cashDelta := if isBuy then -amount else amount
  let cashAfter := cash + cashDelta
  let currentPosition ← positionAfter req.account_id req.symbol
  let signedQty := if isBuy then req.quantity else -req.quantity
  let positionAfter := currentPosition + signedQty
  -- 2) Compliance: reject (but still audit) on the first violated rule.
  if let some reason := rules.firstViolation cashAfter positionAfter then
    let tradeId ← randomUUID
    insertTrade tradeId req.request_id req.account_id req.symbol req.side req.quantity req.price
      .rejected (some reason) now
    let auditId ← randomUUID
    insertAudit auditId req.account_id req.request_id .POST_TRADE .rejected (some reason) now
    return { result := { request_id := req.request_id, journal_entry_id := none,
                         symbol := req.symbol, side := req.side, quantity := req.quantity,
                         price := req.price, status := .rejected,
                         rejection_reason := some reason, posted_at := none },
             created := true }
  -- 3) Accept: trade + balanced journal + cash + audit + outbox (atomic).
  let tradeId ← randomUUID
  let journalEntryId ← randomUUID
  insertTrade tradeId req.request_id req.account_id req.symbol req.side req.quantity req.price
    .posted none now
  insertJournalEntry journalEntryId req.request_id req.account_id now
  if isBuy then
    insertJournalLine journalEntryId "securities" amount 0
    insertJournalLine journalEntryId req.account_id 0 amount
  else
    insertJournalLine journalEntryId req.account_id amount 0
    insertJournalLine journalEntryId "securities" 0 amount
  updateCash req.account_id cashDelta
  let auditId ← randomUUID
  insertAudit auditId req.account_id req.request_id .POST_TRADE .accepted none now
  let outboxId ← randomUUID
  let envelope ← buildLedgerUpdatedEnvelope mdc req journalEntryId cashDelta positionAfter now
  insertOutbox outboxId "LedgerUpdated" envelope now
  return { result := { request_id := req.request_id, journal_entry_id := some journalEntryId,
                       symbol := req.symbol, side := req.side, quantity := req.quantity,
                       price := req.price, status := .posted, rejection_reason := none,
                       posted_at := some now },
           created := true }

/-! ## Calls of the service -/

/-- A call that a controller makes; `mdc` is the correlation id of its request. -/
inductive Call where
  | postTrade (mdc : Option String) (req : TradeRequestDto)
  | creditAccount (accountId : String) (amount : BigDecimal) (reason : Option String)
  deriving DecidableEq

inductive Reply where
  | trade (outcome : PostOutcome)
  | credit (result : AdminCreditResult)
  deriving DecidableEq

def service (rules : ComplianceRules) : Call → Tx Reply
  | .postTrade mdc req => Reply.trade <$> postTrade rules mdc req
  | .creditAccount a x v => Reply.credit <$> creditAccount a x v

/-! ## The controllers' validation -/

/-- `TradeRequestDto` as deserialized from the request body: any field may be null. -/
structure TradeRequestBody where
  request_id : Option UUID
  account_id : Option String
  symbol : Option String
  side : Option String
  quantity : Option BigDecimal
  price : Option BigDecimal
  requested_by : Option String

/-- `TradeController.validate`, returning the request with its fields non-null. -/
def validate : Option TradeRequestBody → Except String TradeRequestDto
  | some ⟨some request_id, some account_id, some symbol, some side, some quantity, some price,
      requested_by⟩ =>
    if ¬ "BUY" = side ∧ ¬ "SELL" = side then .error "side must be BUY or SELL"
    else if quantity ≤ 0 ∨ price ≤ 0 then .error "quantity and price must be > 0"
    else .ok { request_id, account_id, symbol, side, quantity, price, requested_by }
  | _ => .error "missing required trade fields"

/-- What `validate` lets through. -/
structure TradeRequestDto.Valid (req : TradeRequestDto) : Prop where
  side : req.side = "BUY" ∨ req.side = "SELL"
  quantity : 0 < req.quantity
  price : 0 < req.price

theorem TradeRequestDto.valid_iff {req : TradeRequestDto} :
    req.Valid ↔ (req.side = "BUY" ∨ req.side = "SELL") ∧ 0 < req.quantity ∧ 0 < req.price :=
  ⟨fun h => ⟨h.side, h.quantity, h.price⟩, fun h => ⟨h.1, h.2.1, h.2.2⟩⟩

instance (req : TradeRequestDto) : Decidable req.Valid :=
  decidable_of_iff _ TradeRequestDto.valid_iff.symm

theorem validate_ok {body : Option TradeRequestBody} {req : TradeRequestDto}
    (h : validate body = .ok req) : req.Valid := by
  unfold validate at h
  split at h
  · split at h
    · cases h
    · rename_i hside
      split at h
      · cases h
      · rename_i hpos
        cases h
        push Not at hside hpos
        refine ⟨?_, hpos.1, hpos.2⟩
        by_cases hb : "BUY" = ‹String›
        · exact .inl hb.symm
        · exact .inr (hside hb).symm
  · cases h

/-- The valid requests are exactly those that some body is let through as. -/
theorem validate_iff {req : TradeRequestDto} :
    (∃ body, validate body = .ok req) ↔ req.Valid := by
  refine ⟨fun ⟨_, h⟩ => validate_ok h, fun h => ?_⟩
  refine ⟨some ⟨some req.request_id, some req.account_id, some req.symbol, some req.side,
    some req.quantity, some req.price, req.requested_by⟩, ?_⟩
  have hside : ¬ (¬ "BUY" = req.side ∧ ¬ "SELL" = req.side) := by
    rintro ⟨hb, hs⟩
    obtain h | h := h.side
    · exact hb h.symm
    · exact hs h.symm
  have hpos : ¬ (req.quantity ≤ 0 ∨ req.price ≤ 0) := by
    rintro (hq | hp)
    · exact absurd h.quantity (not_lt.mpr hq)
    · exact absurd h.price (not_lt.mpr hp)
  simp only [validate, hside, hpos, if_false]

end TradePulse.Ledger
