import TradePulse.Ledger.Service

/-! # What the statements and the use cases do

One specification for each `INSERT` and `UPDATE`, and one for each use case:
the statements it executes, in order, on each of its paths. Later proofs use
these and unfold neither the repository nor the service. -/
namespace TradePulse.Ledger
open TradePulse.Core TradePulse.Core.Prog TradePulse.Core.Transactions

/-! ## Statements -/

structure InsertsTrade (db : Db) (tradeId requestId : UUID) (accountId symbol side : String)
    (quantity price : BigDecimal) (status : TradeStatus) (rejectionReason : Option String)
    (createdAt : OffsetDateTime) (t : Trade) : Prop where
  trade_id : t.trade_id = tradeId
  request_id : t.request_id = requestId
  account_id : Varchar.store 64 accountId = some t.account_id
  symbol : Varchar.store 32 symbol = some t.symbol
  side : Varchar.store 4 side = some t.side
  quantity : Numeric.store 20 4 quantity = some t.quantity
  price : Numeric.store 20 4 price = some t.price
  status : t.status = status
  rejection_reason : varchar? 32 "rejection_reason" rejectionReason = .ok t.rejection_reason
  created_at : t.created_at = createdAt
  known_side : t.side.val = "BUY" ∨ t.side.val = "SELL"
  quantity_pos : 0 < t.quantity.units
  price_pos : 0 < t.price.units
  new_id : ∀ u ∈ db.trades, u.trade_id ≠ tradeId
  new_request : ∀ u ∈ db.trades, u.request_id ≠ requestId
  account : ∃ a ∈ db.accounts, a.account_id = t.account_id

theorem insertTrade_ok {db : Db} {i r : UUID} {a y d : String} {q p : BigDecimal}
    {s : TradeStatus} {v : Option String} {c : OffsetDateTime} {t : Trade}
    (h : db.insertTrade i r a y d q p s v c = .ok t) :
    InsertsTrade db i r a y d q p s v c t := by
  simp only [Db.insertTrade, except_bind_ok, require_ok, varchar_ok, numeric_ok] at h
  obtain ⟨ac, hac, sy, hsy, si, hsi, qu, hqu, pr, hpr, re, hre, -, hside, -, hq, -, hp, -, hid, -,
    hreq, -, hacc, h⟩ := h
  cases h
  exact ⟨rfl, rfl, hac, hsy, hsi, hqu, hpr, rfl, hre, rfl, hside, hq, hp, hid, hreq, hacc⟩

structure InsertsEntry (db : Db) (journalEntryId sourceEventId : UUID) (accountId : String)
    (postedAt : OffsetDateTime) (e : JournalEntry) : Prop where
  journal_entry_id : e.journal_entry_id = journalEntryId
  source_event_id : e.source_event_id = sourceEventId
  account_id : Varchar.store 64 accountId = some e.account_id
  posted_at : e.posted_at = postedAt
  new_id : ∀ f ∈ db.journal_entries, f.journal_entry_id ≠ journalEntryId
  new_source : ∀ f ∈ db.journal_entries, f.source_event_id ≠ sourceEventId
  account : ∃ a ∈ db.accounts, a.account_id = e.account_id

theorem insertJournalEntry_ok {db : Db} {j r : UUID} {a : String} {c : OffsetDateTime}
    {e : JournalEntry} (h : db.insertJournalEntry j r a c = .ok e) :
    InsertsEntry db j r a c e := by
  simp only [Db.insertJournalEntry, except_bind_ok, require_ok, varchar_ok] at h
  obtain ⟨ac, hac, -, hid, -, hsrc, -, hacc, h⟩ := h
  cases h
  exact ⟨rfl, rfl, hac, rfl, hid, hsrc, hacc⟩

structure InsertsLine (db : Db) (journalEntryId : UUID) (accountRef : String)
    (debit credit : BigDecimal) (l : JournalLine) : Prop where
  journal_entry_id : l.journal_entry_id = journalEntryId
  account_ref : Varchar.store 64 accountRef = some l.account_ref
  debit : Numeric.store 20 4 debit = some l.debit
  credit : Numeric.store 20 4 credit = some l.credit
  one_sided : (0 < l.debit.units ∧ l.credit.units = 0) ∨ (0 < l.credit.units ∧ l.debit.units = 0)

theorem insertJournalLine_ok {db : Db} {j : UUID} {a : String} {d c : BigDecimal}
    {l : JournalLine} (h : db.insertJournalLine j a d c = .ok l) : InsertsLine db j a d c l := by
  simp only [Db.insertJournalLine, except_bind_ok, require_ok, varchar_ok, numeric_ok] at h
  obtain ⟨ac, hac, de, hde, cr, hcr, -, -, -, -, -, hside, -, -, h⟩ := h
  cases h
  exact ⟨rfl, hac, hde, hcr, hside⟩

structure UpdatesCash (db : Db) (accountId : String) (delta : BigDecimal) (a b : Account) :
    Prop where
  find : db.accounts.find? (·.account_id.val = accountId) = some a
  account_id : b.account_id = a.account_id
  cash : Numeric.store 20 4 (a.cash_balance.toRat + delta) = some b.cash_balance
  cash_nonneg : 0 ≤ b.cash_balance.units

theorem updateCash_ok {db : Db} {i : String} {delta : BigDecimal} {o : Option Account}
    (h : db.updateCash i delta = .ok o) :
    (o = none ∧ db.accounts.find? (·.account_id.val = i) = none) ∨
      ∃ a b, o = some b ∧ UpdatesCash db i delta a b := by
  unfold Db.updateCash at h
  split at h
  · rename_i hnone
    cases h
    exact .inl ⟨rfl, hnone⟩
  · rename_i a hsome
    simp only [except_bind_ok, require_ok, numeric_ok] at h
    obtain ⟨m, hm, -, hpos, h⟩ := h
    cases h
    exact .inr ⟨a, _, rfl, hsome, rfl, hm, hpos⟩

structure InsertsAudit (db : Db) (auditId : UUID) (accountId : String) (sourceEventId : UUID)
    (action : AuditAction) (outcome : AuditOutcome) (reason : Option String)
    (recordedAt : OffsetDateTime) (a : AuditRow) : Prop where
  audit_id : a.audit_id = auditId
  account_id : Varchar.store 64 accountId = some a.account_id
  source_event_id : a.source_event_id = sourceEventId
  action : a.action = action
  outcome : a.outcome = outcome
  reason : varchar? 64 "reason" reason = .ok a.reason
  recorded_at : a.recorded_at = recordedAt

theorem insertAudit_ok {db : Db} {i r : UUID} {a : String} {n : AuditAction} {o : AuditOutcome}
    {v : Option String} {c : OffsetDateTime} {row : AuditRow}
    (h : db.insertAudit i a r n o v c = .ok row) : InsertsAudit db i a r n o v c row := by
  simp only [Db.insertAudit, except_bind_ok, require_ok, varchar_ok] at h
  obtain ⟨ac, hac, re, hre, -, -, h⟩ := h
  cases h
  exact ⟨rfl, hac, rfl, rfl, rfl, hre, rfl⟩

structure InsertsOutbox (db : Db) (eventId : UUID) (eventType : String)
    (payload : LedgerUpdatedEnvelope) (createdAt : OffsetDateTime)
    (o : OutboxRow LedgerUpdatedEnvelope) : Prop where
  event_id : o.event_id = eventId
  payload : o.payload = payload
  sent : o.sent = false
  created_at : o.created_at = createdAt
  new_id : ∀ p ∈ db.outbox_events, p.event_id ≠ eventId

theorem insertOutbox_ok {db : Db} {i : UUID} {t : String} {p : LedgerUpdatedEnvelope}
    {c : OffsetDateTime} {o : OutboxRow LedgerUpdatedEnvelope}
    (h : db.insertOutbox i t p c = .ok o) : InsertsOutbox db i t p c o := by
  simp only [Db.insertOutbox, except_bind_ok, require_ok, varchar_ok] at h
  obtain ⟨ty, -, -, hid, h⟩ := h
  cases h
  exact ⟨rfl, rfl, rfl, rfl, hid⟩

@[simp] theorem inserted_ok {α : Type} {row : α → Write} {x : Except LedgerError α} {u : Unit}
    {n : Option Write} : inserted row x = .ok (u, n) ↔ ∃ a, x = .ok a ∧ n = some (row a) := by
  cases x with
  | ok a => simp [inserted, Except.map, eq_comm]
  | error e => simp [inserted, Except.map]

/-! ## Use cases -/

/-- A statement a transaction has executed. -/
abbrev LedgerEvent := Event Statement Statement.Result (Option Write)

namespace TradeRequestDto

def amount (req : TradeRequestDto) : BigDecimal := req.price * req.quantity

def isBuy (req : TradeRequestDto) : Bool := "BUY" = req.side

/-- The change of the account's cash that the trade asks for. -/
def cashDelta (req : TradeRequestDto) : BigDecimal :=
  if req.isBuy then -req.amount else req.amount

/-- The change of the net position that the trade asks for. -/
def signedQty (req : TradeRequestDto) : BigDecimal :=
  if req.isBuy then req.quantity else -req.quantity

/-- The account debited and the account credited, in the order of the two lines. -/
def debited (req : TradeRequestDto) : String :=
  if req.isBuy then "securities" else req.account_id
def credited (req : TradeRequestDto) : String :=
  if req.isBuy then req.account_id else "securities"

end TradeRequestDto

/-- What a run of `postTrade` reads and draws on its way to acceptance. -/
structure Draws where
  now : OffsetDateTime
  cash : BigDecimal
  position : BigDecimal
  tradeId : UUID
  journalEntryId : UUID
  auditId : UUID
  outboxId : UUID
  envelopeId : UUID
  correlationId : String

/-- The envelope that an accepted trade writes to the outbox. -/
def Draws.envelope (v : Draws) (req : TradeRequestDto) : LedgerUpdatedEnvelope where
  event_id := v.envelopeId
  event_type := "LedgerUpdated"
  schema_version := "1"
  correlation_id := v.correlationId
  produced_at := v.now
  producer := "ledger-core"
  data :=
    { journal_entry_id := v.journalEntryId, source_event_id := req.request_id
      account_id := req.account_id, symbol := req.symbol, side := req.side
      quantity := req.quantity, price := req.price, cash_delta := req.cashDelta
      position_after := v.position + req.signedQty, posted_at := v.now }

/-- The answer to an accepted trade. -/
def Draws.outcome (v : Draws) (req : TradeRequestDto) : PostOutcome where
  result :=
    { request_id := req.request_id, journal_entry_id := some v.journalEntryId
      symbol := req.symbol, side := req.side, quantity := req.quantity, price := req.price
      status := .posted, rejection_reason := none, posted_at := some v.now }
  created := true

/-- The answer to a rejected trade. -/
def rejection (req : TradeRequestDto) (reason : String) : PostOutcome where
  result :=
    { request_id := req.request_id, journal_entry_id := none, symbol := req.symbol
      side := req.side, quantity := req.quantity, price := req.price, status := .rejected
      rejection_reason := some reason, posted_at := none }
  created := true

/-- The statements of an accepted trade; `corr` draws the correlation id. -/
inductive PostedTrace (req : TradeRequestDto) (v : Draws) : List LedgerEvent → Prop
  | mk {n₁ n₂ n₃ n₄ n₅ n₆ n₇ n₈ n₉ n₁₀ n₁₁ n₁₂ n₁₃ n₁₄ n₁₅ n₁₆ : Option Write}
      {corr : List LedgerEvent} (hcorr : ∀ e ∈ corr, e.stmt = .randomUUID) :
      PostedTrace req v
        ([⟨.findTradeByRequestId req.request_id, none, n₁⟩, ⟨.now, v.now, n₂⟩,
          ⟨.getCash req.account_id, some v.cash, n₃⟩,
          ⟨.positionAfter req.account_id req.symbol, v.position, n₄⟩,
          ⟨.randomUUID, v.tradeId, n₅⟩, ⟨.randomUUID, v.journalEntryId, n₆⟩,
          ⟨.insertTrade v.tradeId req.request_id req.account_id req.symbol req.side req.quantity
            req.price .posted none v.now, (), n₇⟩,
          ⟨.insertJournalEntry v.journalEntryId req.request_id req.account_id v.now, (), n₈⟩,
          ⟨.insertJournalLine v.journalEntryId req.debited req.amount 0, (), n₉⟩,
          ⟨.insertJournalLine v.journalEntryId req.credited 0 req.amount, (), n₁₀⟩,
          ⟨.updateCash req.account_id req.cashDelta, (), n₁₁⟩,
          ⟨.randomUUID, v.auditId, n₁₂⟩,
          ⟨.insertAudit v.auditId req.account_id req.request_id .POST_TRADE .accepted none v.now,
            (), n₁₃⟩,
          ⟨.randomUUID, v.outboxId, n₁₄⟩] ++ corr ++
         [⟨.randomUUID, v.envelopeId, n₁₅⟩,
          ⟨.insertOutbox v.outboxId "LedgerUpdated" (v.envelope req) v.now, (), n₁₆⟩])

/-- The three ways `postTrade` returns, statement by statement. -/
inductive PostTradeTrace (rules : ComplianceRules) (req : TradeRequestDto) :
    List LedgerEvent → PostOutcome → Prop
  | duplicate {existing : TradeResultDto} {n : Option Write} :
      PostTradeTrace rules req [⟨.findTradeByRequestId req.request_id, some existing, n⟩]
        { result := existing, created := false }
  | rejected {now : OffsetDateTime} {cash position : BigDecimal} {tradeId auditId : UUID}
      {reason : String} {n₁ n₂ n₃ n₄ n₅ n₆ n₇ n₈ : Option Write}
      (violation : rules.firstViolation (cash + req.cashDelta) (position + req.signedQty) =
        some reason) :
      PostTradeTrace rules req
        [⟨.findTradeByRequestId req.request_id, none, n₁⟩, ⟨.now, now, n₂⟩,
         ⟨.getCash req.account_id, some cash, n₃⟩,
         ⟨.positionAfter req.account_id req.symbol, position, n₄⟩,
         ⟨.randomUUID, tradeId, n₅⟩,
         ⟨.insertTrade tradeId req.request_id req.account_id req.symbol req.side req.quantity
           req.price .rejected (some reason) now, (), n₆⟩,
         ⟨.randomUUID, auditId, n₇⟩,
         ⟨.insertAudit auditId req.account_id req.request_id .POST_TRADE .rejected (some reason)
           now, (), n₈⟩]
        (rejection req reason)
  | posted {v : Draws} {es : List LedgerEvent} (trace : PostedTrace req v es)
      (compliant : rules.firstViolation (v.cash + req.cashDelta) (v.position + req.signedQty) =
        none) :
      PostTradeTrace rules req es (v.outcome req)

/-- Looking up the correlation id draws at most one identifier. -/
theorem follows_correlationIdOr {α : Type} {mdc : Option String} {f : String → Tx α} {b : α}
    {es : List LedgerEvent} (h : Follows (correlationIdOr mdc >>= f) es (.ret b)) :
    ∃ corr es' c, es = corr ++ es' ∧ (∀ e ∈ corr, e.stmt = .randomUUID) ∧
      Follows (f c) es' (.ret b) := by
  have drawn : ∀ es : List LedgerEvent, Follows ((UUID.toString <$> randomUUID) >>= f) es (.ret b) →
      ∃ corr es' c, es = corr ++ es' ∧ (∀ e ∈ corr, e.stmt = .randomUUID) ∧
        Follows (f c) es' (.ret b) := by
    intro es h
    rw [map_bind] at h
    obtain ⟨u, n, es', hrest, rfl⟩ := Follows.perform h
    exact ⟨[⟨.randomUUID, u, n⟩], es', _, rfl, by simp, hrest⟩
  unfold correlationIdOr at h
  split at h
  · split at h
    · exact drawn es h
    · exact ⟨[], es, _, rfl, by simp, h⟩
  · exact drawn es h

/-- What an accepted trade still does after its two journal lines. -/
def settle (mdc : Option String) (req : TradeRequestDto) (journalEntryId : UUID)
    (position : BigDecimal) (now : OffsetDateTime) : Tx PostOutcome := do
  updateCash req.account_id req.cashDelta
  let auditId ← randomUUID
  insertAudit auditId req.account_id req.request_id .POST_TRADE .accepted none now
  let outboxId ← randomUUID
  let envelope ← buildLedgerUpdatedEnvelope mdc req journalEntryId req.cashDelta
    (position + req.signedQty) now
  insertOutbox outboxId "LedgerUpdated" envelope now
  return { result := { request_id := req.request_id, journal_entry_id := some journalEntryId,
                       symbol := req.symbol, side := req.side, quantity := req.quantity,
                       price := req.price, status := .posted, rejection_reason := none,
                       posted_at := some now },
           created := true }

/-- The rows of a rejected trade. -/
def refuse (req : TradeRequestDto) (reason : String) (now : OffsetDateTime) : Tx PostOutcome := do
  let tradeId ← randomUUID
  insertTrade tradeId req.request_id req.account_id req.symbol req.side req.quantity req.price
    .rejected (some reason) now
  let auditId ← randomUUID
  insertAudit auditId req.account_id req.request_id .POST_TRADE .rejected (some reason) now
  return rejection req reason

/-- The rows of an accepted trade. -/
def book (mdc : Option String) (req : TradeRequestDto) (position : BigDecimal)
    (now : OffsetDateTime) : Tx PostOutcome := do
  let tradeId ← randomUUID
  let journalEntryId ← randomUUID
  insertTrade tradeId req.request_id req.account_id req.symbol req.side req.quantity req.price
    .posted none now
  insertJournalEntry journalEntryId req.request_id req.account_id now
  insertJournalLine journalEntryId req.debited req.amount 0
  insertJournalLine journalEntryId req.credited 0 req.amount
  settle mdc req journalEntryId position now

/-- Compliance, on what the call has read. -/
def comply (rules : ComplianceRules) (mdc : Option String) (req : TradeRequestDto)
    (cash position : BigDecimal) (now : OffsetDateTime) : Tx PostOutcome :=
  match rules.firstViolation (cash + req.cashDelta) (position + req.signedQty) with
  | some reason => refuse req reason now
  | _ => book mdc req position now

/-- `postTrade` in the request's own amounts. -/
theorem postTrade_eq (rules : ComplianceRules) (mdc : Option String) (req : TradeRequestDto) :
    postTrade rules mdc req = (findTradeByRequestId req.request_id >>= fun existing =>
      existing.elim
        (now >>= fun now => getCash req.account_id >>= fun cash =>
          cash.elim (throw .nullPointer) fun cash =>
            positionAfter req.account_id req.symbol >>= fun position =>
              comply rules mdc req cash position now)
        fun existing => return { result := existing, created := false }) := by
  unfold postTrade
  refine bind_congr fun existing => ?_
  cases existing with
  | some existing => rfl
  | none =>
    refine bind_congr fun now => bind_congr fun cash => ?_
    cases cash with
    | none => rfl
    | some cash =>
      refine bind_congr fun position => ?_
      unfold comply
      dsimp only
      congr 1
      funext _
      refine bind_congr fun tradeId => bind_congr fun j => bind_congr fun _ => ?_
      refine bind_congr fun _ => ?_
      by_cases hb : decide ("BUY" = req.side) = true
      · rw [show req.debited = "securities" from if_pos hb,
          show req.credited = req.account_id from if_pos hb]
        exact if_pos hb
      · rw [show req.debited = req.account_id from if_neg hb,
          show req.credited = "securities" from if_neg hb]
        exact if_neg hb

theorem settle_trace {mdc : Option String} {req : TradeRequestDto} {j : UUID}
    (tradeId : UUID) (cash : BigDecimal) {position : BigDecimal} {now : OffsetDateTime}
    {es : List LedgerEvent} {out : PostOutcome}
    (h : Follows (settle mdc req j position now) es (.ret out)) :
    ∃ (v : Draws) (corr : List LedgerEvent) (n₁₁ n₁₂ n₁₃ n₁₄ n₁₅ n₁₆ : Option Write),
      v.now = now ∧ v.cash = cash ∧ v.position = position ∧ v.tradeId = tradeId ∧
      v.journalEntryId = j ∧ (∀ e ∈ corr, e.stmt = .randomUUID) ∧ out = v.outcome req ∧
      es = [⟨.updateCash req.account_id req.cashDelta, (), n₁₁⟩,
          ⟨.randomUUID, v.auditId, n₁₂⟩,
          ⟨.insertAudit v.auditId req.account_id req.request_id .POST_TRADE .accepted none v.now,
            (), n₁₃⟩,
          ⟨.randomUUID, v.outboxId, n₁₄⟩] ++ corr ++
         [⟨.randomUUID, v.envelopeId, n₁₅⟩,
          ⟨.insertOutbox v.outboxId "LedgerUpdated" (v.envelope req) v.now, (), n₁₆⟩] := by
  unfold settle at h
  obtain ⟨_, n₁₁, es₁, h₁, rfl⟩ := Follows.perform h
  obtain ⟨auditId, n₁₂, es₂, h₂, rfl⟩ := Follows.perform h₁
  obtain ⟨_, n₁₃, es₃, h₃, rfl⟩ := Follows.perform h₂
  obtain ⟨outboxId, n₁₄, es₄, h₄, rfl⟩ := Follows.perform h₃
  simp only [buildLedgerUpdatedEnvelope, bind_assoc, pure_eq, ret_bind] at h₄
  obtain ⟨corr, es₅, correlationId, rfl, hcorr, h₅⟩ := follows_correlationIdOr h₄
  obtain ⟨envelopeId, n₁₅, es₆, h₆, rfl⟩ := Follows.perform h₅
  obtain ⟨_, n₁₆, es₇, h₇, rfl⟩ := Follows.perform h₆
  obtain ⟨rfl, rfl⟩ := (follows_ret _ _ _).mp h₇
  exact ⟨⟨now, cash, position, tradeId, j, auditId, outboxId, envelopeId, correlationId⟩, corr,
    n₁₁, n₁₂, n₁₃, n₁₄, n₁₅, n₁₆, rfl, rfl, rfl, rfl, rfl, hcorr, rfl, by simp [Draws.envelope]⟩

theorem comply_some {rules : ComplianceRules} {mdc : Option String} {req : TradeRequestDto}
    {cash position : BigDecimal} {now : OffsetDateTime} {reason : String}
    (h : rules.firstViolation (cash + req.cashDelta) (position + req.signedQty) = some reason) :
    comply rules mdc req cash position now = refuse req reason now := by rw [comply, h]

theorem comply_none {rules : ComplianceRules} {mdc : Option String} {req : TradeRequestDto}
    {cash position : BigDecimal} {now : OffsetDateTime}
    (h : rules.firstViolation (cash + req.cashDelta) (position + req.signedQty) = none) :
    comply rules mdc req cash position now = book mdc req position now := by rw [comply, h]

theorem postTrade_trace {rules : ComplianceRules} {mdc : Option String} {req : TradeRequestDto}
    {es : List LedgerEvent} {out : PostOutcome}
    (h : Follows (postTrade rules mdc req) es (.ret out)) : PostTradeTrace rules req es out := by
  rw [postTrade_eq] at h
  obtain ⟨existing, n₁, es₁, h₁, rfl⟩ := Follows.perform h
  cases existing with
  | some existing =>
    obtain ⟨rfl, rfl⟩ := (follows_ret _ _ _).mp h₁
    exact .duplicate
  | none =>
    obtain ⟨now, n₂, es₂, h₂, rfl⟩ := Follows.perform h₁
    obtain ⟨cash, n₃, es₃, h₃, rfl⟩ := Follows.perform h₂
    cases cash with
    | none => exact absurd h₃ (follows_raise _ _ _)
    | some cash =>
      obtain ⟨position, n₄, es₄, h₄, rfl⟩ := Follows.perform h₃
      cases hv : rules.firstViolation (cash + req.cashDelta) (position + req.signedQty) with
      | some reason =>
        rw [comply_some hv] at h₄
        obtain ⟨tradeId, n₅, es₅, h₅, rfl⟩ := Follows.perform h₄
        obtain ⟨_, n₆, es₆, h₆, rfl⟩ := Follows.perform h₅
        obtain ⟨auditId, n₇, es₇, h₇, rfl⟩ := Follows.perform h₆
        obtain ⟨_, n₈, es₈, h₈, rfl⟩ := Follows.perform h₇
        obtain ⟨rfl, rfl⟩ := (follows_ret _ _ _).mp h₈
        exact .rejected hv
      | none =>
        rw [comply_none hv] at h₄
        obtain ⟨tradeId, n₅, es₅, h₅, rfl⟩ := Follows.perform h₄
        obtain ⟨journalEntryId, n₆, es₆, h₆, rfl⟩ := Follows.perform h₅
        obtain ⟨_, n₇, es₇, h₇, rfl⟩ := Follows.perform h₆
        obtain ⟨_, n₈, es₈, h₈, rfl⟩ := Follows.perform h₇
        obtain ⟨_, n₉, es₉, h₉, rfl⟩ := Follows.perform h₈
        obtain ⟨_, n₁₀, es₁₀, h₁₀, rfl⟩ := Follows.perform h₉
        obtain ⟨v, corr, n₁₁, n₁₂, n₁₃, n₁₄, n₁₅, n₁₆, rfl, rfl, rfl, rfl, rfl, hcorr, rfl, rfl⟩ :=
          settle_trace tradeId cash h₁₀
        exact .posted (.mk hcorr) hv

/-- The one way `creditAccount` returns, statement by statement. -/
inductive CreditTrace (accountId : String) (amount : BigDecimal) (reason : Option String) :
    List LedgerEvent → AdminCreditResult → Prop
  | credited {now : OffsetDateTime} {cash : BigDecimal}
      {sourceEventId journalEntryId auditId : UUID}
      {n₁ n₂ n₃ n₄ n₅ n₆ n₇ n₈ n₉ n₁₀ : Option Write} (positive : 0 < amount) :
      CreditTrace accountId amount reason
        [⟨.getCash accountId, some cash, n₁⟩, ⟨.now, now, n₂⟩,
         ⟨.randomUUID, sourceEventId, n₃⟩, ⟨.randomUUID, journalEntryId, n₄⟩,
         ⟨.insertJournalEntry journalEntryId sourceEventId accountId now, (), n₅⟩,
         ⟨.insertJournalLine journalEntryId accountId amount 0, (), n₆⟩,
         ⟨.insertJournalLine journalEntryId "funding" 0 amount, (), n₇⟩,
         ⟨.updateCash accountId amount, (), n₈⟩, ⟨.randomUUID, auditId, n₉⟩,
         ⟨.insertAudit auditId accountId sourceEventId .ADMIN_CREDIT .accepted reason now, (),
           n₁₀⟩]
        { account_id := accountId, amount, new_cash_balance := cash + amount,
          status := "credited" }

theorem creditAccount_trace {accountId : String} {amount : BigDecimal} {reason : Option String}
    {es : List LedgerEvent} {out : AdminCreditResult}
    (h : Follows (creditAccount accountId amount reason) es (.ret out)) :
    CreditTrace accountId amount reason es out := by
  unfold creditAccount at h
  by_cases hpos : amount ≤ 0
  · rw [if_pos hpos] at h
    exact absurd h (follows_raise _ _ _)
  · rw [if_neg hpos] at h
    obtain ⟨cash, n₁, es₁, h₁, rfl⟩ := Follows.perform h
    cases cash with
    | none => exact absurd h₁ (follows_raise _ _ _)
    | some cash =>
      obtain ⟨now, n₂, es₂, h₂, rfl⟩ := Follows.perform h₁
      obtain ⟨sourceEventId, n₃, es₃, h₃, rfl⟩ := Follows.perform h₂
      obtain ⟨journalEntryId, n₄, es₄, h₄, rfl⟩ := Follows.perform h₃
      obtain ⟨_, n₅, es₅, h₅, rfl⟩ := Follows.perform h₄
      obtain ⟨_, n₆, es₆, h₆, rfl⟩ := Follows.perform h₅
      obtain ⟨_, n₇, es₇, h₇, rfl⟩ := Follows.perform h₆
      obtain ⟨_, n₈, es₈, h₈, rfl⟩ := Follows.perform h₇
      obtain ⟨auditId, n₉, es₉, h₉, rfl⟩ := Follows.perform h₈
      obtain ⟨_, n₁₀, es₁₀, h₁₀, rfl⟩ := Follows.perform h₉
      obtain ⟨rfl, rfl⟩ := (follows_ret _ _ _).mp h₁₀
      exact .credited (not_le.mp hpos)

/-! ## What a finished transaction writes -/

/-- The rows of an accepted trade. -/
structure PostedRows (req : TradeRequestDto) (v : Draws) where
  trade : Trade
  entry : JournalEntry
  debit : JournalLine
  credit : JournalLine
  account : Option Account
  audit : AuditRow
  outbox : OutboxRow LedgerUpdatedEnvelope
  trade_ok : ∃ db, InsertsTrade db v.tradeId req.request_id req.account_id req.symbol req.side
    req.quantity req.price .posted none v.now trade
  entry_ok : ∃ db, InsertsEntry db v.journalEntryId req.request_id req.account_id v.now entry
  debit_ok : ∃ db, InsertsLine db v.journalEntryId req.debited req.amount 0 debit
  credit_ok : ∃ db, InsertsLine db v.journalEntryId req.credited 0 req.amount credit
  account_ok : ∀ b ∈ account, ∃ db a, UpdatesCash db req.account_id req.cashDelta a b
  audit_ok : ∃ db, InsertsAudit db v.auditId req.account_id req.request_id .POST_TRADE .accepted
    none v.now audit
  outbox_ok : ∃ db, InsertsOutbox db v.outboxId "LedgerUpdated" (v.envelope req) v.now outbox

def PostedRows.writes {req : TradeRequestDto} {v : Draws} (r : PostedRows req v) : List Write :=
  [.trade r.trade, .journalEntry r.entry, .journalLine r.debit, .journalLine r.credit] ++
    (r.account.map .account).toList ++ [.audit r.audit, .outbox r.outbox]

/-- The rows of a rejected trade. -/
structure RejectedRows (req : TradeRequestDto) (reason : String) where
  trade : Trade
  audit : AuditRow
  trade_ok : ∃ db i c, InsertsTrade db i req.request_id req.account_id req.symbol req.side
    req.quantity req.price .rejected (some reason) c trade
  audit_ok : ∃ db i c, InsertsAudit db i req.account_id req.request_id .POST_TRADE .rejected
    (some reason) c audit

def RejectedRows.writes {req : TradeRequestDto} {reason : String} (r : RejectedRows req reason) :
    List Write := [.trade r.trade, .audit r.audit]

/-- The rows of an administrative credit. -/
structure CreditRows (accountId : String) (amount : BigDecimal) (sourceEventId : UUID) where
  entry : JournalEntry
  debit : JournalLine
  credit : JournalLine
  account : Option Account
  audit : AuditRow
  entry_ok : ∃ db j c, InsertsEntry db j sourceEventId accountId c entry
  debit_ok : ∃ db j, InsertsLine db j accountId amount 0 debit
  credit_ok : ∃ db j, InsertsLine db j "funding" 0 amount credit
  account_ok : ∀ b ∈ account, ∃ db a, UpdatesCash db accountId amount a b
  audit_ok : ∃ db i v c, InsertsAudit db i accountId sourceEventId .ADMIN_CREDIT .accepted v c
    audit

def CreditRows.writes {accountId : String} {amount : BigDecimal} {sourceEventId : UUID}
    (r : CreditRows accountId amount sourceEventId) : List Write :=
  [.journalEntry r.entry, .journalLine r.debit, .journalLine r.credit] ++
    (r.account.map .account).toList ++ [.audit r.audit]

/-- The engine answered the event on some view. -/
def Answered (e : LedgerEvent) : Prop := ∃ w d, engine.exec e.stmt w d = .ok (e.res, e.note)

/-- Reads, the clock and fresh identifiers. -/
def Statement.isSilent : Statement → Bool
  | .findTradeByRequestId _ | .getCash _ | .positionAfter _ _ | .now | .randomUUID => true
  | _ => false

theorem Answered.silent {e : LedgerEvent} (h : Answered e) (hs : e.stmt.isSilent = true) :
    e.note = none := by
  obtain ⟨stmt, res, note⟩ := e
  obtain ⟨w, d, h⟩ := h
  cases stmt <;> first | (cases h; rfl) | cases hs

theorem Answered.insertTrade {i r : UUID} {a y s : String} {q p : BigDecimal} {st : TradeStatus}
    {v : Option String} {c : OffsetDateTime} {n : Option Write}
    (h : Answered ⟨.insertTrade i r a y s q p st v c, (), n⟩) :
    ∃ t, n = some (.trade t) ∧ ∃ db, InsertsTrade db i r a y s q p st v c t := by
  obtain ⟨_, db, h⟩ := h
  obtain ⟨t, ht, hn⟩ := inserted_ok.mp h
  exact ⟨t, hn, db, insertTrade_ok ht⟩

theorem Answered.insertJournalEntry {j r : UUID} {a : String} {c : OffsetDateTime}
    {n : Option Write} (h : Answered ⟨.insertJournalEntry j r a c, (), n⟩) :
    ∃ e, n = some (.journalEntry e) ∧ ∃ db, InsertsEntry db j r a c e := by
  obtain ⟨_, db, h⟩ := h
  obtain ⟨e, he, hn⟩ := inserted_ok.mp h
  exact ⟨e, hn, db, insertJournalEntry_ok he⟩

theorem Answered.insertJournalLine {j : UUID} {a : String} {d c : BigDecimal}
    {n : Option Write} (h : Answered ⟨.insertJournalLine j a d c, (), n⟩) :
    ∃ l, n = some (.journalLine l) ∧ ∃ db, InsertsLine db j a d c l := by
  obtain ⟨_, db, h⟩ := h
  obtain ⟨l, hl, hn⟩ := inserted_ok.mp h
  exact ⟨l, hn, db, insertJournalLine_ok hl⟩

theorem Answered.updateCash {i : String} {delta : BigDecimal} {n : Option Write}
    (h : Answered ⟨.updateCash i delta, (), n⟩) :
    ∃ o : Option Account, n = o.map .account ∧ ∀ b ∈ o, ∃ db a, UpdatesCash db i delta a b := by
  obtain ⟨_, db, h⟩ := h
  cases ho : db.updateCash i delta with
  | error e => simp [engine, exec, ho, Except.map] at h
  | ok o =>
    simp only [engine, exec, ho, Except.map, Except.ok.injEq, Prod.mk.injEq, true_and] at h
    refine ⟨o, h.symm, fun b hb => ?_⟩
    obtain ⟨rfl, -⟩ | ⟨a, b', rfl, hu⟩ := updateCash_ok ho
    · cases hb
    · cases hb
      exact ⟨db, a, hu⟩

theorem Answered.insertAudit {i r : UUID} {a : String} {k : AuditAction} {o : AuditOutcome}
    {v : Option String} {c : OffsetDateTime} {n : Option Write}
    (h : Answered ⟨.insertAudit i a r k o v c, (), n⟩) :
    ∃ row, n = some (.audit row) ∧ ∃ db, InsertsAudit db i a r k o v c row := by
  obtain ⟨_, db, h⟩ := h
  obtain ⟨row, hrow, hn⟩ := inserted_ok.mp h
  exact ⟨row, hn, db, insertAudit_ok hrow⟩

theorem Answered.insertOutbox {i : UUID} {t : String} {p : LedgerUpdatedEnvelope}
    {c : OffsetDateTime} {n : Option Write} (h : Answered ⟨.insertOutbox i t p c, (), n⟩) :
    ∃ o, n = some (.outbox o) ∧ ∃ db, InsertsOutbox db i t p c o := by
  obtain ⟨_, db, h⟩ := h
  obtain ⟨o, ho, hn⟩ := inserted_ok.mp h
  exact ⟨o, hn, db, insertOutbox_ok ho⟩

/-- The position that a trace of `postTrade` has read. -/
def positionRead (es : List LedgerEvent) : Option BigDecimal :=
  es.findSome? fun
    | ⟨.positionAfter _ _, p, _⟩ => some p
    | _ => none

/-- The ways a transaction reaches its commit, with what it then writes. -/
inductive Finished (rules : ComplianceRules) : Call → List LedgerEvent → Reply → Prop
  | duplicate {mdc : Option String} {req : TradeRequestDto} {es : List LedgerEvent}
      {existing : TradeResultDto} (writes : writesOf es = []) :
      Finished rules (.postTrade mdc req) es (.trade { result := existing, created := false })
  | rejected {mdc : Option String} {req : TradeRequestDto} {es : List LedgerEvent}
      {reason : String} {cash position : BigDecimal}
      (violation : rules.firstViolation (cash + req.cashDelta) (position + req.signedQty) =
        some reason)
      (rows : RejectedRows req reason) (writes : writesOf es = rows.writes) :
      Finished rules (.postTrade mdc req) es (.trade (rejection req reason))
  | posted {mdc : Option String} {req : TradeRequestDto} {es : List LedgerEvent} {v : Draws}
      (trace : PostedTrace req v es)
      (rows : PostedRows req v) (writes : writesOf es = rows.writes)
      (read : positionRead es = some v.position)
      (compliant : rules.firstViolation (v.cash + req.cashDelta) (v.position + req.signedQty) =
        none) :
      Finished rules (.postTrade mdc req) es (.trade (v.outcome req))
  | credited {accountId : String} {amount : BigDecimal} {reason : Option String}
      {sourceEventId : UUID} {es : List LedgerEvent} {out : AdminCreditResult}
      (trace : CreditTrace accountId amount reason es out)
      (drawn : ∃ n, (⟨.randomUUID, sourceEventId, n⟩ : LedgerEvent) ∈ es)
      (rows : CreditRows accountId amount sourceEventId) (writes : writesOf es = rows.writes) :
      Finished rules (.creditAccount accountId amount reason) es (.credit out)

/-- Drawing identifiers writes nothing. -/
private theorem writesOf_drawn {corr : List LedgerEvent} (h : ∀ e ∈ corr, e.stmt = .randomUUID)
    (ha : ∀ e ∈ corr, Answered e) : writesOf corr = [] :=
  List.filterMap_eq_nil_iff.mpr fun e he => (ha e he).silent (by rw [h e he]; rfl)

private theorem finished_trade {rules : ComplianceRules} {mdc : Option String}
    {req : TradeRequestDto} {es : List LedgerEvent} {out : PostOutcome}
    (h : PostTradeTrace rules req es out) (ha : ∀ e ∈ es, Answered e) :
    Finished rules (.postTrade mdc req) es (.trade out) := by
  cases h with
  | duplicate =>
    have h₁ := (ha _ (List.mem_singleton.mpr rfl)).silent rfl
    simp only at h₁
    subst h₁
    exact .duplicate rfl
  | @rejected now cash position tradeId auditId reason n₁ n₂ n₃ n₄ n₅ n₆ n₇ n₈ violation =>
    simp only [List.forall_mem_cons] at ha
    obtain ⟨a₁, a₂, a₃, a₄, a₅, a₆, a₇, a₈, -⟩ := ha
    obtain ⟨t, rfl, dt, ht⟩ := a₆.insertTrade
    obtain ⟨a, rfl, da, hau⟩ := a₈.insertAudit
    have h₁ : n₁ = none := a₁.silent rfl
    have h₂ : n₂ = none := a₂.silent rfl
    have h₃ : n₃ = none := a₃.silent rfl
    have h₄ : n₄ = none := a₄.silent rfl
    have h₅ : n₅ = none := a₅.silent rfl
    have h₇ : n₇ = none := a₇.silent rfl
    subst h₁ h₂ h₃ h₄ h₅ h₇
    exact .rejected violation ⟨t, a, ⟨dt, _, _, ht⟩, ⟨da, _, _, hau⟩⟩ rfl
  | @posted v es trace compliant =>
    obtain @⟨n₁, n₂, n₃, n₄, n₅, n₆, n₇, n₈, n₉, n₁₀, n₁₁, n₁₂, n₁₃, n₁₄, n₁₅, n₁₆, corr, hcorr⟩ :=
      trace
    have hc := writesOf_drawn hcorr fun e he => ha e (by simp [he])
    simp only [List.forall_mem_append, List.forall_mem_cons] at ha
    obtain ⟨⟨⟨a₁, a₂, a₃, a₄, a₅, a₆, a₇, a₈, a₉, a₁₀, a₁₁, a₁₂, a₁₃, a₁₄, -⟩, -⟩, a₁₅, a₁₆, -⟩ := ha
    obtain ⟨t, rfl, ht⟩ := a₇.insertTrade
    obtain ⟨e, rfl, he⟩ := a₈.insertJournalEntry
    obtain ⟨l₁, rfl, hl₁⟩ := a₉.insertJournalLine
    obtain ⟨l₂, rfl, hl₂⟩ := a₁₀.insertJournalLine
    obtain ⟨b, rfl, hb⟩ := a₁₁.updateCash
    obtain ⟨a, rfl, hau⟩ := a₁₃.insertAudit
    obtain ⟨o, rfl, ho⟩ := a₁₆.insertOutbox
    have h₁ : n₁ = none := a₁.silent rfl
    have h₂ : n₂ = none := a₂.silent rfl
    have h₃ : n₃ = none := a₃.silent rfl
    have h₄ : n₄ = none := a₄.silent rfl
    have h₅ : n₅ = none := a₅.silent rfl
    have h₆ : n₆ = none := a₆.silent rfl
    have h₁₂ : n₁₂ = none := a₁₂.silent rfl
    have h₁₄ : n₁₄ = none := a₁₄.silent rfl
    have h₁₅ : n₁₅ = none := a₁₅.silent rfl
    subst h₁ h₂ h₃ h₄ h₅ h₆ h₁₂ h₁₄ h₁₅
    refine .posted (.mk hcorr) ⟨t, e, l₁, l₂, b, a, o, ht, he, hl₁, hl₂, hb, hau, ho⟩
      ?_ rfl compliant
    unfold writesOf at hc
    cases b <;> simp [writesOf, PostedRows.writes, hc]

private theorem finished_credit {rules : ComplianceRules} {accountId : String}
    {amount : BigDecimal} {reason : Option String} {es : List LedgerEvent}
    {out : AdminCreditResult} (h : CreditTrace accountId amount reason es out)
    (ha : ∀ e ∈ es, Answered e) :
    Finished rules (.creditAccount accountId amount reason) es (.credit out) := by
  have trace := h
  cases h with
  | @credited now cash sourceEventId j i n₁ n₂ n₃ n₄ n₅ n₆ n₇ n₈ n₉ n₁₀ positive =>
    simp only [List.forall_mem_cons] at ha
    obtain ⟨a₁, a₂, a₃, a₄, a₅, a₆, a₇, a₈, a₉, a₁₀, -⟩ := ha
    obtain ⟨e, rfl, de, he⟩ := a₅.insertJournalEntry
    obtain ⟨l₁, rfl, d₁, hl₁⟩ := a₆.insertJournalLine
    obtain ⟨l₂, rfl, d₂, hl₂⟩ := a₇.insertJournalLine
    obtain ⟨b, rfl, hb⟩ := a₈.updateCash
    obtain ⟨a, rfl, da, hau⟩ := a₁₀.insertAudit
    have h₁ : n₁ = none := a₁.silent rfl
    have h₂ : n₂ = none := a₂.silent rfl
    have h₃ : n₃ = none := a₃.silent rfl
    have h₄ : n₄ = none := a₄.silent rfl
    have h₉ : n₉ = none := a₉.silent rfl
    subst h₁ h₂ h₃ h₄ h₉
    refine @Finished.credited _ _ _ _ sourceEventId _ _ trace ⟨none, by simp⟩
      ⟨e, l₁, l₂, b, a, ⟨de, _, _, he⟩, ⟨d₁, _, hl₁⟩, ⟨d₂, _, hl₂⟩, hb, ⟨da, _, _, _, hau⟩⟩ ?_
    cases b <;> simp [writesOf, CreditRows.writes]

/-- **Inversion of a commit.** A transaction at its end has replayed, accepted
or rejected a trade, or credited an account, and writes the rows of that. -/
theorem finished {rules : ComplianceRules} {c : Call} {es : List LedgerEvent} {a : Reply}
    {st : Status} (h : Faithful engine (service rules) ⟨c, es, .ret a, st⟩) :
    Finished rules c es a := by
  cases c with
  | postTrade mdc req =>
    obtain ⟨out, hf, rfl⟩ := follows_map h.follows
    exact finished_trade (postTrade_trace hf) h.exec
  | creditAccount i x v =>
    obtain ⟨out, hf, rfl⟩ := follows_map h.follows
    exact finished_credit (creditAccount_trace hf) h.exec

end TradePulse.Ledger
