import TradePulse.Ledger.DoubleEntry
import TradePulse.Ledger.Limits
import TradePulse.Ledger.Serial

/-! # Every attempt is decided and audited

Validation looks at the request alone; the tables look at what is stored. A
decision is lost exactly when a value that passed the first does not fit the
second, since the exception takes the audit row down with the rest. -/
namespace TradePulse.Ledger
open TradePulse.Core TradePulse.Core.Prog TradePulse.Core.Runs TradePulse.Core.Transactions

/-! ## Statement -/

/-- A row of `trades` can hold the request. -/
structure TradeRequestDto.Fits (req : TradeRequestDto) : Prop where
  symbol : (Varchar.store 32 req.symbol).isSome = true
  quantity : ∃ m, Numeric.store 20 4 req.quantity = some m ∧ 0 < m.units
  price : ∃ m, Numeric.store 20 4 req.price = some m ∧ 0 < m.units

/-- The journal can hold the amount, and an account with `cash` its new balance. -/
structure TradeRequestDto.Bookable (req : TradeRequestDto) (cash : BigDecimal) : Prop where
  amount : ∃ m, Numeric.store 20 4 req.amount = some m ∧ 0 < m.units
  balance : (Numeric.store 20 4 (cash + req.cashDelta)).isSome = true

/-- The tables can hold the request and, if it is compliant, its booking. -/
structure Admissible (rules : ComplianceRules) (db : Db) (req : TradeRequestDto)
    (cash : BigDecimal) : Prop where
  fits : req.Fits
  bookable : rules.firstViolation (cash + req.cashDelta)
    (db.netPosition req.account_id req.symbol + req.signedQty) = none → req.Bookable cash

/-- A BUY costs more than the account has. -/
def TradeRequestDto.Overdraws (req : TradeRequestDto) (cash : BigDecimal) : Prop :=
  req.side = "BUY" ∧ cash < req.amount

/-- The outcome names the first violated rule, if any. -/
structure Decided (rules : ComplianceRules) (db : Db) (req : TradeRequestDto) (cash : BigDecimal)
    (out : PostOutcome) : Prop where
  created : out.created = true
  negative_cash : out.result.rejection_reason = some NEGATIVE_CASH ↔ req.Overdraws cash
  max_position : out.result.rejection_reason = some MAX_POSITION_EXCEEDED ↔
    ¬ req.Overdraws cash ∧
      rules.maxPosition < |db.netPosition req.account_id req.symbol + req.signedQty|
  status : out.result.status = .rejected ↔ req.Overdraws cash ∨
    rules.maxPosition < |db.netPosition req.account_id req.symbol + req.signedQty|

/-- One trades row and one `POST_TRADE` audit row of the request, as decided. -/
structure Audited (db : Db) (req : TradeRequestDto) (out : PostOutcome) : Prop where
  trade : ExactlyOne db.trades (·.request_id = req.request_id)
  as_decided : ∀ t ∈ db.trades, t.request_id = req.request_id → t.status = out.result.status
  audit : ExactlyOne db.audit_log fun a =>
    a.source_event_id = req.request_id && a.action = .POST_TRADE

/-- The call returns a decision and commits its record. -/
def DecidedAndAudited (rules : ComplianceRules) (db : Db) (mdc : Option String)
    (req : TradeRequestDto) (w : Nat → Ambient) (cash : BigDecimal) : Prop :=
  ∃ out db', serve rules db ⟨.postTrade mdc req, w⟩ = (.ok (.trade out), db') ∧
    Decided rules db req cash out ∧ Audited db' req out

/-- The identifier is on no row yet. -/
structure NewId (db : Db) (u : UUID) : Prop where
  trade : ∀ t ∈ db.trades, t.trade_id ≠ u
  entry : ∀ e ∈ db.journal_entries, e.journal_entry_id ≠ u
  audit : ∀ a ∈ db.audit_log, a.audit_id ≠ u
  outbox : ∀ o ∈ db.outbox_events, o.event_id ≠ u

/-- Funded accounts whose ids are text, and nothing booked yet. -/
structure Seeded (db : Db) : Prop where
  empty : NothingBooked db
  cash : ∀ a ∈ db.accounts, 0 ≤ a.cash_balance.toRat
  text : ∀ a ∈ db.accounts, '\x00' ∉ a.account_id.val.toList

/-! ## The first violated rule -/

theorem TradeRequestDto.amount_pos {req : TradeRequestDto} (h : req.Valid) : 0 < req.amount :=
  mul_pos h.price h.quantity

theorem TradeRequestDto.overdraws_iff {req : TradeRequestDto} {cash : BigDecimal} (h : req.Valid)
    (hcash : 0 ≤ cash) : req.Overdraws cash ↔ cash + req.cashDelta < 0 := by
  have hpos := req.amount_pos h
  unfold TradeRequestDto.Overdraws TradeRequestDto.cashDelta TradeRequestDto.isBuy
  by_cases hb : req.side = "BUY"
  · simp [hb]
  · simp only [hb, false_and, Ne.symm hb, decide_false, Bool.false_eq_true, if_false, false_iff,
      not_lt]
    linarith

theorem firstViolation_cases (rules : ComplianceRules) (c p : BigDecimal) :
    (c < 0 ∧ rules.firstViolation c p = some NEGATIVE_CASH) ∨
      (0 ≤ c ∧ rules.maxPosition < |p| ∧
        rules.firstViolation c p = some MAX_POSITION_EXCEEDED) ∨
      (0 ≤ c ∧ |p| ≤ rules.maxPosition ∧ rules.firstViolation c p = none) := by
  unfold ComplianceRules.firstViolation
  rcases lt_or_ge c 0 with hc | hc
  · exact .inl ⟨hc, if_pos hc⟩
  · rw [if_neg (not_lt.mpr hc)]
    rcases lt_or_ge rules.maxPosition |p| with hp | hp
    · exact .inr (.inl ⟨hc, hp, if_pos hp⟩)
    · exact .inr (.inr ⟨hc, hp, if_neg (not_lt.mpr hp)⟩)

theorem PostsAlone.decided {rules : ComplianceRules} {db : Db} {req : TradeRequestDto}
    {out : PostOutcome} {ws : List Write} {cash : BigDecimal} (h : PostsAlone rules db req out ws)
    (hvalid : req.Valid) (hread : db.getCash req.account_id = some cash) (hcash : 0 ≤ cash)
    (hnew : ∀ t ∈ db.trades, t.request_id ≠ req.request_id) :
    Decided rules db req cash out := by
  have hover := req.overdraws_iff hvalid hcash
  have hne : NEGATIVE_CASH ≠ MAX_POSITION_EXCEEDED := by decide
  cases h with
  | duplicate found =>
    rw [findTradeByRequestId_none.mpr hnew] at found
    cases found
  | @rejected cash' reason fresh read violation rows =>
    obtain rfl : cash' = cash := Option.some.inj (read.symm.trans hread)
    rcases firstViolation_cases rules (cash' + req.cashDelta)
      (db.netPosition req.account_id req.symbol + req.signedQty) with
      ⟨hc, hv⟩ | ⟨hc, hp, hv⟩ | ⟨-, -, hv⟩
    · obtain rfl := Option.some.inj (violation.symm.trans hv)
      exact ⟨rfl, by simp [rejection, hover, hc], by simp [rejection, hover, hc, hne],
        by simp [rejection, hover, hc]⟩
    · obtain rfl := Option.some.inj (violation.symm.trans hv)
      exact ⟨rfl, by simp [rejection, hover, hc, hne.symm], by simp [rejection, hover, hc, hp],
        by simp [rejection, hp]⟩
    · rw [violation] at hv
      cases hv
  | @posted v fresh compliant rows serial =>
    obtain rfl : v.cash = cash := Option.some.inj (serial.cash.symm.trans hread)
    obtain ⟨hc, hp⟩ := firstViolation_none.mp compliant
    exact ⟨rfl, by simp [Draws.outcome, hover, hc], by simp [Draws.outcome, hp],
      by simp [Draws.outcome, hover, hc, hp]⟩

/-! ## What is recorded -/

/-- In balanced books a request without a trade has no `POST_TRADE` audit row. -/
theorem Balanced.unaudited {G : UUID → Prop} {db : Db} {r : UUID} (h : Balanced G db r)
    (hnew : ∀ t ∈ db.trades, t.request_id ≠ r) :
    db.audit_log.countP (fun a => a.source_event_id = r && a.action = .POST_TRADE) = 0 := by
  have h0 := postings_fresh hnew
  have hacc := h.accepted
  have href := congrArg List.length h.refused
  rw [List.countP_eq_zero]
  intro a ha
  simp only [Bool.and_eq_true, decide_eq_true_eq, not_and]
  intro hr hact
  cases hout : a.outcome with
  | accepted =>
    have : 0 < acceptances r db.audit_log :=
      List.countP_pos_iff.mpr ⟨a, ha, by simp [AuditRow.decides, hr, hact, hout]⟩
    omega
  | rejected =>
    have : 0 < (refusals r db.audit_log).length :=
      List.length_pos_of_mem (List.mem_map.mpr ⟨a, List.mem_filter.mpr
        ⟨ha, by simp [AuditRow.decides, hr, hact, hout]⟩, rfl⟩)
    omega

/-- Nor has it a journal entry, unless its id is a generated one. -/
theorem Balanced.unbooked {G : UUID → Prop} {db : Db} {r : UUID} (h : Balanced G db r)
    (hasked : ¬ G r) (hnew : ∀ t ∈ db.trades, t.request_id ≠ r) :
    ∀ e ∈ db.journal_entries, e.source_event_id ≠ r := by
  intro e he heq
  have h0 := postings_fresh hnew
  have hpos := entries_pos he heq
  have hbooked := h.booked
  have hcredit := h.asked hasked
  omega

theorem Audited.of_rows {db : Db} {ws : List Write} {req : TradeRequestDto} {out : PostOutcome}
    {t : Trade} {a : AuditRow} (ht : ws.filterMap Write.trade? = [t])
    (ha : ws.filterMap Write.audit? = [a]) (hreq : t.request_id = req.request_id)
    (hstatus : t.status = out.result.status) (hsource : a.source_event_id = req.request_id)
    (haction : a.action = .POST_TRADE) (hnew : ∀ t ∈ db.trades, t.request_id ≠ req.request_id)
    (hun : db.audit_log.countP (fun a => a.source_event_id = req.request_id &&
      a.action = .POST_TRADE) = 0) : Audited (engine.applyAll db ws) req out where
  trade := by
    have h0 : db.trades.countP (·.request_id = req.request_id) = 0 := by
      simpa [List.countP_eq_zero] using hnew
    simp [ExactlyOne, ht, List.countP_append, h0, hreq]
  as_decided u hu hr := by
    rw [trades_applyAll, ht, List.mem_append, List.mem_singleton] at hu
    rcases hu with hu | rfl
    · exact absurd hr (hnew u hu)
    · exact hstatus
  audit := by
    simp [ExactlyOne, ha, List.countP_append, hun, hsource, haction]

theorem PostsAlone.audited {rules : ComplianceRules} {db : Db} {req : TradeRequestDto}
    {out : PostOutcome} {ws : List Write} {G : UUID → Prop} (h : PostsAlone rules db req out ws)
    (hb : Balanced G db req.request_id) (hnew : ∀ t ∈ db.trades, t.request_id ≠ req.request_id) :
    Audited (engine.applyAll db ws) req out := by
  have hun := hb.unaudited hnew
  cases h with
  | duplicate found =>
    rw [findTradeByRequestId_none.mpr hnew] at found
    cases found
  | rejected fresh read violation rows =>
    obtain ⟨_, _, _, ht⟩ := rows.trade_ok
    obtain ⟨_, _, _, ha⟩ := rows.audit_ok
    exact .of_rows rfl rfl ht.request_id ht.status ha.source_event_id ha.action hnew hun
  | posted fresh compliant rows serial =>
    obtain ⟨_, ht⟩ := rows.trade_ok
    obtain ⟨_, ha⟩ := rows.audit_ok
    exact .of_rows rows.trades (rows.project _ fun _ => rfl) ht.request_id ht.status
      ha.source_event_id ha.action hnew hun

/-! ## What must fit -/

theorem InsertsTrade.fits {db : Db} {i r : UUID} {a : String} {req : TradeRequestDto}
    {st : TradeStatus} {v : Option String} {c : OffsetDateTime} {t : Trade}
    (h : InsertsTrade db i r a req.symbol req.side req.quantity req.price st v c t) :
    req.Fits :=
  ⟨by rw [h.symbol]; rfl, ⟨_, h.quantity, h.quantity_pos⟩, ⟨_, h.price, h.price_pos⟩⟩

theorem PostsAlone.admissible {rules : ComplianceRules} {db : Db} {req : TradeRequestDto}
    {out : PostOutcome} {ws : List Write} {cash : BigDecimal} (h : PostsAlone rules db req out ws)
    (hread : db.getCash req.account_id = some cash)
    (hnew : ∀ t ∈ db.trades, t.request_id ≠ req.request_id) : Admissible rules db req cash := by
  cases h with
  | duplicate found =>
    rw [findTradeByRequestId_none.mpr hnew] at found
    cases found
  | @rejected cash' reason fresh read violation rows =>
    obtain ⟨_, _, _, ht⟩ := rows.trade_ok
    obtain rfl : cash' = cash := Option.some.inj (read.symm.trans hread)
    refine ⟨ht.fits, fun hnone => ?_⟩
    rw [violation] at hnone
    cases hnone
  | @posted v fresh compliant rows serial =>
    obtain ⟨_, ht⟩ := rows.trade_ok
    obtain ⟨_, hd⟩ := rows.debit_ok
    obtain ⟨_, hc⟩ := rows.credit_ok
    obtain ⟨a, b, -, ha, hu⟩ := serial.update
    obtain rfl : v.cash = cash := Option.some.inj (serial.cash.symm.trans hread)
    refine ⟨ht.fits, fun _ => ⟨⟨_, hd.debit, (hd.pair hc).1⟩, ?_⟩⟩
    rw [← ha, hu.cash]
    rfl

/-! ## What fits is posted or rejected -/

theorem insertTrade_fits {db : Db} {i r : UUID} {a : String} {req : TradeRequestDto}
    {st : TradeStatus} {v : Option String} {c : OffsetDateTime} {ac : Varchar 64}
    {re : Option (Varchar 32)} (hac : Varchar.store 64 a = some ac)
    (hacc : ∃ b ∈ db.accounts, b.account_id = ac) (hfits : req.Fits) (hvalid : req.Valid)
    (hv : varchar? 32 "rejection_reason" v = .ok re) (hid : ∀ t ∈ db.trades, t.trade_id ≠ i)
    (hreq : ∀ t ∈ db.trades, t.request_id ≠ r) : ∃ t,
    db.insertTrade i r a req.symbol req.side req.quantity req.price st v c = .ok t := by
  obtain ⟨sy, hsy⟩ := Option.isSome_iff_exists.mp hfits.symbol
  obtain ⟨qu, hqu, hq⟩ := hfits.quantity
  obtain ⟨pr, hpr, hp⟩ := hfits.price
  obtain ⟨si, hsi, hside⟩ : ∃ si : Varchar 4, Varchar.store 4 req.side = some si ∧
      (si.val = "BUY" ∨ si.val = "SELL") := by
    rcases hvalid.side with h | h <;> rw [h]
    · exact ⟨⟨"BUY", by decide⟩, by decide, .inl rfl⟩
    · exact ⟨⟨"SELL", by decide⟩, by decide, .inr rfl⟩
  simp only [Db.insertTrade, except_bind_ok, require_ok, varchar_ok, numeric_ok]
  exact ⟨_, ac, hac, sy, hsy, si, hsi, qu, hqu, pr, hpr, re, hv, (), hside, (), hq, (), hp, (), hid,
    (), hreq, (), hacc, rfl⟩

theorem insertJournalEntry_fits {db : Db} {j r : UUID} {a : String} {c : OffsetDateTime}
    {ac : Varchar 64} (hac : Varchar.store 64 a = some ac)
    (hacc : ∃ b ∈ db.accounts, b.account_id = ac)
    (hid : ∀ e ∈ db.journal_entries, e.journal_entry_id ≠ j)
    (hsource : ∀ e ∈ db.journal_entries, e.source_event_id ≠ r) :
    ∃ e, db.insertJournalEntry j r a c = .ok e := by
  simp only [Db.insertJournalEntry, except_bind_ok, require_ok, varchar_ok]
  exact ⟨_, ac, hac, (), hid, (), hsource, (), hacc, rfl⟩

/-- A line of one positive amount on one side. -/
theorem insertJournalLine_fits {db : Db} {j : UUID} {ref : String} {d c : BigDecimal}
    {re : Varchar 64} {de cr : Money} (href : Varchar.store 64 ref = some re)
    (hd : Numeric.store 20 4 d = some de) (hc : Numeric.store 20 4 c = some cr)
    (hside : (0 < de.units ∧ cr.units = 0) ∨ (0 < cr.units ∧ de.units = 0))
    (hentry : ∃ e ∈ db.journal_entries, e.journal_entry_id = j) :
    ∃ l, db.insertJournalLine j ref d c = .ok l := by
  simp only [Db.insertJournalLine, except_bind_ok, require_ok, varchar_ok, numeric_ok]
  exact ⟨_, re, href, de, hd, cr, hc, (), by omega, (), by omega, (), hside, (), hentry, rfl⟩

theorem updateCash_fits {db : Db} {i : String} {cash delta : BigDecimal}
    (hcash : db.getCash i = some cash) (hbal : (Numeric.store 20 4 (cash + delta)).isSome = true)
    (hnonneg : 0 ≤ cash + delta) : ∃ b, db.updateCash i delta = .ok (some b) := by
  obtain ⟨a, ha, rfl⟩ := Option.map_eq_some_iff.mp hcash
  obtain ⟨m, hm⟩ := Option.isSome_iff_exists.mp hbal
  have hpos : 0 ≤ m.units := by
    rw [Numeric.store_units hm]
    exact roundHalfAway_nonneg (mul_nonneg hnonneg (by positivity))
  refine ⟨{ a with cash_balance := m }, ?_⟩
  simp only [Db.updateCash, ha, except_bind_ok, require_ok, numeric_ok]
  exact ⟨m, hm, (), hpos, rfl⟩

theorem insertAudit_fits {db : Db} {i r : UUID} {a : String} {n : AuditAction} {o : AuditOutcome}
    {v : Option String} {c : OffsetDateTime} {ac : Varchar 64} {re : Option (Varchar 64)}
    (hac : Varchar.store 64 a = some ac) (hv : varchar? 64 "reason" v = .ok re)
    (hid : ∀ b ∈ db.audit_log, b.audit_id ≠ i) : ∃ row, db.insertAudit i a r n o v c = .ok row := by
  simp only [Db.insertAudit, except_bind_ok, require_ok, varchar_ok]
  exact ⟨_, ac, hac, re, hv, (), hid, rfl⟩

theorem insertOutbox_fits {db : Db} {i : UUID} {t : String} {p : LedgerUpdatedEnvelope}
    {c : OffsetDateTime} {ty : Varchar 64} (ht : Varchar.store 64 t = some ty)
    (hid : ∀ o ∈ db.outbox_events, o.event_id ≠ i) : ∃ o, db.insertOutbox i t p c = .ok o := by
  simp only [Db.insertOutbox, except_bind_ok, require_ok, varchar_ok]
  exact ⟨_, ty, ht, (), hid, rfl⟩

/-- The id of an account that exists is stored as the account has it. -/
theorem account_of_getCash {db : Db} {i : String} {cash : BigDecimal}
    (htext : ∀ a ∈ db.accounts, '\x00' ∉ a.account_id.val.toList)
    (h : db.getCash i = some cash) :
    ∃ ac, Varchar.store 64 i = some ac ∧ ∃ b ∈ db.accounts, b.account_id = ac := by
  have hlen := length_of_getCash h
  obtain ⟨a, ha, -⟩ := Option.map_eq_some_iff.mp h
  have hmem := List.mem_of_find?_eq_some ha
  have hid : a.account_id.val = i := by simpa using List.find?_some ha
  have hnul := htext a hmem
  rw [hid] at hnul
  refine ⟨⟨i, hlen⟩, by simp [Varchar.store, hnul, hlen], a, hmem, ?_⟩
  cases hv : a.account_id
  rw [hv] at hid
  cases hid
  rfl

theorem reason_fits {rules : ComplianceRules} {c p : BigDecimal} {reason : String}
    (h : rules.firstViolation c p = some reason) :
    (∃ v, varchar? 32 "rejection_reason" (some reason) = .ok v) ∧
      ∃ v, varchar? 64 "reason" (some reason) = .ok v := by
  have hor : reason = NEGATIVE_CASH ∨ reason = MAX_POSITION_EXCEEDED := by
    rcases firstViolation_cases rules c p with
      ⟨-, hv⟩ | ⟨-, -, hv⟩ | ⟨-, -, hv⟩
    · exact .inl (Option.some.inj (h.symm.trans hv))
    · exact .inr (Option.some.inj (h.symm.trans hv))
    · rw [h] at hv
      cases hv
  have hnul : '\x00' ∉ reason.toList := by rcases hor with rfl | rfl <;> decide
  have hlen := firstViolation_length h
  simp [varchar?, varchar, Varchar.store, hnul, hlen, show reason.length ≤ 64 by omega, Except.map]

theorem serve_succeeds {rules : ComplianceRules} {db : Db} {c : Call} {w : Nat → Ambient}
    (h : engine.Succeeds (service rules c) w db) : ∃ r db', serve rules db ⟨c, w⟩ = (.ok r, db') := by
  obtain ⟨r, db', h⟩ := h
  exact ⟨r, db', by simp [serve, Engine.serve, h]⟩

/-- What a call that is served alone meets in the database. -/
structure Serves (db : Db) (req : TradeRequestDto) (cash : BigDecimal) (w : Nat → Ambient) :
    Prop where
  valid : req.Valid
  text : ∀ a ∈ db.accounts, '\x00' ∉ a.account_id.val.toList
  read : db.getCash req.account_id = some cash
  fresh : ∀ t ∈ db.trades, t.request_id ≠ req.request_id
  unbooked : ∀ e ∈ db.journal_entries, e.source_event_id ≠ req.request_id
  ids : ∀ k, NewId db (w k).uuid

theorem correlationIdOr_succeeds {α : Type} {mdc : Option String} {f : String → Tx α}
    {w : Nat → Ambient} {db : Db}
    (h : ∀ c (w' : Nat → Ambient), (∀ n, ∃ k, w' n = w k) → engine.Succeeds (f c) w' db) :
    engine.Succeeds (correlationIdOr mdc >>= f) w db := by
  have drawn : engine.Succeeds ((UUID.toString <$> randomUUID) >>= f) w db := by
    rw [map_bind]
    exact succeeds_perform rfl (h _ _ fun n => ⟨n + 1, rfl⟩)
  unfold correlationIdOr
  split
  · split
    · exact drawn
    · exact h _ w fun n => ⟨n, rfl⟩
  · exact drawn

section Success

variable {rules : ComplianceRules} {db : Db} {mdc : Option String} {req : TradeRequestDto}
  {w : Nat → Ambient} {cash : BigDecimal}

theorem inserted_eq {α : Type} {row : α → Write} {x : Except LedgerError α} {a : α}
    (h : x = .ok a) : inserted row x = .ok ((), some (row a)) := inserted_ok.mpr ⟨a, h, rfl⟩

theorem getCash_of_accounts {db db' : Db} (h : db'.accounts = db.accounts) (i : String) :
    db'.getCash i = db.getCash i := by rw [Db.getCash, h, Db.getCash]

theorem store_zero : Numeric.store 20 4 (0 : ℚ) = some ⟨0, by decide⟩ := by
  have h : roundHalfAway (0 : ℚ) = 0 := roundHalfAway_intCast 0
  simp [Numeric.store, h]

/-- Both lines name the account or `securities`. -/
theorem TradeRequestDto.refs_fit {ac : Varchar 64} (hac : Varchar.store 64 req.account_id = some ac) :
    ∃ rx ry, Varchar.store 64 req.debited = some rx ∧ Varchar.store 64 req.credited = some ry := by
  have hsec : Varchar.store 64 "securities" = some ⟨"securities", by decide⟩ := by decide
  unfold TradeRequestDto.debited TradeRequestDto.credited
  cases req.isBuy with
  | true => exact ⟨_, ac, hsec, hac⟩
  | false => exact ⟨ac, _, hac, hsec⟩

theorem lines_succeed {j : UUID} {x y : String} {rx ry : Varchar 64} {am : Money}
    {f : Unit → Tx PostOutcome} (hx : Varchar.store 64 x = some rx)
    (hy : Varchar.store 64 y = some ry) (ham : Numeric.store 20 4 req.amount = some am)
    (hpos : 0 < am.units) (hentry : ∃ e ∈ db.journal_entries, e.journal_entry_id = j)
    (hrest : ∀ l₁ l₂, engine.Succeeds (f ()) (fun n => w (n + 2))
      (engine.applyAll db [.journalLine l₁, .journalLine l₂])) :
    engine.Succeeds (insertJournalLine j x req.amount 0 >>= fun _ =>
      insertJournalLine j y 0 req.amount >>= f) w db := by
  obtain ⟨l₁, hl₁⟩ := insertJournalLine_fits hx ham store_zero
    (.inl ⟨hpos, rfl⟩) hentry
  refine succeeds_perform (inserted_eq hl₁) ?_
  have hentry' : ∃ e ∈ (engine.applyAll db [.journalLine l₁]).journal_entries,
      e.journal_entry_id = j := by simpa [Write.journalEntry?] using hentry
  obtain ⟨l₂, hl₂⟩ := insertJournalLine_fits hy store_zero ham
    (.inr ⟨hpos, rfl⟩) hentry'
  exact succeeds_perform (inserted_eq hl₂) (hrest l₁ l₂)

theorem settle_succeeds {j : UUID} {position : BigDecimal} {now : OffsetDateTime}
    {ac : Varchar 64} (hac : Varchar.store 64 req.account_id = some ac)
    (hread : db.getCash req.account_id = some cash)
    (hbal : (Numeric.store 20 4 (cash + req.cashDelta)).isSome = true)
    (hnonneg : 0 ≤ cash + req.cashDelta)
    (haudit : ∀ k, ∀ a ∈ db.audit_log, a.audit_id ≠ (w k).uuid)
    (houtbox : ∀ k, ∀ o ∈ db.outbox_events, o.event_id ≠ (w k).uuid) :
    engine.Succeeds (settle mdc req j position now) w db := by
  unfold settle
  obtain ⟨b, hb⟩ := updateCash_fits hread hbal hnonneg
  have hupdate : engine.exec (.updateCash req.account_id req.cashDelta) (w 0) db =
      .ok ((), some (.account b)) := by simp [engine, exec, hb, Except.map]
  refine succeeds_perform hupdate ?_
  refine succeeds_perform (read_eq rfl) ?_
  obtain ⟨a, ha⟩ : ∃ a, (engine.applyAll db [.account b]).insertAudit (w 1).uuid req.account_id
      req.request_id .POST_TRADE .accepted none now = .ok a :=
    insertAudit_fits hac rfl (by simpa [Write.audit?] using haudit 1)
  refine succeeds_perform (inserted_eq ha) ?_
  refine succeeds_perform (read_eq rfl) ?_
  simp only [buildLedgerUpdatedEnvelope, bind_assoc, pure_eq, ret_bind]
  refine correlationIdOr_succeeds fun c w' _ => ?_
  refine succeeds_perform (read_eq rfl) ?_
  have htype : Varchar.store 64 "LedgerUpdated" = some ⟨"LedgerUpdated", by decide⟩ := by decide
  obtain ⟨o, ho⟩ : ∃ o, (engine.applyAll (engine.applyAll db [.account b]) [.audit a]).insertOutbox
      (w 3).uuid "LedgerUpdated"
      { event_id := (w' 0).uuid, event_type := "LedgerUpdated", schema_version := "1"
        correlation_id := c, produced_at := now, producer := "ledger-core"
        data :=
          { journal_entry_id := j, source_event_id := req.request_id
            account_id := req.account_id, symbol := req.symbol, side := req.side
            quantity := req.quantity, price := req.price, cash_delta := req.cashDelta
            position_after := position + req.signedQty, posted_at := now } } now = .ok o :=
    insertOutbox_fits htype (by simpa [Write.outbox?] using houtbox 3)
  exact succeeds_perform (inserted_eq ho) (succeeds_ret _ _ _)

theorem postTrade_succeeds (hs : Serves db req cash w) (hadm : Admissible rules db req cash) :
    engine.Succeeds (postTrade rules mdc req) w db := by
  obtain ⟨ac, hac, hacc⟩ := account_of_getCash hs.text hs.read
  have hfind := findTradeByRequestId_none.mpr hs.fresh
  rw [postTrade_eq]
  refine succeeds_perform (read_eq hfind) ?_
  refine succeeds_perform (read_eq rfl) ?_
  refine succeeds_perform (read_eq hs.read) ?_
  refine succeeds_perform (read_eq rfl) ?_
  change engine.Succeeds
    (comply rules mdc req cash (db.netPosition req.account_id req.symbol) (w 1).clock) _ db
  cases hv : rules.firstViolation (cash + req.cashDelta)
    (db.netPosition req.account_id req.symbol + req.signedQty) with
  | some reason =>
    obtain ⟨⟨re, hre⟩, re', hre'⟩ := reason_fits hv
    rw [comply_some hv]
    refine succeeds_perform rfl ?_
    obtain ⟨t, ht⟩ : ∃ t, db.insertTrade (w 4).uuid req.request_id req.account_id req.symbol
        req.side req.quantity req.price .rejected (some reason) (w 1).clock = .ok t :=
      insertTrade_fits hac hacc hadm.fits hs.valid hre (hs.ids 4).trade hs.fresh
    refine succeeds_perform (inserted_eq ht) ?_
    refine succeeds_perform rfl ?_
    obtain ⟨a, ha⟩ : ∃ a, (engine.applyAll db [.trade t]).insertAudit (w 6).uuid req.account_id
        req.request_id .POST_TRADE .rejected (some reason) (w 1).clock = .ok a :=
      insertAudit_fits hac hre' (by simpa [Write.audit?] using (hs.ids 6).audit)
    exact succeeds_perform (inserted_eq ha) (succeeds_ret _ _ _)
  | none =>
    obtain ⟨⟨am, ham, hpos⟩, hbal⟩ := hadm.bookable hv
    have hnonneg := (firstViolation_none.mp hv).1
    rw [comply_none hv]
    refine succeeds_perform (read_eq rfl) ?_
    refine succeeds_perform (read_eq rfl) ?_
    obtain ⟨t, ht⟩ : ∃ t, db.insertTrade (w 4).uuid req.request_id req.account_id req.symbol
        req.side req.quantity req.price .posted none (w 1).clock = .ok t :=
      insertTrade_fits hac hacc hadm.fits hs.valid rfl (hs.ids 4).trade hs.fresh
    refine succeeds_perform (inserted_eq ht) ?_
    obtain ⟨e, he⟩ : ∃ e, (engine.applyAll db [.trade t]).insertJournalEntry (w 5).uuid
        req.request_id req.account_id (w 1).clock = .ok e :=
      insertJournalEntry_fits hac hacc (by simpa [Write.journalEntry?] using (hs.ids 5).entry)
        (by simpa [Write.journalEntry?] using hs.unbooked)
    refine succeeds_perform (inserted_eq he) ?_
    have hid := (insertJournalEntry_ok he).journal_entry_id
    have hentry : ∃ f ∈ (engine.applyAll (engine.applyAll db [.trade t])
        [.journalEntry e]).journal_entries, f.journal_entry_id = (w 5).uuid :=
      ⟨e, by simp [Write.journalEntry?], hid⟩
    have settled : ∀ l₁ l₂, engine.Succeeds
        (settle mdc req (w 5).uuid (db.netPosition req.account_id req.symbol) (w 1).clock)
        (fun n => w (n + 10))
        (engine.applyAll (engine.applyAll (engine.applyAll db [.trade t]) [.journalEntry e])
          [.journalLine l₁, .journalLine l₂]) := by
      intro l₁ l₂
      refine settle_succeeds hac ((getCash_of_accounts ?_ _).trans hs.read) hbal hnonneg ?_ ?_
      · rfl
      · intro k
        simpa [Write.audit?] using (hs.ids (k + 10)).audit
      · intro k
        simpa [Write.outbox?] using (hs.ids (k + 10)).outbox
    obtain ⟨rx, ry, hx, hy⟩ := req.refs_fit hac
    exact lines_succeed hx hy ham hpos hentry settled

end Success

/-! ## Reachable ledgers -/

theorem Seeded.reachable {rules : ComplianceRules} {G : UUID → Prop} {s : LedgerState}
    (h : Reach (ledgerStep rules) (generatedApart G) (initial Seeded) s) :
    (∀ a ∈ s.db.accounts, 0 ≤ a.cash_balance.toRat) ∧
      ∀ a ∈ s.db.accounts, '\x00' ∉ a.account_id.val.toList := by
  refine ⟨cash_never_negative (fun _ h => h.cash) h, ?_⟩
  have hids := db_invariant
    (I := fun db => ∀ i ∈ db.accounts.map (·.account_id), '\x00' ∉ i.val.toList)
    (fun db hdb => by simpa using hdb.text) (fun s n c es a _ _ _ _ hdb => ?_) h
  · intro a ha
    exact hids _ (List.mem_map_of_mem ha)
  · rwa [account_ids_applyAll]

/-- **Which attempts are decided and audited.** Served alone on any reachable
ledger, a valid new request on an existing account gets its decision on record
if and only if the tables can hold the request and, when it is compliant, the
journal and the account can hold its booking. -/
theorem decided_and_audited_iff {rules : ComplianceRules} {generated : UUID → Prop}
    {s : LedgerState}
    (h : Reach (ledgerStep rules) (generatedApart generated) (initial Seeded) s)
    {mdc : Option String} {req : TradeRequestDto} {w : Nat → Ambient} {cash : BigDecimal}
    (hvalid : req.Valid) (hread : s.db.getCash req.account_id = some cash)
    (hnew : ∀ t ∈ s.db.trades, t.request_id ≠ req.request_id)
    (hasked : ¬ generated req.request_id) (hids : ∀ k, NewId s.db (w k).uuid) :
    DecidedAndAudited rules s.db mdc req w cash ↔ Admissible rules s.db req cash := by
  have hbal := balanced (fun _ h => h.empty) h req.request_id
  obtain ⟨hcash, htext⟩ := Seeded.reachable h
  constructor
  · rintro ⟨out, db', hserve, -, -⟩
    obtain ⟨_, ws, hout, halone, -⟩ := serve_postTrade hserve
    cases hout
    exact halone.admissible hread hnew
  · intro hadm
    have hunbooked := hbal.unbooked hasked hnew
    have hsucceeds : engine.Succeeds (postTrade rules mdc req) w s.db :=
      postTrade_succeeds ⟨hvalid, htext, hread, hnew, hunbooked, hids⟩ hadm
    obtain ⟨r, db', hserve⟩ := serve_succeeds (c := .postTrade mdc req) (hsucceeds.map Reply.trade)
    obtain ⟨out, ws, rfl, halone, rfl⟩ := serve_postTrade hserve
    obtain ⟨a, ha, rfl⟩ := Option.map_eq_some_iff.mp hread
    have hnonneg := hcash a (List.mem_of_find?_eq_some ha)
    exact ⟨out, _, hserve, halone.decided hvalid hread hnonneg hnew, halone.audited hbal hnew⟩

/-- A trade of `quantity` at `price` on the first account. -/
def order (quantity price : BigDecimal) : TradeRequestDto :=
  ⟨uuid 1, "A", "X", "BUY", quantity, price, none⟩

theorem oneAccount_seeded : Seeded (oneAccount thousand) where
  empty := ⟨rfl, rfl, rfl, rfl⟩
  cash := by decide +kernel
  text := by decide +kernel

theorem oneAccount_new (u : UUID) : NewId (oneAccount thousand) u :=
  ⟨by simp [oneAccount], by simp [oneAccount], by simp [oneAccount], by simp [oneAccount]⟩

theorem decided_and_audited_iff_order :
    DecidedAndAudited ⟨100⟩ (oneAccount thousand) none (order 60 1) (supplyFrom 100) 1000 := by
  have hreach : Reach (ledgerStep ⟨100⟩) (generatedApart fromHundred) (initial Seeded)
      ⟨oneAccount thousand, []⟩ := .init ⟨oneAccount_seeded, rfl⟩
  refine (decided_and_audited_iff hreach (by decide +kernel) (by decide +kernel)
    (by simp [oneAccount]) (by decide +kernel) fun k => oneAccount_new _).mpr
    ⟨⟨?_, ?_, ?_⟩, fun _ => ?_⟩
  · decide +kernel
  · exact ⟨⟨600000, by decide⟩, by decide +kernel, by decide⟩
  · exact ⟨⟨10000, by decide⟩, by decide +kernel, by decide⟩
  · exact ⟨⟨⟨600000, by decide⟩, by decide +kernel, by decide⟩, by decide +kernel⟩

/-- A tenth of a share at a hundredth of a cent is valid and affordable, but
its amount is stored as zero, which no journal line can be. -/
theorem tiny_amount_undecided :
    Reach (ledgerStep ⟨100⟩) (generatedApart fromHundred) (initial Seeded)
      ⟨oneAccount thousand, []⟩ ∧
    (order (1 / 10) (1 / 10000)).Valid ∧
    (oneAccount thousand).getCash "A" = some 1000 ∧
    ¬ DecidedAndAudited ⟨100⟩ (oneAccount thousand) none (order (1 / 10) (1 / 10000))
      (supplyFrom 100) 1000 := by
  refine ⟨.init ⟨oneAccount_seeded, rfl⟩, by decide +kernel, by decide +kernel, ?_⟩
  rintro ⟨out, db', hserve, -, -⟩
  have hfails : (serve ⟨100⟩ (oneAccount thousand)
      ⟨.postTrade none (order (1 / 10) (1 / 10000)), supplyFrom 100⟩).1.toOption.isSome = false := by
    decide +kernel
  rw [hserve] at hfails
  cases hfails

end TradePulse.Ledger
