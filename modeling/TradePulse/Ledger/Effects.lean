import TradePulse.Ledger.Traces

/-! # Effects of a list of writes, table by table

A commit applies a list of writes. Each table depends only on the writes of
its own kind, in order, so a proof about one table names one projection. The
second part relates the columns of a stored trade to the request. -/
namespace TradePulse.Ledger
open TradePulse.Core TradePulse.Core.Transactions

namespace Write

def trade? : Write → Option Trade
  | .trade t => some t
  | _ => none

def journalEntry? : Write → Option JournalEntry
  | .journalEntry e => some e
  | _ => none

def journalLine? : Write → Option JournalLine
  | .journalLine l => some l
  | _ => none

def account? : Write → Option Account
  | .account a => some a
  | _ => none

def audit? : Write → Option AuditRow
  | .audit a => some a
  | _ => none

def outbox? : Write → Option (OutboxRow LedgerUpdatedEnvelope)
  | .outbox o => some o
  | _ => none

end Write

/-- A table that every write extends by the rows it projects to. -/
theorem rows_applyAll {α : Type} (rows : Db → List α) (row? : Write → Option α)
    (h : ∀ db w, rows (db.apply w) = rows db ++ (row? w).toList) (db : Db) (ws : List Write) :
    rows (engine.applyAll db ws) = rows db ++ ws.filterMap row? := by
  induction ws generalizing db with
  | nil => simp [Engine.applyAll]
  | cons w ws ih =>
    rw [show engine.applyAll db (w :: ws) = engine.applyAll (db.apply w) ws from rfl, ih, h,
      List.append_assoc]
    cases hw : row? w <;> simp [hw]

@[simp] theorem trades_applyAll (db : Db) (ws : List Write) :
    (engine.applyAll db ws).trades = db.trades ++ ws.filterMap Write.trade? :=
  rows_applyAll _ _ (fun db w => by cases w <;> simp [Db.apply, Write.trade?]) db ws

@[simp] theorem journal_entries_applyAll (db : Db) (ws : List Write) :
    (engine.applyAll db ws).journal_entries =
      db.journal_entries ++ ws.filterMap Write.journalEntry? :=
  rows_applyAll _ _ (fun db w => by cases w <;> simp [Db.apply, Write.journalEntry?]) db ws

@[simp] theorem journal_lines_applyAll (db : Db) (ws : List Write) :
    (engine.applyAll db ws).journal_lines = db.journal_lines ++ ws.filterMap Write.journalLine? :=
  rows_applyAll _ _ (fun db w => by cases w <;> simp [Db.apply, Write.journalLine?]) db ws

@[simp] theorem audit_log_applyAll (db : Db) (ws : List Write) :
    (engine.applyAll db ws).audit_log = db.audit_log ++ ws.filterMap Write.audit? :=
  rows_applyAll _ _ (fun db w => by cases w <;> simp [Db.apply, Write.audit?]) db ws

@[simp] theorem outbox_events_applyAll (db : Db) (ws : List Write) :
    (engine.applyAll db ws).outbox_events = db.outbox_events ++ ws.filterMap Write.outbox? :=
  rows_applyAll _ _ (fun db w => by cases w <;> simp [Db.apply, Write.outbox?]) db ws

@[simp] theorem accounts_applyAll (db : Db) (ws : List Write) :
    (engine.applyAll db ws).accounts =
      (ws.filterMap Write.account?).foldl (fun rows a => updateRow a rows) db.accounts := by
  induction ws generalizing db with
  | nil => rfl
  | cons w ws ih =>
    rw [show engine.applyAll db (w :: ws) = engine.applyAll (db.apply w) ws from rfl, ih]
    cases w <;> simp [Db.apply, Write.account?, List.filterMap_cons]

/-- Accounts are updated, never added or removed. -/
theorem account_ids_applyAll (db : Db) (ws : List Write) :
    (engine.applyAll db ws).accounts.map (·.account_id) = db.accounts.map (·.account_id) := by
  rw [accounts_applyAll]
  generalize ws.filterMap Write.account? = as
  induction as generalizing db with
  | nil => rfl
  | cons a as ih =>
    rw [List.foldl_cons]
    exact (ih (db.apply (.account a))).trans (updateRow_ids a db.accounts)

theorem mem_updateRow {a b : Account} {rows : List Account} (h : b ∈ updateRow a rows) :
    b = a ∨ b ∈ rows := by
  obtain ⟨c, hc, rfl⟩ := List.mem_map.mp h
  by_cases hid : c.account_id = a.account_id
  · exact .inl (if_pos hid)
  · exact .inr (by rw [if_neg hid]; exact hc)

/-- A row of the accounts table after a commit was there before or was written. -/
theorem mem_accounts_applyAll {db : Db} {ws : List Write} {b : Account}
    (h : b ∈ (engine.applyAll db ws).accounts) : b ∈ db.accounts ∨ .account b ∈ ws := by
  induction ws generalizing db with
  | nil => exact .inl h
  | cons w ws ih =>
    obtain h | h := @ih (db.apply w) h
    · cases w with
      | account a =>
        obtain rfl | h := mem_updateRow h
        · exact .inr (List.mem_cons_self ..)
        · exact .inl h
      | _ => exact .inl h
    · exact .inr (List.mem_cons_of_mem _ h)

/-! The rows of a finished transaction, seen by a table other than accounts. -/

theorem PostedRows.project {req : TradeRequestDto} {v : Draws} (r : PostedRows req v) {α : Type}
    (row? : Write → Option α) (h : ∀ a, row? (.account a) = none) :
    r.writes.filterMap row? = [.trade r.trade, .journalEntry r.entry, .journalLine r.debit,
      .journalLine r.credit, .audit r.audit, .outbox r.outbox].filterMap row? := by
  cases ho : r.account <;> simp [PostedRows.writes, List.filterMap_cons, ho, h]

theorem CreditRows.project {i : String} {x : BigDecimal} {id : UUID} (r : CreditRows i x id)
    {α : Type} (row? : Write → Option α) (h : ∀ a, row? (.account a) = none) :
    r.writes.filterMap row? = [.journalEntry r.entry, .journalLine r.debit,
      .journalLine r.credit, .audit r.audit].filterMap row? := by
  cases ho : r.account <;> simp [CreditRows.writes, List.filterMap_cons, ho, h]

@[simp] theorem PostedRows.trades {req : TradeRequestDto} {v : Draws} (r : PostedRows req v) :
    r.writes.filterMap Write.trade? = [r.trade] := r.project _ fun _ => rfl

@[simp] theorem RejectedRows.trades {req : TradeRequestDto} {reason : String}
    (r : RejectedRows req reason) : r.writes.filterMap Write.trade? = [r.trade] := rfl

@[simp] theorem CreditRows.trades {i : String} {x : BigDecimal} {id : UUID}
    (r : CreditRows i x id) : r.writes.filterMap Write.trade? = [] := r.project _ fun _ => rfl

/-! ## Positions -/

/-- What a list of trades adds to the net position of an account and symbol. -/
def positionOf (accountId symbol : String) (ts : List Trade) : BigDecimal :=
  ((ts.filter (·.isPosted accountId symbol)).map Trade.signedQuantity).sum

@[simp] theorem positionOf_nil (a y : String) : positionOf a y [] = 0 := rfl

@[simp] theorem positionOf_cons (a y : String) (t : Trade) (ts : List Trade) :
    positionOf a y (t :: ts) =
      (if t.isPosted a y then t.signedQuantity else 0) + positionOf a y ts := by
  by_cases h : t.isPosted a y <;> simp [positionOf, h]

@[simp] theorem netPosition_applyAll (db : Db) (ws : List Write) (a y : String) :
    (engine.applyAll db ws).netPosition a y =
      db.netPosition a y + positionOf a y (ws.filterMap Write.trade?) := by
  simp [Db.netPosition, positionOf]

/-! ## A stored trade and its request -/

/-- The id of an account that exists fits its column. -/
theorem length_of_getCash {db : Db} {i : String} {c : BigDecimal} (h : db.getCash i = some c) :
    i.length ≤ 64 := by
  obtain ⟨a, ha, -⟩ := Option.map_eq_some_iff.mp h
  have hid : a.account_id.val = i := by simpa using List.find?_some ha
  exact hid ▸ a.account_id.fits

/-- A trade is posted on an account that exists, so its row names it in full. -/
theorem PostedRows.account_id {rules : ComplianceRules} {c : Call} {es : List LedgerEvent}
    {r : Reply} {st : Status} (hf : Faithful engine (service rules) ⟨c, es, .ret r, st⟩)
    {req : TradeRequestDto} {v : Draws} (trace : PostedTrace req v es) (rows : PostedRows req v) :
    rows.trade.account_id.val = req.account_id := by
  obtain ⟨_, ht⟩ := rows.trade_ok
  have hread : ∃ n, (⟨.getCash req.account_id, some v.cash, n⟩ : LedgerEvent) ∈ es := by
    cases trace
    exact ⟨_, List.mem_append_left _ (List.mem_append_left _ (.tail _ (.tail _ (.head _))))⟩
  obtain ⟨n, hmem⟩ := hread
  obtain ⟨_, db, hexec⟩ := hf.exec _ hmem
  have hcash : db.getCash req.account_id = some v.cash := (Prod.mk.inj (Except.ok.inj hexec)).1
  exact Varchar.store_of_length (length_of_getCash hcash) ht.account_id

section Stored

variable {db : Db} {i r : UUID} {a y s : String} {q p : BigDecimal} {st : TradeStatus}
  {v : Option String} {c : OffsetDateTime} {t : Trade}

/-- A stored side is BUY exactly when BUY was asked for: what a `VARCHAR(4)`
cuts down has four characters. -/
theorem InsertsTrade.side_buy (h : InsertsTrade db i r a y s q p st v c t) :
    t.side.val = "BUY" ↔ s = "BUY" := by
  by_cases hs : s.length ≤ 4
  · rw [Varchar.store_of_length hs h.side]
  · have hlen : t.side.val.length = 4 := by
      have hside := h.side
      simp only [Varchar.store, hs, dif_neg, not_false_eq_true] at hside
      split at hside
      · cases hside
      · split at hside
        · have hl : 4 ≤ s.toList.length := by rw [String.length_toList]; omega
          rw [← Option.some.inj hside, String.length_ofList, List.length_take]
          omega
        · cases hside
    constructor
    · intro hb
      rw [hb] at hlen
      exact absurd hlen (by decide)
    · intro hb
      exact absurd (show s.length ≤ 4 by rw [hb]; decide) hs

/-- With at most four decimals the row counts for what the request asks. -/
theorem InsertsTrade.signedQuantity (h : InsertsTrade db i r a y s q p st v c t)
    (hq : Numeric.Exact 4 q) : t.signedQuantity = if "BUY" = s then q else -q := by
  have hstored := (Numeric.store_toRat_eq_iff h.quantity).mpr hq
  by_cases hs : s = "BUY"
  · rw [Trade.signedQuantity, if_pos (h.side_buy.mpr hs), if_pos hs.symm, hstored]
  · rw [Trade.signedQuantity, if_neg (mt h.side_buy.mp hs), if_neg (Ne.symm hs), hstored]

end Stored

/-! ## The idempotency lookup -/

/-- The first trade of the request, with the first entry of its source. -/
theorem findTradeByRequestId_eq (db : Db) (r : UUID) :
    db.findTradeByRequestId r = (db.trades.find? (·.request_id = r)).map fun t =>
      tradeResultMapper t (db.journal_entries.find? (·.source_event_id = r)) := by
  unfold Db.findTradeByRequestId Db.tradesWithEntries
  induction db.trades with
  | nil => rfl
  | cons t ts ih =>
    rw [List.flatMap_cons, List.find?_append, ih]
    by_cases hr : t.request_id = r
    · subst hr
      rw [List.find?_cons_of_pos (by simp)]
      cases hes : db.journal_entries.filter (·.source_event_id = t.request_id) with
      | nil =>
        have hnone : db.journal_entries.find? (·.source_event_id = t.request_id) = none := by
          rw [← List.head?_filter, hes]
          rfl
        simp [hnone, tradeResultMapper]
      | cons e es =>
        have hsome : db.journal_entries.find? (·.source_event_id = t.request_id) = some e := by
          rw [← List.head?_filter, hes]
          rfl
        simp [hsome, tradeResultMapper]
    · rw [List.find?_cons_of_neg (by simpa using hr)]
      have hno : ∀ je, (tradeResultMapper t je).request_id ≠ r := fun _ => hr
      split
      · simp [hno]
      · rw [List.find?_eq_none.mpr, Option.none_or]
        intro x hx
        obtain ⟨je, -, rfl⟩ := List.mem_map.mp hx
        simpa using hno (some je)

theorem findTradeByRequestId_none {db : Db} {r : UUID} :
    db.findTradeByRequestId r = none ↔ ∀ t ∈ db.trades, t.request_id ≠ r := by
  simp [findTradeByRequestId_eq]

end TradePulse.Ledger
