import TradePulse.Ledger.System

/-! # Compliance limits under concurrency

`firstViolation` bounds cash from below and positions on both sides. Cash is
kept by the `UPDATE` itself, which adds to the row it locks and is checked by
the table. The position is read, compared and inserted as separate statements
with nothing to hold it still in between; the limit holds in the runs in which
the position a trade has read is still the committed one when it commits. -/
namespace TradePulse.Ledger
open TradePulse.Core TradePulse.Core.Runs TradePulse.Core.Transactions

/-- What compliance promises of the committed state. -/
structure Limits (rules : ComplianceRules) (db : Db) : Prop where
  cash : ∀ a ∈ db.accounts, 0 ≤ a.cash_balance.toRat
  position : ∀ accountId symbol, |db.netPosition accountId symbol| ≤ rules.maxPosition

/-- A trade commits as posted only while the position it has read is still the
net position of its account and symbol. -/
def currentPosition (s : LedgerState) : LedgerAct → Prop
  | .commit n => ∀ t ∈ s.txns[n]?, ∀ tr ∈ postedTrades t.trace,
      positionRead t.trace = some (s.db.netPosition tr.account_id.val tr.symbol.val)
  | _ => True

instance (s : LedgerState) (a : LedgerAct) : Decidable (currentPosition s a) := by
  unfold currentPosition
  split <;> infer_instance

theorem cash_nonneg_applyAll {db : Db} {ws : List Write}
    (hdb : ∀ a ∈ db.accounts, 0 ≤ a.cash_balance.toRat)
    (hws : ∀ a, .account a ∈ ws → 0 ≤ a.cash_balance.units) :
    ∀ a ∈ (engine.applyAll db ws).accounts, 0 ≤ a.cash_balance.toRat := by
  intro a ha
  obtain ha | ha := mem_accounts_applyAll ha
  · exact hdb a ha
  · exact Numeric.toRat_nonneg.mpr (hws a ha)

/-- The updated balance of a finished transaction has passed its `CHECK`. -/
theorem Finished.cash_nonneg {rules : ComplianceRules} {c : Call} {es : List LedgerEvent}
    {a : Reply} (h : Finished rules c es a) :
    ∀ b, .account b ∈ writesOf es → 0 ≤ b.cash_balance.units := by
  intro b hb
  cases h with
  | duplicate writes => rw [writes] at hb; cases hb
  | rejected violation rows writes =>
    rw [writes] at hb
    simp [RejectedRows.writes] at hb
  | posted trace rows writes read compliant =>
    rw [writes] at hb
    obtain ⟨_, _, hu⟩ := rows.account_ok b (by simpa [PostedRows.writes] using hb)
    exact hu.cash_nonneg
  | credited trace drawn rows writes =>
    rw [writes] at hb
    obtain ⟨_, _, hu⟩ := rows.account_ok b (by simpa [CreditRows.writes] using hb)
    exact hu.cash_nonneg

/-- **Cash never goes negative**, in any run at all. -/
theorem cash_never_negative {rules : ComplianceRules} {P : Db → Prop}
    {ok : LedgerState → LedgerAct → Prop} (hP : ∀ db, P db → ∀ a ∈ db.accounts,
      0 ≤ a.cash_balance.toRat) {s : LedgerState}
    (h : Reach (ledgerStep rules) ok (initial P) s) :
    ∀ a ∈ s.db.accounts, 0 ≤ a.cash_balance.toRat :=
  db_invariant (I := fun db => ∀ a ∈ db.accounts, 0 ≤ a.cash_balance.toRat) hP
    (fun _ _ _ _ _ _ _ hf _ hdb => cash_nonneg_applyAll hdb (finished hf).cash_nonneg) h

/-- A transaction adds to a net position the trade it has posted, if any. -/
theorem Finished.position {rules : ComplianceRules} {c : Call} {es : List LedgerEvent}
    {r : Reply} (h : Finished rules c es r) (hq : c.ExactQuantity) (db : Db) (a y : String) :
    (engine.applyAll db (writesOf es)).netPosition a y = db.netPosition a y ∨
      ∃ t ∈ postedTrades es, ∃ p, t.account_id.val = a ∧ t.symbol.val = y ∧
        positionRead es = some p ∧ |p + t.signedQuantity| ≤ rules.maxPosition ∧
        (engine.applyAll db (writesOf es)).netPosition a y =
          db.netPosition a y + t.signedQuantity := by
  cases h with
  | duplicate writes => exact .inl (by simp [writes])
  | rejected violation rows writes =>
    obtain ⟨_, _, _, ht⟩ := rows.trade_ok
    exact .inl (by simp [writes, Trade.isPosted, ht.status])
  | @posted mdc req es v trace rows writes read compliant =>
    obtain ⟨_, ht⟩ := rows.trade_ok
    by_cases hpair : rows.trade.account_id.val = a ∧ rows.trade.symbol.val = y
    · refine .inr ⟨rows.trade, by simp [postedTrades, writes, ht.status], v.position, hpair.1,
        hpair.2, read, ?_, ?_⟩
      · have hsq : rows.trade.signedQuantity = req.signedQty := by
          rw [ht.signedQuantity hq]
          simp [TradeRequestDto.signedQty, TradeRequestDto.isBuy]
        rw [hsq]
        exact (firstViolation_none.mp compliant).2
      · simp [writes, Trade.isPosted, hpair, ht.status]
    · refine .inl ?_
      have hno : rows.trade.isPosted a y = false := by
        by_contra hp
        simp only [Trade.isPosted, Bool.and_eq_true, decide_eq_true_eq, Bool.not_eq_false] at hp
        exact hpair hp.1
      simp [writes, hno]
  | credited trace drawn rows writes =>
    exact .inl (by simp [writes])

/-- One commit under the condition keeps the limits. -/
theorem Limits.commit {rules : ComplianceRules} {c : Call} {es : List LedgerEvent} {r : Reply}
    {db : Db} (hdb : Limits rules db) (h : Finished rules c es r) (hq : c.ExactQuantity)
    (hcur : ∀ t ∈ postedTrades es,
      positionRead es = some (db.netPosition t.account_id.val t.symbol.val)) :
    Limits rules (engine.applyAll db (writesOf es)) := by
  refine ⟨cash_nonneg_applyAll hdb.cash h.cash_nonneg, fun a y => ?_⟩
  obtain hsame | ⟨t, ht, p, rfl, rfl, hread, hlim, hnew⟩ := h.position hq db a y
  · rw [hsame]
    exact hdb.position a y
  · have hp : p = db.netPosition t.account_id.val t.symbol.val := by
      have := hcur t ht
      rw [hread] at this
      exact Option.some.inj this
    rw [hnew, ← hp]
    exact hlim

/-- **Limits hold while positions are current.** In every run whose posted
trades commit on the position they have read, every committed state is within
the limits, whatever else interleaves, fails or stops. -/
theorem limits_hold {rules : ComplianceRules} {s : LedgerState}
    (h : Reach (ledgerStep rules) (fun s a => exactQuantities s a ∧ currentPosition s a)
      (initial (Limits rules)) s) : Limits rules s.db := by
  refine db_invariant (fun _ h => h) (fun s n c es a hs get hf hok hdb => ?_) h
  have hq : c.ExactQuantity := calls (fun _ _ h => h.1) hs _ (List.mem_of_getElem? get)
  exact hdb.commit (finished hf) hq (hok.2 _ get)

theorem oneAccount_limits : Limits ⟨100⟩ (oneAccount thousand) :=
  ⟨by decide +kernel, fun a y => by simp [Db.netPosition, oneAccount]⟩

/-- One accepted trade, start to commit. -/
def oneBuy : List LedgerAct := [.begin (buy 1 60 1)] ++ stmts 0 16 100 0 ++ [.commit 0]

theorem limits_hold_oneBuy : ∃ s : LedgerState, s.db.netPosition "A" "X" = 60 ∧
    Limits ⟨100⟩ s.db := by
  obtain ⟨s, hs, hp⟩ := Reach.exists_of_run (ledgerStep ⟨100⟩)
    (fun s a => exactQuantities s a ∧ currentPosition s a) (initial (Limits ⟨100⟩))
    oneBuy (fun s => s.db.netPosition "A" "X" = 60) (s := ⟨oneAccount thousand, []⟩)
    ⟨oneAccount_limits, rfl⟩ (by decide +kernel)
  exact ⟨s, by simpa using hp, limits_hold hs⟩

/-- Two trades that both read the position before either commits. -/
def twoBuys : List LedgerAct :=
  [.begin (buy 1 60 1), .begin (buy 2 60 1)] ++ stmts 0 4 100 0 ++ stmts 1 4 200 0 ++
    stmts 0 12 104 0 ++ [.commit 0] ++ stmts 1 12 204 0 ++ [.commit 1]

/-- Under READ COMMITTED two trades can take a position over its limit together. -/
theorem limits_can_be_exceeded : ∃ s : LedgerState,
    Reach (ledgerStep ⟨100⟩) exactQuantities (initial (Limits ⟨100⟩)) s ∧
      ¬ Limits ⟨100⟩ s.db := by
  obtain ⟨s, hs, hp⟩ := Reach.exists_of_run (ledgerStep ⟨100⟩) exactQuantities
    (initial (Limits ⟨100⟩)) twoBuys (fun s => s.db.netPosition "A" "X" = 120)
    (s := ⟨oneAccount thousand, []⟩) ⟨oneAccount_limits, rfl⟩ (by decide +kernel)
  refine ⟨s, hs, fun h => ?_⟩
  have hlim := h.position "A" "X"
  rw [of_decide_eq_true hp] at hlim
  exact absurd hlim (by decide +kernel)

end TradePulse.Ledger
