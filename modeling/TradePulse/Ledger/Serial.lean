import TradePulse.Ledger.System
import TradePulse.Core.Solo

/-! # Serial runs of the ledger

Without a concurrent transaction every statement of a call sees the committed
state the call began on, extended by the call's own rows: the cash and the
position read are the committed ones, and the `UPDATE` adds to the cash read. -/
namespace TradePulse.Ledger
open TradePulse.Core TradePulse.Core.Prog TradePulse.Core.Runs TradePulse.Core.Transactions

/-- On an existing account the statement writes the updated row. -/
theorem updateCash_found {db : Db} {i : String} {delta cash : BigDecimal} {n : Option Write}
    (hcash : db.getCash i = some cash)
    (h : (db.updateCash i delta).map (fun o => ((), o.map Write.account)) = .ok ((), n)) :
    ∃ a b, n = some (.account b) ∧ a.cash_balance.toRat = cash ∧ UpdatesCash db i delta a b := by
  obtain ⟨a, ha, rfl⟩ := Option.map_eq_some_iff.mp hcash
  cases ho : db.updateCash i delta with
  | error e => simp [ho, Except.map] at h
  | ok o =>
    simp only [ho, Except.map, Except.ok.injEq, Prod.mk.injEq, true_and] at h
    obtain ⟨-, hnone⟩ | ⟨a', b, rfl, hu⟩ := updateCash_ok ho
    · rw [ha] at hnone
      cases hnone
    · refine ⟨a', b, h.symm, ?_, hu⟩
      rw [hu.find] at ha
      rw [Option.some.inj ha]

/-- What an accepted trade has read and updated when nothing ran beside it. -/
structure SerialPosting (db : Db) (req : TradeRequestDto) (v : Draws) (ws : List Write) :
    Prop where
  cash : db.getCash req.account_id = some v.cash
  position : db.netPosition req.account_id req.symbol = v.position
  update : ∃ a b, ws.filterMap Write.account? = [b] ∧ a.cash_balance.toRat = v.cash ∧
    UpdatesCash db req.account_id req.cashDelta a b

theorem PostedTrace.replayed {req : TradeRequestDto} {v : Draws} {es : List LedgerEvent}
    (h : PostedTrace req v es) {db : Db} (hr : Replay engine db es)
    (rows : PostedRows req v) (hw : writesOf es = rows.writes) :
    SerialPosting db req v (writesOf es) := by
  have hacc : (writesOf es).filterMap Write.account? = rows.account.toList := by
    rw [hw]
    cases ho : rows.account <;>
      simp [PostedRows.writes, List.filterMap_cons, Write.account?, ho]
  cases h with
  | @mk n₁ n₂ n₃ n₄ n₅ n₆ n₇ n₈ n₉ n₁₀ n₁₁ n₁₂ n₁₃ n₁₄ n₁₅ n₁₆ corr hcorr =>
    rw [replay_append, replay_append] at hr
    obtain ⟨⟨⟨⟨_, h₁⟩, ⟨_, h₂⟩, ⟨_, h₃⟩, ⟨_, h₄⟩, ⟨_, h₅⟩, ⟨_, h₆⟩, ⟨_, h₇⟩, ⟨_, h₈⟩, ⟨_, h₉⟩,
      ⟨_, h₁₀⟩, ⟨_, h₁₁⟩, -⟩, -⟩, -⟩ := hr
    have e₁ : n₁ = none := Answered.silent ⟨_, _, h₁⟩ rfl
    have e₂ : n₂ = none := Answered.silent ⟨_, _, h₂⟩ rfl
    have e₃ : n₃ = none := Answered.silent ⟨_, _, h₃⟩ rfl
    have e₄ : n₄ = none := Answered.silent ⟨_, _, h₄⟩ rfl
    have e₅ : n₅ = none := Answered.silent ⟨_, _, h₅⟩ rfl
    have e₆ : n₆ = none := Answered.silent ⟨_, _, h₆⟩ rfl
    subst e₁ e₂ e₃ e₄ e₅ e₆
    obtain ⟨t, rfl, -⟩ := Answered.insertTrade ⟨_, _, h₇⟩
    obtain ⟨e, rfl, -⟩ := Answered.insertJournalEntry ⟨_, _, h₈⟩
    obtain ⟨l₁, rfl, -⟩ := Answered.insertJournalLine ⟨_, _, h₉⟩
    obtain ⟨l₂, rfl, -⟩ := Answered.insertJournalLine ⟨_, _, h₁₀⟩
    have hcash : db.getCash req.account_id = some v.cash := (Prod.mk.inj (Except.ok.inj h₃)).1
    have hpos : db.netPosition req.account_id req.symbol = v.position :=
      (Prod.mk.inj (Except.ok.inj h₄)).1
    obtain ⟨a, b, rfl, ha, hu⟩ := updateCash_found hcash h₁₁
    refine ⟨hcash, hpos, a, b, ?_, ha, hu.find, hu.account_id, hu.cash, hu.cash_nonneg⟩
    have hmem : b ∈ (rows.account.toList : List Account) := by
      rw [← hacc]
      simp [writesOf, List.filterMap_cons, Write.account?]
    rw [hacc]
    cases ho : rows.account with
    | none => rw [ho] at hmem; cases hmem
    | some b' =>
      rw [ho] at hmem
      rw [List.mem_singleton.mp hmem]
      rfl

theorem CreditTrace.replayed {i : String} {x : BigDecimal} {v : Option String}
    {es : List LedgerEvent} {out : AdminCreditResult} (h : CreditTrace i x v es out) {db : Db}
    (hr : Replay engine db es) :
    ∃ a b, (writesOf es).filterMap Write.account? = [b] ∧ UpdatesCash db i x a b := by
  cases h with
  | @credited now cash sourceEventId j k n₁ n₂ n₃ n₄ n₅ n₆ n₇ n₈ n₉ n₁₀ positive =>
    obtain ⟨⟨_, h₁⟩, ⟨_, h₂⟩, ⟨_, h₃⟩, ⟨_, h₄⟩, ⟨_, h₅⟩, ⟨_, h₆⟩, ⟨_, h₇⟩, ⟨_, h₈⟩, ⟨_, h₉⟩,
      ⟨_, h₁₀⟩, -⟩ := hr
    have e₁ : n₁ = none := Answered.silent ⟨_, _, h₁⟩ rfl
    have e₂ : n₂ = none := Answered.silent ⟨_, _, h₂⟩ rfl
    have e₃ : n₃ = none := Answered.silent ⟨_, _, h₃⟩ rfl
    have e₄ : n₄ = none := Answered.silent ⟨_, _, h₄⟩ rfl
    have e₉ : n₉ = none := Answered.silent ⟨_, _, h₉⟩ rfl
    subst e₁ e₂ e₃ e₄ e₉
    obtain ⟨e, rfl, -⟩ := Answered.insertJournalEntry ⟨_, _, h₅⟩
    obtain ⟨l₁, rfl, -⟩ := Answered.insertJournalLine ⟨_, _, h₆⟩
    obtain ⟨l₂, rfl, -⟩ := Answered.insertJournalLine ⟨_, _, h₇⟩
    obtain ⟨r, rfl, -⟩ := Answered.insertAudit ⟨_, _, h₁₀⟩
    have hcash : db.getCash i = some cash := (Prod.mk.inj (Except.ok.inj h₁)).1
    obtain ⟨a, b, rfl, -, hu⟩ := updateCash_found hcash h₈
    exact ⟨a, b, by simp [writesOf, List.filterMap_cons, Write.account?], hu.find, hu.account_id,
      hu.cash, hu.cash_nonneg⟩

/-! ## One call at a time -/

/-- A read answers what it finds and writes nothing. -/
theorem read_eq {α : Type} {x a : α} (h : x = a) :
    (Except.ok (x, none) : Except LedgerError (α × Option Write)) = .ok (a, none) := by rw [h]

/-- Serve one call with nothing beside it. -/
abbrev serve (rules : ComplianceRules) (db : Db) (c : Served Call Ambient) :
    Except LedgerError Reply × Db := engine.serve (service rules) db c

abbrev ServedCall := Served Call Ambient

/-- Serve calls one after the other. -/
abbrev serveAll (rules : ComplianceRules) (db : Db) (cs : List ServedCall) :
    List (Except LedgerError Reply) × Db := engine.serveAll (service rules) db cs

/-- What a `postTrade` that returns has read, and the rows it then writes. -/
inductive PostsAlone (rules : ComplianceRules) (db : Db) (req : TradeRequestDto) :
    PostOutcome → List Write → Prop
  | duplicate {existing : TradeResultDto}
      (found : db.findTradeByRequestId req.request_id = some existing) :
      PostsAlone rules db req { result := existing, created := false } []
  | rejected {cash : BigDecimal} {reason : String}
      (fresh : db.findTradeByRequestId req.request_id = none)
      (read : db.getCash req.account_id = some cash)
      (violation : rules.firstViolation (cash + req.cashDelta)
        (db.netPosition req.account_id req.symbol + req.signedQty) = some reason)
      (rows : RejectedRows req reason) :
      PostsAlone rules db req (rejection req reason) rows.writes
  | posted {v : Draws} (fresh : db.findTradeByRequestId req.request_id = none)
      (compliant : rules.firstViolation (v.cash + req.cashDelta)
        (db.netPosition req.account_id req.symbol + req.signedQty) = none)
      (rows : PostedRows req v) (serial : SerialPosting db req v rows.writes) :
      PostsAlone rules db req (v.outcome req) rows.writes

theorem serve_trace {rules : ComplianceRules} {db db' : Db} {c : Served Call Ambient} {r : Reply}
    (h : serve rules db c = (.ok r, db')) : ∃ es : List LedgerEvent,
      Faithful engine (service rules) ⟨c.call, es, .ret r, .active⟩ ∧ Replay engine db es ∧
      db' = engine.applyAll db (writesOf es) := by
  obtain ⟨es, hf, hr, hdb⟩ := solo_trace (serve_ok h)
  exact ⟨es, ⟨hf, hr.answered⟩, hr, hdb⟩

theorem serve_postTrade {rules : ComplianceRules} {db db' : Db} {mdc : Option String}
    {req : TradeRequestDto} {w : Nat → Ambient} {r : Reply}
    (h : serve rules db ⟨.postTrade mdc req, w⟩ = (.ok r, db')) : ∃ out ws,
      r = .trade out ∧ PostsAlone rules db req out ws ∧ db' = engine.applyAll db ws := by
  obtain ⟨es, hf, hr, rfl⟩ := serve_trace h
  obtain ⟨out, hfollows, rfl⟩ := follows_map hf.follows
  have hfin := finished hf
  refine ⟨out, writesOf es, rfl, ?_, rfl⟩
  cases postTrade_trace hfollows with
  | @duplicate existing n =>
    obtain ⟨⟨_, h₁⟩, -⟩ := hr
    have hn : n = none := Answered.silent ⟨_, _, h₁⟩ rfl
    subst hn
    exact .duplicate (Prod.mk.inj (Except.ok.inj h₁)).1
  | @rejected now cash position tradeId auditId reason n₁ n₂ n₃ n₄ n₅ n₆ n₇ n₈ violation =>
    obtain ⟨⟨_, h₁⟩, ⟨_, h₂⟩, ⟨_, h₃⟩, ⟨_, h₄⟩, -⟩ := hr
    have e₁ : n₁ = none := Answered.silent ⟨_, _, h₁⟩ rfl
    have e₂ : n₂ = none := Answered.silent ⟨_, _, h₂⟩ rfl
    have e₃ : n₃ = none := Answered.silent ⟨_, _, h₃⟩ rfl
    subst e₁ e₂ e₃
    have hfind : db.findTradeByRequestId req.request_id = none :=
      (Prod.mk.inj (Except.ok.inj h₁)).1
    have hcash : db.getCash req.account_id = some cash := (Prod.mk.inj (Except.ok.inj h₃)).1
    have hpos : db.netPosition req.account_id req.symbol = position :=
      (Prod.mk.inj (Except.ok.inj h₄)).1
    subst hpos
    generalize hr : Reply.trade (rejection req reason) = r at hfin
    cases hfin with
    | duplicate => simp [rejection] at hr
    | rejected _ rows writes =>
      simp only [rejection, Reply.trade.injEq, PostOutcome.mk.injEq, TradeResultDto.mk.injEq,
        Option.some.injEq, true_and, and_true] at hr
      subst hr
      rw [writes]
      exact .rejected hfind hcash violation rows
    | posted => simp [rejection, Draws.outcome] at hr
  | @posted v _ trace compliant =>
    have hfind : db.findTradeByRequestId req.request_id = none := by
      cases trace
      obtain ⟨⟨_, h₁⟩, -⟩ := hr
      exact (Prod.mk.inj (Except.ok.inj h₁)).1
    generalize hr' : Reply.trade (v.outcome req) = r at hfin
    cases hfin with
    | duplicate => simp [Draws.outcome] at hr'
    | rejected => simp [rejection, Draws.outcome] at hr'
    | posted trace' rows writes _ compliant' =>
      have hser := trace'.replayed hr rows writes
      rw [Reply.trade.inj hr']
      rw [← hser.position] at compliant'
      exact writes ▸ .posted hfind compliant' rows (writes ▸ hser)

end TradePulse.Ledger
