import TradePulse.Ledger.Cash

/-! # The records of one posted trade

A posted trade leaves a row, two journal lines, a new balance and an event.
All four are written from the request as it came; the columns round, the event
does not, and a symbol may lose trailing spaces. They agree exactly for
requests that the columns hold as they are. -/
namespace TradePulse.Ledger
open TradePulse.Core TradePulse.Core.Runs TradePulse.Core.Transactions

/-- The rows `ws` of one transaction agree with each other and with the change
from `before` to `after`. -/
structure RecordsAgree (before after : Db) (ws : List Write) : Prop where
  journal : ∀ t l, .trade t ∈ ws → .journalLine l ∈ ws →
    l.debit.toRat + l.credit.toRat =
      (roundHalfAway (t.quantity.toRat * t.price.toRat * 10 ^ 4) : ℚ) / 10 ^ 4
  quantity : ∀ t o, .trade t ∈ ws → .outbox o ∈ ws → o.payload.data.quantity = t.quantity.toRat
  price : ∀ t o, .trade t ∈ ws → .outbox o ∈ ws → o.payload.data.price = t.price.toRat
  cash : ∀ o, .outbox o ∈ ws → after.getCash o.payload.data.account_id =
    (before.getCash o.payload.data.account_id).map (· + o.payload.data.cash_delta)
  position : ∀ o, .outbox o ∈ ws → o.payload.data.position_after =
    after.netPosition o.payload.data.account_id o.payload.data.symbol

/-- The columns hold the request's values as they are. -/
structure TradeRequestDto.Storable (req : TradeRequestDto) : Prop where
  quantity : Numeric.Exact 4 req.quantity
  price : Numeric.Exact 4 req.price
  amount : Numeric.Exact 4 req.amount
  symbol : req.symbol.length ≤ 32

theorem TradeRequestDto.storable_iff {req : TradeRequestDto} :
    req.Storable ↔ Numeric.Exact 4 req.quantity ∧ Numeric.Exact 4 req.price ∧
      Numeric.Exact 4 req.amount ∧ req.symbol.length ≤ 32 :=
  ⟨fun h => ⟨h.quantity, h.price, h.amount, h.symbol⟩, fun h => ⟨h.1, h.2.1, h.2.2.1, h.2.2.2⟩⟩

instance (req : TradeRequestDto) : Decidable req.Storable :=
  decidable_of_iff _ TradeRequestDto.storable_iff.symm

/-- The call was accepted and posted a new trade. -/
def PostOutcome.isPosted (out : PostOutcome) : Bool :=
  out.created && out.result.status = .posted

theorem exact_toRat_add {m : Money} {q : ℚ} :
    Numeric.Exact 4 (m.toRat + q) ↔ Numeric.Exact 4 q := by
  rw [Numeric.exact_iff, Numeric.exact_iff]
  constructor
  · rintro ⟨z, hz⟩
    refine ⟨z - m.units, ?_⟩
    rw [add_mul, Numeric.toRat_mul] at hz
    push_cast
    linarith
  · rintro ⟨z, hz⟩
    refine ⟨m.units + z, ?_⟩
    rw [add_mul, Numeric.toRat_mul, hz]
    push_cast
    ring

theorem exact_cashDelta {req : TradeRequestDto} :
    Numeric.Exact 4 req.cashDelta ↔ Numeric.Exact 4 req.amount := by
  unfold TradeRequestDto.cashDelta
  split
  · exact ⟨fun h => by simpa using h.neg, fun h => h.neg⟩
  · exact Iff.rfl

section Rows

variable {req : TradeRequestDto} {v : Draws} {db : Db} (rows : PostedRows req v)

theorem PostedRows.mem_trade {t : Trade} : .trade t ∈ rows.writes ↔ t = rows.trade := by
  cases h : rows.account <;> simp [PostedRows.writes, h]

theorem PostedRows.mem_outbox {o : OutboxRow LedgerUpdatedEnvelope} :
    .outbox o ∈ rows.writes ↔ o = rows.outbox := by
  cases h : rows.account <;> simp [PostedRows.writes, h]

theorem PostedRows.mem_line {l : JournalLine} :
    .journalLine l ∈ rows.writes ↔ l = rows.debit ∨ l = rows.credit := by
  cases h : rows.account <;> simp [PostedRows.writes, h]

theorem PostedRows.payload : rows.outbox.payload = v.envelope req := by
  obtain ⟨_, ho⟩ := rows.outbox_ok
  exact ho.payload

/-- Both lines carry the amount as the column rounds it. -/
theorem PostedRows.line_amount {l : JournalLine} (hl : l = rows.debit ∨ l = rows.credit) :
    l.debit.toRat + l.credit.toRat = (roundHalfAway (req.amount * 10 ^ 4) : ℚ) / 10 ^ 4 := by
  obtain ⟨_, hd⟩ := rows.debit_ok
  obtain ⟨_, hc⟩ := rows.credit_ok
  obtain rfl | rfl := hl
  · rw [stored_toRat hd.debit, stored_zero hd.credit, add_zero]
  · rw [stored_zero hc.debit, stored_toRat hc.credit, zero_add]

/-- The cash moves by what the event says when the amount is stored exactly. -/
theorem PostedRows.cash_iff (hs : SerialPosting db req v rows.writes) :
    (engine.applyAll db rows.writes).getCash req.account_id =
        (db.getCash req.account_id).map (· + req.cashDelta) ↔ Numeric.Exact 4 req.amount := by
  obtain ⟨a, b, hacc, hac, hu⟩ := hs.update
  rw [getCash_updateRow hu (by rw [accounts_applyAll, hacc]; rfl), if_pos rfl, hs.cash,
    Option.map_some, Option.some.injEq, ← hac, Numeric.store_toRat_eq_iff hu.cash,
    exact_toRat_add, exact_cashDelta]

/-- The position after the commit is the event's when the row carries the
symbol that was asked for. -/
theorem PostedRows.position_iff (hs : SerialPosting db req v rows.writes)
    (hq : Numeric.Exact 4 req.quantity) (hpos : 0 < req.quantity) :
    v.position + req.signedQty =
        (engine.applyAll db rows.writes).netPosition req.account_id req.symbol ↔
      req.symbol.length ≤ 32 := by
  obtain ⟨_, ht⟩ := rows.trade_ok
  have hsq : rows.trade.signedQuantity = req.signedQty := by
    rw [ht.signedQuantity hq]
    simp [TradeRequestDto.signedQty, TradeRequestDto.isBuy]
  have hne : req.signedQty ≠ 0 := by
    unfold TradeRequestDto.signedQty
    split
    · exact hpos.ne'
    · exact neg_ne_zero.mpr hpos.ne'
  have hacc : rows.trade.account_id.val = req.account_id :=
    Varchar.store_of_length (length_of_getCash hs.cash) ht.account_id
  rw [netPosition_applyAll, rows.trades, hs.position, positionOf_cons, positionOf_nil, add_zero,
    hsq]
  by_cases hlen : req.symbol.length ≤ 32
  · have hsym := Varchar.store_of_length hlen ht.symbol
    simp [Trade.isPosted, hacc, hsym, ht.status, hlen]
  · have hsym : rows.trade.symbol.val ≠ req.symbol := fun he => hlen (he ▸ rows.trade.symbol.fits)
    simp [Trade.isPosted, hsym, hlen, hne]

theorem PostedRows.agree_iff (hs : SerialPosting db req v rows.writes) (hreq : req.Valid) :
    RecordsAgree db (engine.applyAll db rows.writes) rows.writes ↔ req.Storable := by
  obtain ⟨_, ht⟩ := rows.trade_ok
  have hqty := Numeric.store_toRat_eq_iff ht.quantity
  have hprice := Numeric.store_toRat_eq_iff ht.price
  constructor
  · intro h
    have hq := hqty.mp ((h.quantity _ _ (rows.mem_trade.mpr rfl) (rows.mem_outbox.mpr rfl)).symm.trans
      (by rw [rows.payload]; rfl))
    have hp := hprice.mp ((h.price _ _ (rows.mem_trade.mpr rfl) (rows.mem_outbox.mpr rfl)).symm.trans
      (by rw [rows.payload]; rfl))
    have hc := h.cash _ (rows.mem_outbox.mpr rfl)
    have hy := h.position _ (rows.mem_outbox.mpr rfl)
    rw [rows.payload] at hc hy
    exact ⟨hq, hp, (rows.cash_iff hs).mp hc, (rows.position_iff hs hq hreq.quantity).mp hy⟩
  · intro h
    refine ⟨fun t l htr hl => ?_, fun t o htr ho => ?_, fun t o htr ho => ?_, fun o ho => ?_,
      fun o ho => ?_⟩
    · rw [rows.mem_trade.mp htr, rows.line_amount (rows.mem_line.mp hl), hqty.mpr h.quantity,
        hprice.mpr h.price, mul_comm req.quantity, TradeRequestDto.amount]
    · rw [rows.mem_trade.mp htr, rows.mem_outbox.mp ho, hqty.mpr h.quantity, rows.payload]
      rfl
    · rw [rows.mem_trade.mp htr, rows.mem_outbox.mp ho, hprice.mpr h.price, rows.payload]
      rfl
    · rw [rows.mem_outbox.mp ho, rows.payload]
      exact (rows.cash_iff hs).mpr h.amount
    · rw [rows.mem_outbox.mp ho, rows.payload]
      exact (rows.position_iff hs h.quantity hreq.quantity).mpr h.symbol

end Rows

/-- **Records agree exactly for storable requests.** In a serial run of
validated calls, a call that posts a trade leaves agreeing records if and only
if the columns hold the quantity, the price, their product and the symbol of
its request as they are. -/
theorem records_agree_iff {rules : ComplianceRules} {P : Db → Prop} {s s' : LedgerState}
    (h : Reach (ledgerStep rules) serialCalls (initial P) s) {n : Nat} {mdc : Option String}
    {req : TradeRequestDto} {es : List LedgerEvent} {out : PostOutcome} {st : Status}
    (get : s.txns[n]? = some ⟨.postTrade mdc req, es, .ret (.trade out), st⟩)
    (posted : out.isPosted = true) (commit : ledgerStep rules (.commit n) s = some s') :
    RecordsAgree s.db s'.db (writesOf es) ↔ req.Storable := by
  have hmem := List.mem_of_getElem? get
  have hvalid := calls (C := Call.Valid) (fun _ _ h => h.1) h _ hmem
  have hreplay := (alone (fun _ _ => serial_of_serialCalls) h).replay _ hmem
  have hfin := finished (faithful h _ hmem)
  simp only [ledgerStep, step, get] at commit
  cases st with
  | active =>
    simp only [Option.some.injEq] at commit
    subst commit
    cases hfin with
    | duplicate writes => simp [PostOutcome.isPosted] at posted
    | rejected violation rows writes => simp [PostOutcome.isPosted, rejection] at posted
    | posted trace rows writes read compliant =>
      have hs := trace.replayed (hreplay rfl) rows writes
      rw [writes] at hs ⊢
      exact rows.agree_iff hs hvalid
  | _ => cases commit

/-- Transaction 0 is a posted trade about to commit whose request and rows pass
the check. -/
def readyToPost (check : TradeRequestDto → List Write → Bool) (s : LedgerState) : Bool :=
  match (s.txns[0]? : Option LedgerTxn) with
  | some ⟨.postTrade _ req, es, .ret (.trade out), .active⟩ =>
    out.isPosted && check req (writesOf es)
  | _ => false

theorem readyToPost_iff {check : TradeRequestDto → List Write → Bool} {s : LedgerState} :
    readyToPost check s = true ↔ ∃ mdc req es out,
      s.txns[0]? = some ⟨.postTrade mdc req, es, .ret (.trade out), .active⟩ ∧
        out.isPosted = true ∧ check req (writesOf es) = true := by
  unfold readyToPost
  split
  · rename_i mdc req es out get
    simp only [Bool.and_eq_true]
    constructor
    · rintro ⟨hp, hc⟩
      exact ⟨mdc, req, es, out, get, hp, hc⟩
    · rintro ⟨_, _, _, _, get', hp, hc⟩
      rw [get] at get'
      cases get'
      exact ⟨hp, hc⟩
  · rename_i hno
    simp only [Bool.false_eq_true, false_iff, not_exists, not_and]
    intro mdc req es out get
    exact absurd get (hno mdc req es out)

theorem records_agree_exactBuy : ∃ (s s' : LedgerState) (es : List LedgerEvent),
    s'.db.netPosition "A" "X" = 1 / 2 ∧ RecordsAgree s.db s'.db (writesOf es) := by
  obtain ⟨s, hs, hp⟩ := Reach.exists_of_run (ledgerStep ⟨100⟩) serialCalls
    (initial (· = oneAccount thousand)) exactBuy.dropLast
    (fun s => readyToPost (fun req _ => req.Storable) s &&
      (ledgerStep ⟨100⟩ (.commit 0) s).any fun s' => s'.db.netPosition "A" "X" = 1 / 2)
    (s := ⟨oneAccount thousand, []⟩) ⟨rfl, rfl⟩ (by decide +kernel)
  rw [Bool.and_eq_true, readyToPost_iff] at hp
  obtain ⟨⟨mdc, req, es, out, get, posted, hreq⟩, hcommit⟩ := hp
  obtain ⟨s', commit, hnet⟩ := (Option.any_eq_true _ _).mp hcommit
  exact ⟨s, s', es, by simpa using hnet,
    (records_agree_iff hs get posted commit).mpr (of_decide_eq_true hreq)⟩

/-- A purchase of 0.33333: the row keeps 0.3333, the event says 0.33333. -/
def longQuantityBuy : List LedgerAct := [.begin (buy 1 (33333 / 100000) 3)] ++ stmts 0 16 100 0

/-- Some event of the rows differs from the trade in its quantity. -/
def quantityDiffers (ws : List Write) : Bool :=
  (ws.filterMap Write.trade?).any fun t =>
    (ws.filterMap Write.outbox?).any fun o => o.payload.data.quantity ≠ t.quantity.toRat

theorem records_can_disagree : ∃ (s s' : LedgerState) (mdc : Option String)
    (req : TradeRequestDto) (es : List LedgerEvent) (out : PostOutcome),
    Reach (ledgerStep ⟨100⟩) serialCalls (initial (· = oneAccount thousand)) s ∧
      s.txns[0]? = some ⟨.postTrade mdc req, es, .ret (.trade out), .active⟩ ∧
      out.isPosted = true ∧ ledgerStep ⟨100⟩ (.commit 0) s = some s' ∧
      ¬ RecordsAgree s.db s'.db (writesOf es) := by
  obtain ⟨s, hs, hp⟩ := Reach.exists_of_run (ledgerStep ⟨100⟩) serialCalls
    (initial (· = oneAccount thousand)) longQuantityBuy
    (readyToPost fun _ ws => quantityDiffers ws) (s := ⟨oneAccount thousand, []⟩) ⟨rfl, rfl⟩
    (by decide +kernel)
  obtain ⟨mdc, req, es, out, get, posted, hdiff⟩ := readyToPost_iff.mp hp
  refine ⟨s, _, mdc, req, es, out, hs, get, posted, by simp only [ledgerStep, step, get]; rfl, ?_⟩
  intro h
  simp only [quantityDiffers, List.any_eq_true, List.mem_filterMap, decide_eq_true_eq] at hdiff
  obtain ⟨t, ⟨w, hw, ht⟩, o, ⟨w', hw', ho⟩, hne⟩ := hdiff
  cases w with
  | trade t' =>
    cases w' with
    | outbox o' =>
      cases ht
      cases ho
      exact hne (h.quantity t o hw hw')
    | _ => cases ho
  | _ => cases ht

end TradePulse.Ledger
