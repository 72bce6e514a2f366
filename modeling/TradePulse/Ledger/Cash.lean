import TradePulse.Ledger.Serial
import TradePulse.Ledger.Limits

/-! # Cash against the journal

The product of price and quantity reaches the database twice: rounded on its
own as a journal line, and rounded after it has been added to the balance. For
a credit both round alike. For a debit they part exactly when the product lies
half-way between two stored values: the line is rounded up, and so is what is
left of the balance. -/
namespace TradePulse.Ledger
open TradePulse.Core TradePulse.Core.Runs TradePulse.Core.Transactions

/-! ## Statement -/

/-- Debit minus credit of the journal lines of an account. -/
def lineNet (accountId : String) (ls : List JournalLine) : BigDecimal :=
  ((ls.filter (·.account_ref.val = accountId)).map fun l => l.debit.toRat - l.credit.toRat).sum

def Db.journalNet (db : Db) (accountId : String) : BigDecimal :=
  lineNet accountId db.journal_lines

/-- The calls that pass their controller's validation. -/
def Call.Valid : Call → Prop
  | .postTrade _ req => req.Valid
  | .creditAccount _ amount _ => 0 < amount

instance : (c : Call) → Decidable c.Valid
  | .postTrade _ req => inferInstanceAs (Decidable req.Valid)
  | .creditAccount _ amount _ => inferInstanceAs (Decidable (0 < amount))

/-- One validated call after the other. -/
def serialCalls (s : LedgerState) : LedgerAct → Prop
  | .begin c => c.Valid ∧ ∀ t ∈ s.txns, t.status ≠ .active
  | _ => True

instance (s : LedgerState) : (a : LedgerAct) → Decidable (serialCalls s a)
  | .begin c => inferInstanceAs (Decidable (c.Valid ∧ ∀ t ∈ s.txns, t.status ≠ .active))
  | .stmt .. | .commit _ | .abort _ => .isTrue trivial

theorem serial_of_serialCalls {s : LedgerState} {a : LedgerAct} (h : serialCalls s a) :
    serial s a := by
  cases a with
  | begin c => exact h.2
  | _ => trivial

/-- The product of price and quantity is half-way between two stored values. -/
def TradeRequestDto.TieAmount (req : TradeRequestDto) : Prop := IsTie (req.amount * 10 ^ 4)

instance (req : TradeRequestDto) : Decidable req.TieAmount := inferInstanceAs (Decidable (IsTie _))

/-- A purchase booked on the account whose amount is such a tie. -/
def tieBuy (accountId : String) : LedgerTxn → Bool
  | ⟨.postTrade _ req, _, .ret (.trade out), .committed⟩ =>
    out.created && out.result.status = .posted && req.account_id = accountId && req.isBuy &&
      req.TieAmount
  | _ => false

/-! ## Stored amounts -/

theorem stored_toRat {q : BigDecimal} {m : Money} (h : Numeric.store 20 4 q = some m) :
    m.toRat = roundHalfAway (q * 10 ^ 4) / 10 ^ 4 := by
  rw [Numeric.toRat, Numeric.store_units h]

theorem stored_zero {m : Money} (h : Numeric.store 20 4 0 = some m) : m.toRat = 0 := by
  rw [stored_toRat h, zero_mul, show (0 : ℚ) = ((0 : ℤ) : ℚ) from rfl, roundHalfAway_intCast]
  simp

/-- A balance takes a credit as the journal line rounds it. -/
theorem UpdatesCash.credit {db : Db} {i : String} {x : BigDecimal} {a b : Account}
    (h : UpdatesCash db i x a b) (ha : 0 ≤ a.cash_balance.toRat) (hx : 0 ≤ x) {m : Money}
    (hm : Numeric.store 20 4 x = some m) :
    b.cash_balance.toRat = a.cash_balance.toRat + m.toRat := by
  rw [stored_toRat h.cash, stored_toRat hm, add_mul, Numeric.toRat_mul,
    roundHalfAway_add (Numeric.toRat_nonneg.mp ha) (by positivity), Numeric.toRat]
  push_cast
  ring

/-- A balance takes a debit as the journal line rounds it, but for a tie. -/
theorem UpdatesCash.debit {db : Db} {i : String} {x : BigDecimal} {a b : Account}
    (h : UpdatesCash db i (-x) a b) (hx : 0 ≤ x) (hle : 0 ≤ a.cash_balance.toRat - x) {m : Money}
    (hm : Numeric.store 20 4 x = some m) :
    b.cash_balance.toRat =
      a.cash_balance.toRat - m.toRat + if IsTie (x * 10 ^ 4) then 1 / 10 ^ 4 else 0 := by
  have hle' : (0 : ℚ) ≤ a.cash_balance.units - x * 10 ^ 4 := by
    rw [← Numeric.toRat_mul, ← sub_mul]
    positivity
  rw [stored_toRat h.cash, stored_toRat hm, ← sub_eq_add_neg, sub_mul, Numeric.toRat_mul,
    roundHalfAway_sub (by positivity) hle', Numeric.toRat]
  by_cases ht : IsTie (x * 10 ^ 4)
  · simp only [ht, if_true]
    push_cast
    ring
  · simp only [ht, if_false]
    push_cast
    ring

/-! ## Accounts and lines after a commit -/

theorem Varchar.ext {n : Nat} {v w : Varchar n} (h : v.val = w.val) : v = w := by
  cases v; cases w; cases h; rfl

theorem getCash_of_mem {db : Db} {a : Account} (h : a ∈ db.accounts) :
    db.getCash a.account_id.val = some a.cash_balance.toRat := by
  have hpk := db.accounts_pkey
  rw [Db.getCash, Option.map_eq_some_iff]
  refine ⟨a, ?_, rfl⟩
  generalize db.accounts = rows at h hpk
  induction rows with
  | nil => cases h
  | cons b rows ih =>
    rw [List.map_cons, List.nodup_cons] at hpk
    by_cases hb : b.account_id.val = a.account_id.val
    · obtain rfl | h := List.mem_cons.mp h
      · exact List.find?_cons_of_pos (by simp)
      · exact absurd (List.mem_map.mpr ⟨a, h, (Varchar.ext hb).symm⟩) hpk.1
    · obtain rfl | h := List.mem_cons.mp h
      · exact absurd rfl hb
      · rw [List.find?_cons_of_neg (by simpa using hb)]
        exact ih h hpk.2

/-- The `UPDATE` of one row changes the cash of that account only. -/
theorem getCash_updateRow {db db' : Db} {j i : String} {x : BigDecimal} {a b : Account}
    (h : UpdatesCash db j x a b) (hdb : db'.accounts = updateRow b db.accounts) :
    db'.getCash i = if i = j then some b.cash_balance.toRat else db.getCash i := by
  have hj : a.account_id.val = j := by simpa using List.find?_some h.find
  rw [Db.getCash, Db.getCash, hdb, updateRow, find?_update fun c hc => by rw [hc]]
  by_cases hij : i = j
  · subst hij
    rw [h.find]
    simp [h.account_id]
  · rw [if_neg hij]
    cases hf : db.accounts.find? (·.account_id.val = i) with
    | none => rfl
    | some c =>
      have hc : c.account_id.val = i := by simpa using List.find?_some hf
      have hne : c.account_id ≠ b.account_id := by
        rw [h.account_id]
        intro he
        exact hij (hc.symm.trans ((congrArg Varchar.val he).trans hj))
      simp [hne]

@[simp] theorem lineNet_nil (i : String) : lineNet i [] = 0 := rfl

@[simp] theorem lineNet_cons (i : String) (l : JournalLine) (ls : List JournalLine) :
    lineNet i (l :: ls) =
      (if l.account_ref.val = i then l.debit.toRat - l.credit.toRat else 0) + lineNet i ls := by
  by_cases h : l.account_ref.val = i <;> simp [lineNet, h]

@[simp] theorem journalNet_applyAll (db : Db) (ws : List Write) (i : String) :
    (engine.applyAll db ws).journalNet i =
      db.journalNet i + lineNet i (ws.filterMap Write.journalLine?) := by
  simp [Db.journalNet, lineNet]

/-! ## One commit -/

/-- What a commit adds to the cash of account `i`: its journal lines, and one
unit of the last decimal for a tied purchase. -/
def CashMoves (db : Db) (ws : List Write) (i : String) (tied : Bool) : Prop :=
  (engine.applyAll db ws).getCash i = (db.getCash i).map fun c =>
    c + lineNet i (ws.filterMap Write.journalLine?) + if tied then 1 / 10 ^ 4 else 0

theorem PostedRows.lines {req : TradeRequestDto} {v : Draws} (r : PostedRows req v) :
    r.writes.filterMap Write.journalLine? = [r.debit, r.credit] := r.project _ fun _ => rfl

theorem CreditRows.lines {i : String} {x : BigDecimal} {id : UUID} (r : CreditRows i x id) :
    r.writes.filterMap Write.journalLine? = [r.debit, r.credit] := r.project _ fun _ => rfl

theorem PostedRows.cashMoves {req : TradeRequestDto} {v : Draws} {db : Db}
    (rows : PostedRows req v) (hs : SerialPosting db req v rows.writes) (hreq : req.Valid)
    (hcash : ∀ a ∈ db.accounts, 0 ≤ a.cash_balance.toRat) (hafter : 0 ≤ v.cash + req.cashDelta)
    {i : String} (hi : i ≠ "securities") :
    CashMoves db rows.writes i (req.account_id = i && req.isBuy && req.TieAmount) := by
  obtain ⟨a, b, hacc, hac, hu⟩ := hs.update
  obtain ⟨_, hd⟩ := rows.debit_ok
  obtain ⟨_, hc⟩ := rows.credit_ok
  have hamount : 0 ≤ req.amount := (mul_pos hreq.price hreq.quantity).le
  have hlen := length_of_getCash hs.cash
  have hpos : 0 ≤ a.cash_balance.toRat := hcash a (List.mem_of_find?_eq_some hu.find)
  unfold CashMoves
  rw [getCash_updateRow hu (by rw [accounts_applyAll, hacc]; rfl), rows.lines]
  cases hb : req.isBuy with
  | true =>
    simp only [TradeRequestDto.debited, TradeRequestDto.credited, hb, if_true] at hd hc
    have hrd : rows.debit.account_ref.val ≠ i := by
      rw [Varchar.store_of_length (by decide) hd.account_ref]
      exact Ne.symm hi
    have hrc := Varchar.store_of_length hlen hc.account_ref
    by_cases hia : i = req.account_id
    · subst hia
      have hnew := UpdatesCash.debit (x := req.amount)
        (by simpa [TradeRequestDto.cashDelta, hb] using hu) hamount
        (by rw [hac]; simpa [TradeRequestDto.cashDelta, hb, sub_eq_add_neg] using hafter) hc.credit
      by_cases ht : IsTie (req.amount * 10 ^ 4)
      · simp [hs.cash, hrd, hrc, hnew, hac, stored_zero hc.debit, TradeRequestDto.TieAmount, ht]
        ring
      · simp [hs.cash, hrd, hrc, hnew, hac, stored_zero hc.debit, TradeRequestDto.TieAmount, ht]
        ring
    · simp [hia, hrd, hrc, Ne.symm hia]
  | false =>
    simp only [TradeRequestDto.debited, TradeRequestDto.credited, hb, if_false,
      Bool.false_eq_true] at hd hc
    have hrc : rows.credit.account_ref.val ≠ i := by
      rw [Varchar.store_of_length (by decide) hc.account_ref]
      exact Ne.symm hi
    have hrd := Varchar.store_of_length hlen hd.account_ref
    by_cases hia : i = req.account_id
    · subst hia
      have hnew := UpdatesCash.credit (x := req.amount)
        (by simpa [TradeRequestDto.cashDelta, hb] using hu) hpos hamount hd.debit
      simp [hs.cash, hrd, hrc, hnew, hac, stored_zero hd.credit]
    · simp [hia, hrd, hrc, Ne.symm hia]

theorem CreditRows.cashMoves {j : String} {x : BigDecimal} {id : UUID} {db : Db} {a b : Account}
    (rows : CreditRows j x id) (hacc : rows.writes.filterMap Write.account? = [b])
    (hu : UpdatesCash db j x a b) (hx : 0 < x)
    (hcash : ∀ a ∈ db.accounts, 0 ≤ a.cash_balance.toRat) {i : String} (hi : i ≠ "funding") :
    CashMoves db rows.writes i false := by
  obtain ⟨_, _, hd⟩ := rows.debit_ok
  obtain ⟨_, _, hc⟩ := rows.credit_ok
  have ha := List.mem_of_find?_eq_some hu.find
  have hj : a.account_id.val = j := by simpa using List.find?_some hu.find
  have hlen : j.length ≤ 64 := hj ▸ a.account_id.fits
  have hrc : rows.credit.account_ref.val ≠ i := by
    rw [Varchar.store_of_length (by decide) hc.account_ref]
    exact Ne.symm hi
  have hrd := Varchar.store_of_length hlen hd.account_ref
  unfold CashMoves
  rw [getCash_updateRow hu (by rw [accounts_applyAll, hacc]; rfl), rows.lines]
  by_cases hij : i = j
  · subst hij
    have hold : db.getCash i = some a.cash_balance.toRat := hj ▸ getCash_of_mem ha
    simp [hold, hrd, hrc, hu.credit (hcash a ha) hx.le hd.debit, stored_zero hd.credit]
  · simp [hij, hrd, hrc, Ne.symm hij]

/-- A commit of a serial run moves the cash of an account by its lines, and by
one unit more for a tied purchase. -/
theorem Finished.cashMoves {rules : ComplianceRules} {c : Call} {es : List LedgerEvent} {r : Reply}
    (h : Finished rules c es r) (hc : c.Valid) {db : Db} (hr : Replay engine db es)
    (hcash : ∀ a ∈ db.accounts, 0 ≤ a.cash_balance.toRat) {i : String} (hs : i ≠ "securities")
    (hf : i ≠ "funding") :
    CashMoves db (writesOf es) i (tieBuy i ⟨c, es, .ret r, .committed⟩) := by
  cases h with
  | duplicate writes => simp [CashMoves, writes, tieBuy, Engine.applyAll]
  | rejected violation rows writes =>
    simp [CashMoves, writes, tieBuy, rejection, RejectedRows.writes, List.filterMap_cons,
      Write.journalLine?, Db.getCash, Write.account?, Function.comp_def]
  | @posted mdc req es v trace rows writes read compliant =>
    have hsp := trace.replayed hr rows writes
    rw [writes] at hsp ⊢
    have hm := rows.cashMoves hsp hc hcash (firstViolation_none.mp compliant).1 hs
    simpa [tieBuy, Draws.outcome] using hm
  | credited trace drawn rows writes =>
    obtain ⟨a, b, hacc, hu⟩ := trace.replayed hr
    rw [writes] at hacc ⊢
    exact rows.cashMoves hacc hu hc hcash hf

/-! ## Whole runs -/

/-- Initial cash, plus the journal's net, plus one unit for each tied purchase. -/
def CashBooks (db₀ : Db) (i : String) (s : LedgerState) : Prop :=
  s.db.getCash i = (db₀.getCash i).map fun c =>
    c + s.db.journalNet i + s.txns.countP (tieBuy i) / 10 ^ 4

theorem tieBuy_active {i : String} {t : LedgerTxn} (h : t.status ≠ .committed) :
    tieBuy i t = false := by
  unfold tieBuy
  split
  · exact absurd rfl h
  · rfl

theorem countP_put {s : LedgerState} {n : Nat} {t u : LedgerTxn} {p : LedgerTxn → Bool}
    (get : s.txns[n]? = some t) (ht : p t = false) :
    (s.put n u).txns.countP p = s.txns.countP p + if p u then 1 else 0 := by
  obtain ⟨hn, hget⟩ := List.getElem?_eq_some_iff.mp get
  rw [State.put, List.countP_set hn, hget, ht]
  simp

theorem CashBooks.step {rules : ComplianceRules} {db₀ : Db} {i : String} {s s' : LedgerState}
    {a : LedgerAct} (hi : CashBooks db₀ i s) (hs : i ≠ "securities") (hf : i ≠ "funding")
    (halone : Alone engine s) (hfaithful : ∀ t ∈ s.txns, Faithful engine (service rules) t)
    (hvalid : ∀ t ∈ s.txns, t.call.Valid) (hcash : ∀ a ∈ s.db.accounts, 0 ≤ a.cash_balance.toRat)
    (h : Step engine (service rules) s a s') : CashBooks db₀ i s' := by
  unfold CashBooks at hi ⊢
  cases h with
  | begin c =>
    have hnew : tieBuy i ⟨c, [], service rules c, .active⟩ = false := tieBuy_active (by simp)
    simpa [List.countP_append, hnew] using hi
  | stmt get exec free =>
    rw [countP_put get (tieBuy_active (by simp)), tieBuy_active (by simp)]
    simpa using hi
  | @commit n c es r get =>
    have hmem := List.mem_of_getElem? get
    have hmove := (finished (hfaithful _ hmem)).cashMoves (hvalid _ hmem)
      (halone.replay _ hmem rfl) hcash hs hf
    rw [countP_put get (tieBuy_active (by simp)), journalNet_applyAll]
    refine hmove.trans ?_
    rw [hi, Option.map_map]
    refine congrArg (fun f => Option.map f (db₀.getCash i)) (funext fun cash => ?_)
    by_cases ht : tieBuy i ⟨c, es, .ret r, .committed⟩ = true
    · simp only [Function.comp_apply, ht, if_true]
      push_cast
      ring
    · simp only [Function.comp_apply, ht, if_false, Bool.false_eq_true]
      push_cast
      ring
  | @stop act n t get active =>
    rw [countP_put get (tieBuy_active (by simp [active])), tieBuy_active (by simp)]
    simpa using hi

theorem books {rules : ComplianceRules} {db₀ : Db} (hjournal : db₀.journal_lines = [])
    (hcash : ∀ a ∈ db₀.accounts, 0 ≤ a.cash_balance.toRat) {i : String} (hs : i ≠ "securities")
    (hf : i ≠ "funding") {s : LedgerState}
    (h : Reach (ledgerStep rules) serialCalls (initial (· = db₀)) s) : CashBooks db₀ i s := by
  refine h.invariant_under (J := fun s => Alone engine s ∧
    (∀ t ∈ s.txns, Faithful engine (service rules) t) ∧ (∀ t ∈ s.txns, t.call.Valid) ∧
    ∀ a ∈ s.db.accounts, 0 ≤ a.cash_balance.toRat) (fun s hr => ⟨?_, ?_, ?_, ?_⟩) ?_ ?_
  · exact alone (fun _ _ => serial_of_serialCalls) hr
  · exact faithful hr
  · exact calls (fun _ _ h => h.1) hr
  · exact cash_never_negative (fun db hdb => by rw [hdb]; exact hcash) hr
  · rintro s ⟨rfl, htx⟩
    simp [CashBooks, htx, Db.journalNet, hjournal]
  · intro s a s' hJ _ hi _ hstep
    exact hi.step hs hf hJ.1 hJ.2.1 hJ.2.2.1 hJ.2.2.2 (step_cases hstep)

/-- **Cash reconciles with the journal exactly without ties.** After any serial
run of validated calls, the balance of an account is its initial balance plus
the net of its journal lines if and only if no purchase booked on it had an
amount half-way between two stored values. -/
theorem cash_reconciles_iff {rules : ComplianceRules} {db₀ : Db}
    (hjournal : db₀.journal_lines = [])
    (hcash : ∀ a ∈ db₀.accounts, 0 ≤ a.cash_balance.toRat) {s : LedgerState}
    (h : Reach (ledgerStep rules) serialCalls (initial (· = db₀)) s) {a₀ : Account}
    (ha₀ : a₀ ∈ db₀.accounts) (hs : a₀.account_id.val ≠ "securities")
    (hf : a₀.account_id.val ≠ "funding") :
    s.db.getCash a₀.account_id.val =
        some (a₀.cash_balance.toRat + s.db.journalNet a₀.account_id.val) ↔
      ∀ t ∈ s.txns, tieBuy a₀.account_id.val t = false := by
  have hb := books hjournal hcash hs hf h
  rw [CashBooks, getCash_of_mem ha₀, Option.map_some] at hb
  rw [hb, Option.some.injEq, add_eq_left, div_eq_zero_iff]
  simp [List.countP_eq_zero]

/-- One purchase of 0.5 at 3, whose amount is stored as it is. -/
def exactBuy : List LedgerAct := [.begin (buy 1 (1 / 2) 3)] ++ stmts 0 16 100 0 ++ [.commit 0]

/-- One purchase of 0.5 at 0.0001. -/
def halfUnitBuy : List LedgerAct :=
  [.begin (buy 1 (1 / 2) (1 / 10000))] ++ stmts 0 16 100 0 ++ [.commit 0]

theorem cash_reconciles_exactBuy : ∃ s : LedgerState, s.db.getCash "A" = some (1000 - 3 / 2) ∧
    (s.db.getCash "A" = some (1000 + s.db.journalNet "A") ↔ ∀ t ∈ s.txns, tieBuy "A" t = false) := by
  obtain ⟨s, hs, hp⟩ := Reach.exists_of_run (ledgerStep ⟨100⟩) serialCalls
    (initial (· = oneAccount thousand)) exactBuy
    (fun s => s.db.getCash "A" = some (1000 - 3 / 2)) (s := ⟨oneAccount thousand, []⟩)
    ⟨rfl, rfl⟩ (by decide +kernel)
  refine ⟨s, of_decide_eq_true hp, ?_⟩
  have h := @cash_reconciles_iff _ (oneAccount thousand) rfl (by decide +kernel) _ hs _
    (List.mem_singleton.mpr rfl) (by decide) (by decide)
  rwa [show (⟨⟨"A", by decide⟩, ⟨"USD", by decide⟩, thousand⟩ : Account).cash_balance.toRat = 1000
    by decide +kernel] at h

/-- A purchase for half of the last decimal: the journal credits a whole unit,
the balance is left as it was. -/
theorem cash_does_not_reconcile : ∃ s : LedgerState,
    Reach (ledgerStep ⟨100⟩) serialCalls (initial (· = oneAccount thousand)) s ∧
      s.db.getCash "A" ≠ some (1000 + s.db.journalNet "A") := by
  obtain ⟨s, hs, hp⟩ := Reach.exists_of_run (ledgerStep ⟨100⟩) serialCalls
    (initial (· = oneAccount thousand)) halfUnitBuy
    (fun s => s.db.getCash "A" = some 1000 ∧ s.db.journalNet "A" = -(1 / 10000))
    (s := ⟨oneAccount thousand, []⟩) ⟨rfl, rfl⟩ (by decide +kernel)
  refine ⟨s, hs, ?_⟩
  obtain ⟨hcash, hnet⟩ := of_decide_eq_true hp
  rw [hcash, hnet]
  decide +kernel

end TradePulse.Ledger
