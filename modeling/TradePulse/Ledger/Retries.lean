import TradePulse.Ledger.Accounts
import TradePulse.Ledger.Decisions
import TradePulse.Ledger.Replays

/-! # Concurrent retries of one request

Two calls of one request that are in flight together both miss the other's row
in their lookup; the unique key then admits one of them, and the other ends
with the constraint violation. What the tables keep and what the calls answer
is safe in every run. That no call raises needs a condition on each statement
of the request's calls, and the one about the lookup is that no call commits
between another's lookup and its insert. -/
namespace TradePulse.Ledger
open TradePulse.Core TradePulse.Core.Prog TradePulse.Core.Runs TradePulse.Core.Transactions

/-! ## Statement -/

/-- The two answers report one decision and one posting. -/
structure SameDecision (out out' : PostOutcome) : Prop where
  status : out.result.status = out'.result.status
  journal_entry_id : out.result.journal_entry_id = out'.result.journal_entry_id
  rejection_reason : out.result.rejection_reason = out'.result.rejection_reason

/-- What transaction `n` does next is not to raise: it is not at a `throw`, and
its statement, if `ok` admits it, is no error. -/
structure NoRaise (ok : LedgerState → LedgerAct → Prop) (s : LedgerState) (n : Nat)
    (t : LedgerTxn) : Prop where
  program : ∀ e, t.rest ≠ .raise e
  statement : ∀ i k w, t.rest = .call i k → ok s (.stmt n w) →
    ∃ r b, engine.exec i w (engine.view s.db t) = .ok (r, b)

/-- The calls of the request `r` have one row, one entry at most, and one
answer, and none raises. -/
structure OneAnswer (ok : LedgerState → LedgerAct → Prop) (r : UUID) (s : LedgerState) :
    Prop where
  trade : s.db.trades.countP (·.request_id = r) ≤ 1
  entry : s.db.journal_entries.countP (·.source_event_id = r) ≤ 1
  answer : ∀ t ∈ s.txns, ∀ req out, Replied t req out → req.request_id = r →
    ∃ u ∈ s.txns, ∃ req' out', Replied u req' out' ∧ req'.request_id = r ∧
      out'.created = true ∧ SameDecision out out'
  no_raise : ∀ n t, s.txns[n]? = some t → t.call.requestId? = some r → t.status = .active →
    NoRaise ok s n t

/-- The statement that a step executes for a call of the request. -/
def nextOf (r : UUID) (s : LedgerState) : LedgerAct → Option Statement
  | .stmt n _ =>
    match s.txns[n]? with
    | some ⟨c, _, .call i _, .active⟩ => if c.requestId? = some r then some i else none
    | _ => none
  | _ => none

/-- The identifier drawn for the row that the statement inserts is on no row. -/
def Statement.InsertsNew (db : Db) : Statement → Prop
  | .insertTrade i .. => ∀ t ∈ db.trades, t.trade_id ≠ i
  | .insertJournalEntry j .. => ∀ e ∈ db.journal_entries, e.journal_entry_id ≠ j
  | .insertAudit i .. => ∀ a ∈ db.audit_log, a.audit_id ≠ i
  | .insertOutbox i .. => ∀ o ∈ db.outbox_events, o.event_id ≠ i
  | _ => True

/-- Every call with the request's id is a call with its content. -/
def sameContent (req : TradeRequestDto) : LedgerAct → Prop
  | .begin (.postTrade _ q) => q.request_id = req.request_id → q = req
  | _ => True

/-- Retries of one request, among any other calls. -/
def retriesOf (generated : UUID → Prop) (req : TradeRequestDto) (s : LedgerState)
    (a : LedgerAct) : Prop :=
  generatedApart generated s a ∧ sameContent req a ∧
    ∀ i ∈ nextOf req.request_id s a, i.InsertsNew s.db

/-- What the committed tables say lets the statement through: the row of the
request is not there yet, and the request, its amount and the new balance fit. -/
def Statement.Admitted (db : Db) (req : TradeRequestDto) : Statement → Prop
  | .insertTrade .. => req.Fits ∧ ∀ t ∈ db.trades, t.request_id ≠ req.request_id
  | .insertJournalLine .. => ∃ m, Numeric.store 20 4 req.amount = some m ∧ 0 < m.units
  | .updateCash .. => ∃ cash, db.getCash req.account_id = some cash ∧
      ∃ m, Numeric.store 20 4 (cash + req.cashDelta) = some m ∧ 0 ≤ m.units
  | _ => True

def admittedRetries (generated : UUID → Prop) (req : TradeRequestDto) (s : LedgerState)
    (a : LedgerAct) : Prop :=
  retriesOf generated req s a ∧ ∀ i ∈ nextOf req.request_id s a, i.Admitted s.db req

/-- A seeded ledger that has the account of the request. -/
def SeededFor (req : TradeRequestDto) (db : Db) : Prop :=
  Seeded db ∧ (db.getCash req.account_id).isSome = true

/-! ## What a call of the request asks -/

inductive Table where
  | trades
  | journal_entries
  | journal_lines
  | accounts
  | audit_log
  | outbox_events
  deriving DecidableEq

/-- The table that the statement writes. -/
def Statement.table? : Statement → Option Table
  | .insertTrade .. => some .trades
  | .insertJournalEntry .. => some .journal_entries
  | .insertJournalLine .. => some .journal_lines
  | .updateCash .. => some .accounts
  | .insertAudit .. => some .audit_log
  | .insertOutbox .. => some .outbox_events
  | _ => none

def Write.table : Write → Table
  | .trade _ => .trades
  | .journalEntry _ => .journal_entries
  | .journalLine _ => .journal_lines
  | .account _ => .accounts
  | .audit _ => .audit_log
  | .outbox _ => .outbox_events

/-- None of the statements writes the table. -/
def Untouched (k : Table) (is : List Statement) : Prop := ∀ i ∈ is, i.table? ≠ some k

/-- The statement, made after `is`, is one of `postTrade` on the request, and
writes no table but the journal's lines a second time. -/
def Statement.Asks (req : TradeRequestDto) (is : List Statement) : Statement → Prop
  | .insertTrade _ r a y d q p _ v _ =>
    r = req.request_id ∧ a = req.account_id ∧ y = req.symbol ∧ d = req.side ∧
      q = req.quantity ∧ p = req.price ∧ (∃ re, varchar? 32 "rejection_reason" v = .ok re) ∧
      Untouched .trades is
  | .insertJournalEntry _ r a _ =>
    r = req.request_id ∧ a = req.account_id ∧ Untouched .journal_entries is ∧
      ∃ i a y d q p t v c, .insertTrade i r a y d q p t v c ∈ is
  | .insertJournalLine j a d c =>
    (a = "securities" ∨ a = req.account_id) ∧
      (d = req.amount ∧ c = 0 ∨ d = 0 ∧ c = req.amount) ∧
      ∃ r a c, .insertJournalEntry j r a c ∈ is
  | .updateCash a d => a = req.account_id ∧ d = req.cashDelta ∧ Untouched .accounts is
  | .insertAudit _ a _ _ _ v _ =>
    a = req.account_id ∧ (∃ re, varchar? 64 "reason" v = .ok re) ∧ Untouched .audit_log is
  | .insertOutbox _ t _ _ => t = "LedgerUpdated" ∧ Untouched .outbox_events is
  | _ => True

/-- The cash of an account that exists is there. -/
def Statement.Finds (account : String) : (i : Statement) → i.Result → Prop
  | .getCash a, cash => a = account → cash.isSome = true
  | _, _ => True

section Asks

variable {req : TradeRequestDto} {is : List Statement}

/-- A program of the request's statements that raises nothing itself. -/
abbrev AskedFor (req : TradeRequestDto) {α : Type} (is : List Statement) (p : Tx α) : Prop :=
  p.Under (Statement.Finds req.account_id) (Statement.Asks req) (fun _ => False) is

/-- From the tables that the statements write, in their order. -/
theorem untouched_of_tables {k : Table} (tables : List (Option Table))
    (h : is.map Statement.table? = tables) (hk : some k ∉ tables) : Untouched k is := by
  intro i hi hik
  exact hk (h ▸ hik ▸ List.mem_map_of_mem hi)

theorem Untouched.append {k : Table} {is' : List Statement} (h : Untouched k is)
    (h' : Untouched k is') : Untouched k (is ++ is') := by
  intro j hj
  rcases List.mem_append.mp hj with hj | hj
  · exact h j hj
  · exact h' j hj

theorem Untouched.drawn {k : Table} {is' : List Statement} (h : Untouched k is)
    (hd : ∀ i ∈ is', i = .randomUUID) : Untouched k (is ++ is') := by
  refine h.append fun j hj => ?_
  rw [hd j hj]
  exact Option.some_ne_none k ∘ Eq.symm

theorem settle_asks {mdc : Option String} {j : UUID} {p : BigDecimal} {now : OffsetDateTime}
    (hacc : Untouched .accounts is) (haudit : Untouched .audit_log is)
    (hout : Untouched .outbox_events is) : AskedFor req is (settle mdc req j p now) := by
  unfold settle
  refine under_perform ⟨rfl, rfl, hacc⟩ fun _ _ => under_perform trivial fun i _ => ?_
  refine under_perform ⟨rfl, ⟨_, rfl⟩, ?_⟩ fun _ _ => ?_
  · exact (haudit.append (untouched_of_tables [some .accounts] rfl (by decide))).append
      (untouched_of_tables [none] rfl (by decide))
  refine under_perform trivial fun o _ => ?_
  simp only [buildLedgerUpdatedEnvelope, Prog.bind_assoc, pure_eq, ret_bind]
  refine under_correlationIdOr trivial fun c is' hd => under_perform trivial fun e _ => ?_
  refine under_perform ⟨rfl, ?_⟩ fun _ _ => trivial
  refine .append (.drawn ?_ hd) (untouched_of_tables [none] rfl (by decide))
  simp only [List.append_assoc]
  exact hout.append
    (untouched_of_tables [some .accounts, none, some .audit_log, none] rfl (by decide))

/-- The account debited and the account credited are the two of the trade. -/
theorem refs_asked (req : TradeRequestDto) :
    (req.debited = "securities" ∨ req.debited = req.account_id) ∧
      (req.credited = "securities" ∨ req.credited = req.account_id) := by
  unfold TradeRequestDto.debited TradeRequestDto.credited
  cases req.isBuy <;> simp

theorem postTrade_asks {rules : ComplianceRules} {mdc : Option String} :
    AskedFor req [] (postTrade rules mdc req) := by
  rw [postTrade_eq]
  refine under_perform trivial fun existing _ => ?_
  cases existing with
  | some existing => trivial
  | none =>
    refine under_perform trivial fun now _ => under_perform trivial fun cash hcash => ?_
    obtain ⟨cash, rfl⟩ := Option.isSome_iff_exists.mp (hcash rfl)
    refine under_perform trivial fun p _ => ?_
    cases hv : rules.firstViolation (cash + req.cashDelta) (p + req.signedQty) with
    | some reason =>
      obtain ⟨hre, hre'⟩ := reason_fits hv
      rw [comply_some hv]
      refine under_perform trivial fun i _ => ?_
      refine under_perform ⟨rfl, rfl, rfl, rfl, rfl, rfl, hre, ?_⟩ fun _ _ => ?_
      · exact untouched_of_tables [none, none, none, none, none] rfl (by decide)
      refine under_perform trivial fun k _ => under_perform ⟨rfl, hre', ?_⟩ fun _ _ => trivial
      exact untouched_of_tables [none, none, none, none, none, some .trades, none] rfl (by decide)
    | none =>
      obtain ⟨hd, hc⟩ := refs_asked req
      rw [comply_none hv]
      refine under_perform trivial fun i _ => under_perform trivial fun j _ => ?_
      refine under_perform ⟨rfl, rfl, rfl, rfl, rfl, rfl, ⟨_, rfl⟩, ?_⟩ fun _ _ => ?_
      · exact untouched_of_tables [none, none, none, none, none, none] rfl (by decide)
      refine under_perform ⟨rfl, rfl, ?_, _, _, _, _, _, _, _, _, _,
        List.mem_append_right _ (List.mem_singleton_self _)⟩ fun _ _ => ?_
      · exact untouched_of_tables [none, none, none, none, none, none, some .trades] rfl
          (by decide)
      refine under_perform ⟨hd, .inl ⟨rfl, rfl⟩, _, _, _,
        List.mem_append_right _ (List.mem_singleton_self _)⟩ fun _ _ => ?_
      refine under_perform ⟨hc, .inr ⟨rfl, rfl⟩, _, _, _, List.mem_append_left _
        (List.mem_append_right _ (List.mem_singleton_self _))⟩ fun _ _ => ?_
      refine settle_asks ?_ ?_ ?_ <;>
        exact untouched_of_tables [none, none, none, none, none, none, some .trades,
          some .journal_entries, some .journal_lines, some .journal_lines] rfl (by decide)

end Asks

/-! ## What it finds -/

theorem note_table {e : LedgerEvent} (h : Answered e) {b : Write} (hb : e.note = some b) :
    e.stmt.table? = some b.table := by
  obtain ⟨i, r, n⟩ := e
  obtain ⟨w, d, h⟩ := h
  cases hb
  cases i with
  | updateCash a x =>
    obtain ⟨o, ho, -⟩ := Answered.updateCash ⟨w, d, h⟩
    obtain ⟨c, -, rfl⟩ := Option.map_eq_some_iff.mp ho.symm
    rfl
  | _ =>
    first
    | cases h
    | obtain ⟨a, -, heq⟩ := inserted_ok.mp h
      cases heq
      rfl

/-- A table that no statement of the trace writes is as committed. -/
theorem unwritten {α : Type} (row? : Write → Option α) {k : Table}
    (hrow : ∀ b a, row? b = some a → b.table = k) {es : List LedgerEvent}
    (ha : ∀ e ∈ es, Answered e) (h : Untouched k (es.map (·.stmt))) :
    (writesOf es).filterMap row? = [] := by
  rw [List.filterMap_eq_nil_iff]
  intro b hb
  obtain ⟨e, he, hnote⟩ := List.mem_filterMap.mp hb
  cases hr : row? b with
  | none => rfl
  | some a =>
    have htable := note_table (ha e he) hnote
    rw [hrow b a hr] at htable
    exact absurd htable (h _ (List.mem_map_of_mem he))

theorem getCash_isSome {db : Db} {i : String} :
    (db.getCash i).isSome = true ↔ ∃ x ∈ db.accounts.map (·.account_id), x.val = i := by
  simp [Db.getCash, List.find?_isSome]

theorem getCash_applyAll {db : Db} {i : String} (ws : List Write)
    (h : (db.getCash i).isSome = true) : ((engine.applyAll db ws).getCash i).isSome = true := by
  rw [getCash_isSome] at h ⊢
  rwa [account_ids_applyAll]

theorem updateCash_stores {db : Db} {i : String} {cash delta : BigDecimal} {m : Money}
    (hcash : db.getCash i = some cash) (hm : Numeric.store 20 4 (cash + delta) = some m)
    (hpos : 0 ≤ m.units) : ∃ b, db.updateCash i delta = .ok (some b) := by
  obtain ⟨a, ha, rfl⟩ := Option.map_eq_some_iff.mp hcash
  refine ⟨{ a with cash_balance := m }, ?_⟩
  simp only [Db.updateCash, ha, except_bind_ok, require_ok, numeric_ok]
  exact ⟨m, hm, (), hpos, rfl⟩

/-- What a transaction of the request has done, beside its committed ledger. -/
structure Underway (req : TradeRequestDto) (db : Db) (es : List LedgerEvent) : Prop where
  valid : req.Valid
  text : ∀ a ∈ db.accounts, '\x00' ∉ a.account_id.val.toList
  account : (db.getCash req.account_id).isSome = true
  answered : ∀ e ∈ es, Answered e
  unbooked : ∀ i a y d q p t v c,
    .insertTrade i req.request_id a y d q p t v c ∈ es.map (·.stmt) →
    ∀ e ∈ db.journal_entries, e.source_event_id ≠ req.request_id

theorem Statement.Asks.answers {req : TradeRequestDto} {db : Db} {es : List LedgerEvent}
    {i : Statement} (hi : i.Asks req (es.map (·.stmt))) (h : Underway req db es)
    (hnew : i.InsertsNew db) (hadm : i.Admitted db req) (w : Ambient) :
    ∃ r b, engine.exec i w (engine.applyAll db (writesOf es)) = .ok (r, b) := by
  obtain ⟨cash, hcash⟩ := Option.isSome_iff_exists.mp h.account
  obtain ⟨ac, hac, x, hx, hxa⟩ := account_of_getCash h.text hcash
  have hacc : ∃ b ∈ (engine.applyAll db (writesOf es)).accounts, b.account_id = ac := by
    have hid : ac ∈ (engine.applyAll db (writesOf es)).accounts.map (·.account_id) := by
      rw [account_ids_applyAll]
      exact List.mem_map.mpr ⟨x, hx, hxa⟩
    exact List.mem_map.mp hid
  cases i with
  | insertTrade i r a y d q p t v c =>
    obtain ⟨rfl, rfl, rfl, rfl, rfl, rfl, ⟨re, hre⟩, hun⟩ := hi
    have hrows := unwritten Write.trade? (by rintro ⟨⟩ _ ⟨⟩; rfl) h.answered hun
    have htrades : (engine.applyAll db (writesOf es)).trades = db.trades := by simp [hrows]
    obtain ⟨t, ht⟩ := insertTrade_fits hac hacc hadm.1 h.valid hre
      (by rw [htrades]; exact hnew) (by rw [htrades]; exact hadm.2)
    exact ⟨_, _, inserted_eq ht⟩
  | insertJournalEntry j r a c =>
    obtain ⟨rfl, rfl, hun, _, _, _, _, _, _, _, _, _, hmem⟩ := hi
    have hrows := unwritten Write.journalEntry? (by rintro ⟨⟩ _ ⟨⟩; rfl) h.answered hun
    have hentries : (engine.applyAll db (writesOf es)).journal_entries = db.journal_entries := by
      simp [hrows]
    obtain ⟨e, he⟩ := insertJournalEntry_fits hac hacc (by rw [hentries]; exact hnew)
      (by rw [hentries]; exact h.unbooked _ _ _ _ _ _ _ _ _ hmem)
    exact ⟨_, _, inserted_eq he⟩
  | insertJournalLine j a d c =>
    obtain ⟨ha, hamount, _, _, _, hmem⟩ := hi
    obtain ⟨m, hm, hpos⟩ := hadm
    have hentry : ∃ e ∈ (engine.applyAll db (writesOf es)).journal_entries,
        e.journal_entry_id = j := by
      obtain ⟨⟨st, res, n⟩, he, rfl⟩ := List.mem_map.mp hmem
      obtain ⟨e, hn, _, hins⟩ := Answered.insertJournalEntry (h.answered _ he)
      refine ⟨e, ?_, hins.journal_entry_id⟩
      rw [journal_entries_applyAll]
      exact List.mem_append_right _ (List.mem_filterMap.mpr
        ⟨_, List.mem_filterMap.mpr ⟨_, he, hn⟩, rfl⟩)
    obtain ⟨rf, hrf⟩ : ∃ rf, Varchar.store 64 a = some rf := by
      rcases ha with rfl | rfl
      · exact ⟨⟨"securities", by decide⟩, by decide⟩
      · exact ⟨ac, hac⟩
    rcases hamount with ⟨rfl, rfl⟩ | ⟨rfl, rfl⟩
    · obtain ⟨l, hl⟩ := insertJournalLine_fits hrf hm store_zero (.inl ⟨hpos, rfl⟩) hentry
      exact ⟨_, _, inserted_eq hl⟩
    · obtain ⟨l, hl⟩ := insertJournalLine_fits hrf store_zero hm (.inr ⟨hpos, rfl⟩) hentry
      exact ⟨_, _, inserted_eq hl⟩
  | updateCash a d =>
    obtain ⟨rfl, rfl, hun⟩ := hi
    obtain ⟨cash', hcash', m, hm, hpos⟩ := hadm
    have hrows := unwritten Write.account? (by rintro ⟨⟩ _ ⟨⟩; rfl) h.answered hun
    have haccounts : (engine.applyAll db (writesOf es)).accounts = db.accounts := by simp [hrows]
    have hview := (getCash_of_accounts haccounts req.account_id).trans hcash'
    obtain ⟨b, hb⟩ := updateCash_stores hview hm hpos
    refine ⟨(), some (.account b), ?_⟩
    change (Db.updateCash _ _ _).map (fun o => ((), o.map Write.account)) = _
    rw [hb]
    rfl
  | insertAudit i a r n o v c =>
    obtain ⟨rfl, ⟨re, hre⟩, hun⟩ := hi
    have hrows := unwritten Write.audit? (by rintro ⟨⟩ _ ⟨⟩; rfl) h.answered hun
    have hlog : (engine.applyAll db (writesOf es)).audit_log = db.audit_log := by simp [hrows]
    obtain ⟨row, hrow⟩ := insertAudit_fits hac hre (by rw [hlog]; exact hnew)
    exact ⟨_, _, inserted_eq hrow⟩
  | insertOutbox i t p c =>
    obtain ⟨rfl, hun⟩ := hi
    have hrows := unwritten Write.outbox? (by rintro ⟨⟩ _ ⟨⟩; rfl) h.answered hun
    have hbox : (engine.applyAll db (writesOf es)).outbox_events = db.outbox_events := by
      simp [hrows]
    have htype : Varchar.store 64 "LedgerUpdated" = some ⟨"LedgerUpdated", by decide⟩ := by decide
    obtain ⟨o, ho⟩ := insertOutbox_fits htype (by rw [hbox]; exact hnew)
    exact ⟨_, _, inserted_eq ho⟩
  | _ => exact ⟨_, _, rfl⟩

/-! ## Runs -/

section Runs

variable {rules : ComplianceRules} {generated : UUID → Prop} {req : TradeRequestDto}
  {s : LedgerState}

/-- A call of the request is a call with its content. -/
theorem content_of_call {t : LedgerTxn} (hcontent : sameContent req (.begin t.call))
    (hr : t.call.requestId? = some req.request_id) : ∃ mdc, t.call = .postTrade mdc req := by
  cases hc : t.call with
  | postTrade mdc q =>
    rw [hc] at hcontent hr
    exact ⟨mdc, by rw [hcontent (Option.some.inj hr)]⟩
  | creditAccount =>
    rw [hc] at hr
    cases hr

/-- **No call of the request raises** where each of its statements is admitted. -/
theorem no_raise (hvalid : req.Valid)
    (h : Reach (ledgerStep rules) (admittedRetries generated req) (initial (SeededFor req)) s)
    {n : Nat} {t : LedgerTxn} (get : s.txns[n]? = some t)
    (hr : t.call.requestId? = some req.request_id) (hactive : t.status = .active) :
    NoRaise (admittedRetries generated req) s n t := by
  have hmem := List.mem_of_getElem? get
  have hreach : Reach (ledgerStep rules) (generatedApart generated) (initial Seeded) s :=
    h.mono (fun _ hs => ⟨hs.1.1, hs.2⟩) fun _ _ ha => ha.1.1
  have hf := faithful hreach t hmem
  obtain ⟨hacct, hviews⟩ := answered_on (I := fun db => (db.getCash req.account_id).isSome = true)
    (fun _ hd => hd.2) (fun d b hd => getCash_applyAll [b] hd) h
  obtain ⟨mdc, hcall⟩ := content_of_call (calls (fun _ _ ha => ha.1.2.1) h t hmem) hr
  have hasked : ¬ generated req.request_id := by
    have := calls (C := fun c => generatedApart generated s (.begin c)) (fun _ c ha => ?_) hreach t hmem
    · rw [hcall] at this
      exact this
    · cases c <;> exact ha
  -- what the call asks is what its program asks
  have hunder : AskedFor req [] (service rules t.call) := by
    rw [hcall]
    exact postTrade_asks.map
  have hfinds : ∀ e ∈ t.trace, e.stmt.Finds req.account_id e.res := by
    intro e he
    obtain ⟨w, d, hd, hexec⟩ := hviews t hmem e he
    obtain ⟨i, r, b⟩ := e
    cases i with
    | getCash a =>
      rintro rfl
      rw [← (Prod.mk.inj (Except.ok.inj hexec)).1]
      exact hd
    | _ => trivial
  have hrest := hunder.follows hf.follows hfinds
  rw [List.nil_append] at hrest
  refine ⟨fun e he => ?_, fun i k w hk hok => ?_⟩
  · rw [he] at hrest
    exact hrest
  · rw [hk] at hrest
    have hnext : nextOf req.request_id s (.stmt n w) = some i := by
      obtain ⟨c, es, p, st⟩ := t
      cases hk
      cases hactive
      simp only [nextOf, get]
      exact if_pos hr
    have hres := (requests_reserved hreach).fresh t hmem hactive
    refine hrest.1.answers ⟨hvalid, (Seeded.reachable hreach).2, hacct, hf.exec, ?_⟩
      (hok.1.2.2 i hnext) (hok.2 i hnext) w
    -- the call's own pending row keeps the request unbooked
    intro i' a y d q p st v c hin
    obtain ⟨e, he, hstmt⟩ := List.mem_map.mp hin
    obtain ⟨_, _, note⟩ := e
    cases hstmt
    obtain ⟨u, rfl, _, hu⟩ := Answered.insertTrade (hf.exec _ he)
    have hkey : req.request_id ∈ t.writes.filterMap requestKey := List.mem_filterMap.mpr
      ⟨.trade u, List.mem_filterMap.mpr ⟨_, he, rfl⟩, congrArg some hu.request_id⟩
    refine (balanced (fun _ h => h.empty) hreach req.request_id).unbooked hasked fun u' hu' heq => ?_
    exact hres _ hkey ⟨u', hu', heq⟩

/-- **One answer.** In every run whose statements for the request are admitted,
its calls leave one trade row and one entry at most, those that have returned
agree with the one that wrote the row, and none raises. -/
theorem retries_get_one_answer (hvalid : req.Valid)
    (h : Reach (ledgerStep rules) (admittedRetries generated req) (initial (SeededFor req)) s) :
    OneAnswer (admittedRetries generated req) req.request_id s := by
  have hreach : Reach (ledgerStep rules) (generatedApart generated) (initial Seeded) s :=
    h.mono (fun _ hs => ⟨hs.1.1, hs.2⟩) fun _ _ ha => ha.1.1
  have hbal := balanced (fun _ h => h.empty) hreach req.request_id
  have hans := answers_hold (fun _ h => h.empty) hreach
  refine ⟨?_, hbal.single, ?_, fun n t get hr hactive => no_raise hvalid h get hr hactive⟩
  · rw [postings_le]
    exact hbal.once
  · intro t ht q out hby hq
    obtain ⟨x, hx, hagrees⟩ := hans.answered t ht q out hby
    rw [hq] at hx
    obtain ⟨row, hrow, -⟩ := Option.map_eq_some_iff.mp ((findTradeByRequestId_eq ..).symm.trans hx)
    have hrow_id : row.request_id = req.request_id := by simpa using List.find?_some hrow
    obtain ⟨u, hu, q', out', hby', hq', hcreated⟩ :=
      hans.written row (List.mem_of_find?_eq_some hrow)
    obtain ⟨x', hx', hagrees'⟩ := hans.answered u hu q' out' hby'
    rw [hq', hrow_id, hx] at hx'
    cases hx'
    exact ⟨u, hu, q', out', hby', hq'.trans hrow_id, hcreated,
      hagrees.status.trans hagrees'.status.symm,
      hagrees.journal_entry_id.trans hagrees'.journal_entry_id.symm,
      hagrees.rejection_reason.trans hagrees'.rejection_reason.symm⟩

end Runs

/-! ## Schedules -/

instance decidableExistsSome {α : Type} (o : Option α) (p : α → Prop) [DecidablePred p] :
    Decidable (∃ a, o = some a ∧ p a) := inferInstanceAs (Decidable (∃ a ∈ o, p a))

theorem TradeRequestDto.fits_iff {req : TradeRequestDto} :
    req.Fits ↔ (Varchar.store 32 req.symbol).isSome = true ∧
      (∃ m, Numeric.store 20 4 req.quantity = some m ∧ 0 < m.units) ∧
      ∃ m, Numeric.store 20 4 req.price = some m ∧ 0 < m.units :=
  ⟨fun h => ⟨h.symbol, h.quantity, h.price⟩, fun h => ⟨h.1, h.2.1, h.2.2⟩⟩

instance (req : TradeRequestDto) : Decidable req.Fits :=
  decidable_of_iff _ TradeRequestDto.fits_iff.symm

instance (db : Db) : DecidablePred (Statement.InsertsNew db)
  | .insertTrade i .. => inferInstanceAs (Decidable (∀ t ∈ db.trades, t.trade_id ≠ i))
  | .insertJournalEntry j .. =>
    inferInstanceAs (Decidable (∀ e ∈ db.journal_entries, e.journal_entry_id ≠ j))
  | .insertAudit i .. => inferInstanceAs (Decidable (∀ a ∈ db.audit_log, a.audit_id ≠ i))
  | .insertOutbox i .. => inferInstanceAs (Decidable (∀ o ∈ db.outbox_events, o.event_id ≠ i))
  | .findTradeByRequestId _ | .getCash _ | .positionAfter .. | .insertJournalLine ..
  | .updateCash .. | .now | .randomUUID => .isTrue trivial

instance (db : Db) (req : TradeRequestDto) : DecidablePred (Statement.Admitted db req)
  | .insertTrade .. =>
    inferInstanceAs (Decidable (req.Fits ∧ ∀ t ∈ db.trades, t.request_id ≠ req.request_id))
  | .insertJournalLine .. =>
    inferInstanceAs (Decidable (∃ m, Numeric.store 20 4 req.amount = some m ∧ 0 < m.units))
  | .updateCash .. => inferInstanceAs (Decidable (∃ cash, db.getCash req.account_id = some cash ∧
      ∃ m, Numeric.store 20 4 (cash + req.cashDelta) = some m ∧ 0 ≤ m.units))
  | .findTradeByRequestId _ | .getCash _ | .positionAfter .. | .insertJournalEntry ..
  | .insertAudit .. | .insertOutbox .. | .now | .randomUUID => .isTrue trivial

instance (req : TradeRequestDto) : DecidablePred (sameContent req)
  | .begin (.postTrade _ q) =>
    inferInstanceAs (Decidable (q.request_id = req.request_id → q = req))
  | .begin (.creditAccount ..) | .stmt .. | .commit _ | .abort _ => .isTrue trivial

instance (generated : UUID → Prop) [DecidablePred generated] (req : TradeRequestDto)
    (s : LedgerState) (a : LedgerAct) : Decidable (retriesOf generated req s a) :=
  inferInstanceAs (Decidable (_ ∧ _))

instance (generated : UUID → Prop) [DecidablePred generated] (req : TradeRequestDto)
    (s : LedgerState) (a : LedgerAct) : Decidable (admittedRetries generated req s a) :=
  inferInstanceAs (Decidable (_ ∧ _))

/-- A purchase of ten at ten. -/
def retried : TradeRequestDto := ⟨uuid 1, "A", "X", "BUY", 10, 10, none⟩

theorem oneAccount_seededFor : SeededFor retried (oneAccount thousand) :=
  ⟨oneAccount_seeded, by decide +kernel⟩

/-- Two calls in flight; the second looks up after the first has committed. -/
def retryWaits : List LedgerAct :=
  [.begin (.postTrade (some "c") retried), .begin (.postTrade (some "d") retried)] ++
    stmts 0 16 100 0 ++ [.commit 0] ++ stmts 1 1 200 0 ++ [.commit 1]

theorem retries_get_one_answer_waiting : ∃ s : LedgerState, s.txns.length = 2 ∧
    OneAnswer (admittedRetries fromHundred retried) retried.request_id s := by
  obtain ⟨s, hs, hp⟩ := Reach.exists_of_run (ledgerStep ⟨100⟩) (admittedRetries fromHundred retried)
    (initial (SeededFor retried)) retryWaits (fun s => s.txns.length = 2)
    (s := ⟨oneAccount thousand, []⟩) ⟨oneAccount_seededFor, rfl⟩ (by decide +kernel)
  exact ⟨s, by simpa using hp, retries_get_one_answer (by decide +kernel) hs⟩

/-- The second call looks up before the first has committed. -/
def retryRaces : List LedgerAct :=
  [.begin (.postTrade (some "c") retried), .begin (.postTrade (some "d") retried)] ++
    stmts 1 6 200 0 ++ stmts 0 16 100 0 ++ [.commit 0]

/-- Transaction 1 is a call of the request whose next statement is an error. -/
def raisesNext (w : Ambient) (s : LedgerState) : Bool :=
  match (s.txns[1]? : Option LedgerTxn) with
  | some ⟨c, es, .call i _, .active⟩ =>
    c.requestId? = some retried.request_id && retriesOf fromHundred retried s (.stmt 1 w) &&
      (engine.exec i w (engine.applyAll s.db (writesOf es))).toOption.isNone
  | _ => false

/-- A call whose lookup is overtaken by another's commit ends with the violated
unique key, not with the other's answer. -/
theorem overtaken_retry_raises : retried.Valid ∧ ∃ s : LedgerState,
    Reach (ledgerStep ⟨100⟩) (retriesOf fromHundred retried) (initial (SeededFor retried)) s ∧
      ¬ OneAnswer (retriesOf fromHundred retried) retried.request_id s := by
  refine ⟨by decide +kernel, ?_⟩
  obtain ⟨s, hs, hp⟩ := Reach.exists_of_run (ledgerStep ⟨100⟩) (retriesOf fromHundred retried)
    (initial (SeededFor retried)) retryRaces (raisesNext ⟨uuid 206, 0⟩)
    (s := ⟨oneAccount thousand, []⟩) ⟨oneAccount_seededFor, rfl⟩ (by decide +kernel)
  refine ⟨s, hs, fun h => ?_⟩
  unfold raisesNext at hp
  split at hp
  · rename_i c es i k get
    simp only [Bool.and_eq_true, decide_eq_true_eq] at hp
    obtain ⟨⟨hr, hok⟩, herr⟩ := hp
    obtain ⟨r, b, hexec⟩ := (h.no_raise 1 _ get hr rfl).statement i k _ rfl hok
    rw [show engine.exec i _ (engine.applyAll s.db (writesOf es)) = .ok (r, b) from hexec] at herr
    cases herr
  · cases hp

end TradePulse.Ledger
