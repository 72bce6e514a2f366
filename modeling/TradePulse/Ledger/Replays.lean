import TradePulse.Ledger.Books

/-! # Answers to retried requests

The answer to a retry is not remembered: it is read back through a join of two
tables. It stays what it was because the row of a request is never joined by a
second one, a posted trade has its one journal entry from its commit on and a
rejected one never gets any. So what a lookup finds once it finds for ever. -/
namespace TradePulse.Ledger
open TradePulse.Core TradePulse.Core.Prog TradePulse.Core.Runs TradePulse.Core.Transactions

/-! ## Lookups are stable -/

/-- Where a trade row has no entry yet, no later balanced ledger has one. -/
theorem entry_none {G : UUID → Prop} {db : Db} {ws : List Write} {r : UUID} {t : Trade}
    (hb : Balanced G db r) (hb' : Balanced G (engine.applyAll db ws) r) (ht : t ∈ db.trades)
    (hr : t.request_id = r) (hnone : db.journal_entries.find? (·.source_event_id = r) = none) :
    (engine.applyAll db ws).journal_entries.find? (·.source_event_id = r) = none := by
  have h0 : entries r db.journal_entries = 0 := entries_fresh (by simpa using hnone)
  cases hs : t.status with
  | posted =>
    have hpos := postings_pos ht hr hs
    have hbooked := hb.booked
    omega
  | rejected =>
    have ht' : t ∈ (engine.applyAll db ws).trades := by
      rw [trades_applyAll]
      exact List.mem_append_left _ ht
    have hlen := List.length_pos_of_mem (mem_rejections ht' hr hs)
    have honce := hb'.once
    have hbooked := hb'.booked
    have hcases := hb'.cases
    have h0' : entries r (engine.applyAll db ws).journal_entries = 0 := by omega
    rw [List.find?_eq_none]
    intro e he heq
    have := entries_pos he (of_decide_eq_true heq)
    omega

theorem lookup_stable {G : UUID → Prop} {db : Db} {ws : List Write} {r : UUID}
    {x : TradeResultDto} (hb : Balanced G db r) (hb' : Balanced G (engine.applyAll db ws) r)
    (h : db.findTradeByRequestId r = some x) :
    (engine.applyAll db ws).findTradeByRequestId r = some x := by
  rw [findTradeByRequestId_eq] at h ⊢
  obtain ⟨t, ht, rfl⟩ := Option.map_eq_some_iff.mp h
  have hr : t.request_id = r := by simpa using List.find?_some ht
  rw [trades_applyAll, find?_append_of_some ht, Option.map_some]
  cases he : db.journal_entries.find? (·.source_event_id = r) with
  | none => rw [entry_none hb hb' (List.mem_of_find?_eq_some ht) hr he]
  | some e => rw [journal_entries_applyAll, find?_append_of_some he]

/-! ## What a call answers and what the row says -/

/-- The answer to a request agrees with the row `x` that a lookup finds: in its
decision and, for the call that wrote the row, up to what the columns hold. -/
structure AgreesWith (req : TradeRequestDto) (out : PostOutcome) (x : TradeResultDto) : Prop where
  status : out.result.status = x.status
  rejection_reason : out.result.rejection_reason = x.rejection_reason
  journal_entry_id : out.result.journal_entry_id = x.journal_entry_id
  replayed : out.created = false → out.result = x
  written : out.created = true → out.result.symbol = req.symbol ∧ out.result.side = req.side ∧
    (Varchar.store 32 req.symbol).map (·.val) = some x.symbol ∧
    (Varchar.store 4 req.side).map (·.val) = some x.side

theorem PostedRows.agrees {req : TradeRequestDto} {v : Draws} (rows : PostedRows req v) {db : Db}
    (ht : ∀ t ∈ db.trades, t.request_id ≠ req.request_id)
    (he : ∀ e ∈ db.journal_entries, e.source_event_id ≠ req.request_id) :
    ∃ x, (engine.applyAll db rows.writes).findTradeByRequestId req.request_id = some x ∧
      AgreesWith req (v.outcome req) x := by
  obtain ⟨_, htrade⟩ := rows.trade_ok
  obtain ⟨_, hentry⟩ := rows.entry_ok
  have hes : rows.writes.filterMap Write.journalEntry? = [rows.entry] :=
    rows.project _ fun _ => rfl
  have hreason : rows.trade.rejection_reason = none := by
    have := htrade.rejection_reason
    simpa [varchar?, eq_comm] using this
  refine ⟨tradeResultMapper rows.trade (some rows.entry), ?_, ?_⟩
  · have hfind : (db.trades ++ [rows.trade]).find? (·.request_id = req.request_id) =
        some rows.trade :=
      find?_append_fresh (by simpa using ht) (by simp [htrade.request_id])
    have hfind' : (db.journal_entries ++ [rows.entry]).find?
        (·.source_event_id = req.request_id) = some rows.entry :=
      find?_append_fresh (by simpa using he) (by simp [hentry.source_event_id])
    rw [findTradeByRequestId_eq, trades_applyAll, rows.trades, journal_entries_applyAll, hes,
      hfind, hfind', Option.map_some]
  · refine ⟨?_, ?_, ?_, (fun h => Bool.noConfusion h), fun _ => ⟨rfl, rfl, ?_, ?_⟩⟩
    · exact htrade.status.symm
    · simp [Draws.outcome, tradeResultMapper, hreason]
    · simp [Draws.outcome, tradeResultMapper, hentry.journal_entry_id]
    · rw [htrade.symbol]
      rfl
    · rw [htrade.side]
      rfl

theorem RejectedRows.agrees {req : TradeRequestDto} {reason : String}
    (rows : RejectedRows req reason) {db : Db} (hlen : reason.length ≤ 32)
    (ht : ∀ t ∈ db.trades, t.request_id ≠ req.request_id)
    (he : ∀ e ∈ (engine.applyAll db rows.writes).journal_entries,
      e.source_event_id ≠ req.request_id) :
    ∃ x, (engine.applyAll db rows.writes).findTradeByRequestId req.request_id = some x ∧
      AgreesWith req (rejection req reason) x := by
  obtain ⟨_, _, _, htrade⟩ := rows.trade_ok
  have hreason := varchar?_ok hlen htrade.rejection_reason
  have hnone : (engine.applyAll db rows.writes).journal_entries.find?
      (·.source_event_id = req.request_id) = none := List.find?_eq_none.mpr (by simpa using he)
  refine ⟨tradeResultMapper rows.trade none, ?_, ?_⟩
  · rw [findTradeByRequestId_eq, trades_applyAll, rows.trades, hnone,
      find?_append_fresh (by simpa using ht) (by simp [htrade.request_id]), Option.map_some]
  · refine ⟨?_, ?_, rfl, nofun, fun _ => ⟨rfl, rfl, ?_, ?_⟩⟩
    · exact htrade.status.symm
    · exact hreason.symm
    · rw [htrade.symbol]
      rfl
    · rw [htrade.side]
      rfl

/-! ## Whole runs -/

/-- A committed transaction that answered a request so. -/
structure Replied (t : LedgerTxn) (req : TradeRequestDto) (out : PostOutcome) : Prop where
  call : ∃ mdc, t.call = .postTrade mdc req
  committed : t.status = .committed
  rest : t.rest = .ret (.trade out)

/-- What a transaction has found it still finds, and what it has answered the
row of its request says; every row has been answered for. -/
structure AnswersHold (s : LedgerState) : Prop where
  found : ∀ t ∈ s.txns, ∀ r x n es, t.trace = ⟨.findTradeByRequestId r, some x, n⟩ :: es →
    s.db.findTradeByRequestId r = some x
  answered : ∀ t ∈ s.txns, ∀ req out, Replied t req out →
    ∃ x, s.db.findTradeByRequestId req.request_id = some x ∧ AgreesWith req out x
  written : ∀ u ∈ s.db.trades, ∃ t ∈ s.txns, ∃ req out, Replied t req out ∧
    req.request_id = u.request_id ∧ out.created = true

section Runs

variable {rules : ComplianceRules} {generated : UUID → Prop} {P : Db → Prop} {s : LedgerState}

/-- Only a trade that returns an outcome writes a trade row. -/
theorem finished_of_trade {c : Call} {es : List LedgerEvent} {r : Reply}
    (h : Finished rules c es r) {u : Trade} (hu : .trade u ∈ writesOf es) :
    ∃ mdc req out, c = .postTrade mdc req ∧ r = .trade out := by
  cases h with
  | duplicate => exact ⟨_, _, _, rfl, rfl⟩
  | rejected => exact ⟨_, _, _, rfl, rfl⟩
  | posted => exact ⟨_, _, _, rfl, rfl⟩
  | credited trace drawn rows writes =>
    have hmem := List.mem_filterMap.mpr ⟨_, hu, (rfl : Write.trade? (.trade u) = some u)⟩
    rw [writes, rows.trades] at hmem
    cases hmem

/-- A commit of a trade leaves the answer in the tables. -/
theorem committed {s : LedgerState} {n : Nat} {mdc : Option String} {req : TradeRequestDto}
    {es : List LedgerEvent} {out : PostOutcome}
    (hs : Reach (ledgerStep rules) (generatedApart generated) (initial P) s)
    (get : s.txns[n]? = some ⟨.postTrade mdc req, es, .ret (.trade out), .active⟩)
    (hfound : ∀ t ∈ s.txns, ∀ r x n es, t.trace = ⟨.findTradeByRequestId r, some x, n⟩ :: es →
      s.db.findTradeByRequestId r = some x)
    (hb : ∀ r, Balanced generated (engine.applyAll s.db (writesOf es)) r) :
    (∃ x, (engine.applyAll s.db (writesOf es)).findTradeByRequestId req.request_id = some x ∧
      AgreesWith req out x) ∧
    ∀ u, .trade u ∈ writesOf es → u.request_id = req.request_id ∧ out.created = true := by
  have hmem := List.mem_of_getElem? get
  have hf := faithful hs _ hmem
  have hreq := (requests_reserved hs).fresh _ hmem rfl
  have hsrc := (sources_reserved hs).fresh _ hmem rfl
  simp only [Txn.writes] at hreq hsrc
  obtain ⟨out', hfollows, hout⟩ := follows_map hf.follows
  cases hout
  generalize hc : Call.postTrade mdc req = c at hf
  generalize hr : Reply.trade out = r at hf
  cases finished hf with
  | @duplicate mdc' req' es existing writes =>
    cases hc
    cases hr
    cases postTrade_trace hfollows with
    | duplicate =>
      have hx := hfound _ hmem _ _ _ _ rfl
      rw [writes]
      exact ⟨⟨existing, hx, rfl, rfl, rfl, fun _ => rfl, fun h => Bool.noConfusion h⟩, by simp⟩
  | @rejected mdc' req' es reason _ _ violation rows writes =>
    cases hc
    cases hr
    obtain ⟨_, _, _, ht⟩ := rows.trade_ok
    rw [writes] at hreq hb ⊢
    refine ⟨rows.agrees (firstViolation_length violation) (fun t ht' he => ?_) ?_, ?_⟩
    · exact hreq req.request_id (by simp [RejectedRows.writes, List.filterMap_cons, requestKey,
        ht.request_id]) ⟨t, ht', he⟩
    · have hmem' : rows.trade ∈ (engine.applyAll s.db rows.writes).trades := by simp
      have := ((OneToOne.of_balanced hb).rejected _ hmem' ht.status).2.1
      rwa [ht.request_id] at this
    · intro u hu
      obtain rfl : u = rows.trade := by simpa [RejectedRows.writes] using hu
      exact ⟨ht.request_id, rfl⟩
  | @posted mdc' req' es v trace rows writes read compliant =>
    cases hc
    cases hr
    obtain ⟨_, ht⟩ := rows.trade_ok
    obtain ⟨_, he⟩ := rows.entry_ok
    rw [writes] at hreq hsrc ⊢
    rw [rows.project _ fun _ => rfl] at hreq hsrc
    refine ⟨rows.agrees (fun t ht' heq => ?_) fun e he' heq => ?_, ?_⟩
    · exact hreq req.request_id (by simp [List.filterMap_cons, requestKey, ht.request_id])
        ⟨t, ht', heq⟩
    · exact hsrc req.request_id (by simp [List.filterMap_cons, sourceKey, he.source_event_id])
        ⟨e, he', heq⟩
    · intro u hu
      obtain rfl : u = rows.trade := by
        have := List.mem_filterMap.mpr ⟨_, hu, (rfl : Write.trade? (.trade u) = some u)⟩
        rwa [rows.trades, List.mem_singleton] at this
      exact ⟨ht.request_id, rfl⟩
  | credited => cases hc

/-- **Answers hold.** In every run, what a request has been answered is what
its row says in every later committed state. -/
theorem answers_hold (hP : ∀ db, P db → NothingBooked db)
    (h : Reach (ledgerStep rules) (generatedApart generated) (initial P) s) : AnswersHold s := by
  induction h with
  | init h =>
    obtain ⟨hdb, htx⟩ := h
    exact ⟨by simp [htx], by simp [htx], by simp [(hP _ hdb).1]⟩
  | @step s s' a hs ha hst ih =>
    have hb := balanced hP hs
    have hb' := balanced hP (hs.step ha hst)
    cases step_cases hst with
    | begin c =>
      refine ⟨fun t ht => ?_, fun t ht => ?_, fun u hu => ?_⟩
      · rcases List.mem_append.mp ht with ht | ht
        · exact ih.found t ht
        · rw [List.mem_singleton.mp ht]
          intro r x m es htrace
          cases htrace
      · rcases List.mem_append.mp ht with ht | ht
        · exact ih.answered t ht
        · rw [List.mem_singleton.mp ht]
          intro req out hby
          cases hby.committed
      · obtain ⟨t, ht, hrest⟩ := ih.written u hu
        exact ⟨t, List.mem_append_left _ ht, hrest⟩
    | @stmt n w c es i k r b get exec free =>
      refine ⟨fun t ht => ?_, fun t ht => ?_, fun u hu => ?_⟩
      · rcases mem_put ht with rfl | ht
        · intro r x m es' htrace
          cases es with
          | nil =>
            cases htrace
            exact (Prod.mk.inj (Except.ok.inj exec)).1
          | cons e es =>
            simp only [List.cons_append, List.cons.injEq] at htrace
            obtain ⟨rfl, -⟩ := htrace
            exact ih.found _ (List.mem_of_getElem? get) _ _ _ _ rfl
        · exact ih.found t ht
      · rcases mem_put ht with rfl | ht
        · intro req out hby
          cases hby.committed
        · exact ih.answered t ht
      · obtain ⟨t, ht, req, out, hby, hrest⟩ := ih.written u hu
        have hfin : t.status ≠ .active := by rw [hby.committed]; nofun
        exact ⟨t, mem_put_of_finished get rfl ht hfin, req, out, hby, hrest⟩
    | @commit n c es a get =>
      have stable : ∀ r x, s.db.findTradeByRequestId r = some x →
          (engine.applyAll s.db (writesOf es)).findTradeByRequestId r = some x :=
        fun r x hx => lookup_stable (hb r) (hb' r) hx
      refine ⟨fun t ht => ?_, fun t ht => ?_, fun u hu => ?_⟩
      · intro r x m es' htrace
        rcases mem_put (s := s) ht with rfl | ht
        · exact stable _ _ (ih.found _ (List.mem_of_getElem? get) _ _ _ _ htrace)
        · exact stable _ _ (ih.found t ht _ _ _ _ htrace)
      · intro req out hby
        rcases mem_put (s := s) ht with rfl | ht
        · obtain ⟨⟨mdc, hcall⟩, -, hrest⟩ := hby
          cases hcall
          cases hrest
          exact (committed hs get ih.found hb').1
        · obtain ⟨x, hx, hagrees⟩ := ih.answered t ht req out hby
          exact ⟨x, stable _ _ hx, hagrees⟩
      · change u ∈ (engine.applyAll s.db (writesOf es)).trades at hu
        rw [trades_applyAll, List.mem_append] at hu
        rcases hu with hu | hu
        · obtain ⟨t, ht, req, out, hby, hrest⟩ := ih.written u hu
          have hfin : t.status ≠ .active := by rw [hby.committed]; nofun
          exact ⟨t, mem_put_of_finished get rfl ht hfin, req, out, hby, hrest⟩
        · have hu : .trade u ∈ writesOf es := by
            obtain ⟨w, hw, hwu⟩ := List.mem_filterMap.mp hu
            cases w <;> cases hwu
            exact hw
          obtain ⟨mdc, req, out, rfl, rfl⟩ := finished_of_trade
            (finished (faithful hs _ (List.mem_of_getElem? get))) hu
          obtain ⟨hr, hcreated⟩ := (committed hs get ih.found hb').2 u hu
          have hmem := mem_put_self get
            ⟨.postTrade mdc req, es, .ret (.trade out), .committed⟩
          exact ⟨_, hmem, req, out, ⟨⟨mdc, rfl⟩, rfl, rfl⟩, hr.symm, hcreated⟩
    | @stop _ n t get active =>
      refine ⟨fun u hu => ?_, fun u hu => ?_, fun u hu => ?_⟩
      · rcases mem_put hu with rfl | hu
        · exact ih.found t (List.mem_of_getElem? get)
        · exact ih.found u hu
      · rcases mem_put hu with rfl | hu
        · intro req out hby
          cases hby.committed
        · exact ih.answered u hu
      · obtain ⟨u', hu', req, out, hby, hrest⟩ := ih.written u hu
        have hfin : u'.status ≠ .active := by rw [hby.committed]; nofun
        exact ⟨u', mem_put_of_finished get active hu' hfin, req, out, hby, hrest⟩

end Runs

end TradePulse.Ledger
