import TradePulse.Ledger.Books
import Mathlib.Algebra.BigOperators.Group.List.Basic

/-! # Double entry

Nothing in the schema ties two journal lines to each other: an entry balances
because the service writes a debit and a credit of one amount in the
transaction that writes the entry, and because both are rounded alike. An
entry's lines are found by its id, so the invariant also says that no line is
without its entry and that entry ids are new when they are committed. -/
namespace TradePulse.Ledger
open TradePulse.Core TradePulse.Core.Runs TradePulse.Core.Transactions

/-! ## Statement -/

/-- The rows of `journal_lines` that belong to an entry. -/
def Db.linesOf (db : Db) (e : JournalEntry) : List JournalLine :=
  db.journal_lines.filter (·.journal_entry_id = e.journal_entry_id)

/-- The account references that an entry debits and credits, by what caused it:
a posted trade of the account or a credit to it. -/
inductive Postings (db : Db) (e : JournalEntry) : String → String → Prop
  | buy {t : Trade} (mem : t ∈ db.trades) (posted : t.postedFor e.source_event_id = true)
      (account : t.account_id = e.account_id) (side : t.side.val = "BUY") :
      Postings db e "securities" e.account_id.val
  | sell {t : Trade} (mem : t ∈ db.trades) (posted : t.postedFor e.source_event_id = true)
      (account : t.account_id = e.account_id) (side : t.side.val = "SELL") :
      Postings db e e.account_id.val "securities"
  | credit {a : AuditRow} (mem : a ∈ db.audit_log) (credits : a.credits e.source_event_id = true)
      (account : a.account_id = e.account_id) : Postings db e e.account_id.val "funding"

/-- The entry has two lines, a debit and a credit of one positive amount. -/
structure DoubleEntry (db : Db) (e : JournalEntry) (debit credit : JournalLine) : Prop where
  lines : db.linesOf e = [debit, credit]
  positive : 0 < debit.debit.units
  equal : credit.credit = debit.debit
  debit_only : debit.credit.units = 0
  credit_only : credit.debit.units = 0
  postings : Postings db e debit.account_ref.val credit.account_ref.val

/-- Debits less credits. -/
def JournalLine.net (l : JournalLine) : BigDecimal := l.debit.toRat - l.credit.toRat

/-- The net of the account references that meet `p`. -/
def Db.netOf (db : Db) (p : String → Bool) : BigDecimal :=
  ((db.journal_lines.filter fun l => p l.account_ref.val).map JournalLine.net).sum

/-- The two references that are not customer accounts. -/
def isInternal (ref : String) : Bool := ref = "securities" || ref = "funding"

structure BooksBalance (db : Db) : Prop where
  entries : ∀ e ∈ db.journal_entries, ∃ debit credit, DoubleEntry db e debit credit
  totals : (db.journal_lines.map (·.debit.toRat)).sum = (db.journal_lines.map (·.credit.toRat)).sum
  customers : db.netOf (fun ref => !isInternal ref) = -db.netOf isInternal

/-! ## The invariant -/

theorem Postings.mono {db db' : Db} {e : JournalEntry} {d c : String}
    (ht : ∀ t ∈ db.trades, t ∈ db'.trades) (ha : ∀ a ∈ db.audit_log, a ∈ db'.audit_log)
    (h : Postings db e d c) : Postings db' e d c := by
  cases h with
  | buy mem posted account side => exact .buy (ht _ mem) posted account side
  | sell mem posted account side => exact .sell (ht _ mem) posted account side
  | credit mem credits account => exact .credit (ha _ mem) credits account

structure Doubled (db : Db) : Prop where
  entries : ∀ e ∈ db.journal_entries, ∃ debit credit, DoubleEntry db e debit credit
  owned : ∀ l ∈ db.journal_lines, ∃ e ∈ db.journal_entries,
    e.journal_entry_id = l.journal_entry_id
  zero : (db.journal_lines.map JournalLine.net).sum = 0

theorem sum_net (l : List JournalLine) : (l.map JournalLine.net).sum =
    (l.map (·.debit.toRat)).sum - (l.map (·.credit.toRat)).sum := by
  induction l with
  | nil => simp
  | cons a l ih =>
    simp only [List.map_cons, List.sum_cons, ih, JournalLine.net]
    ring

/-- What is true entry by entry adds up over the ledger. -/
theorem Doubled.balance {db : Db} (h : Doubled db) : BooksBalance db where
  entries := h.entries
  totals := by
    have hz := h.zero
    rw [sum_net] at hz
    linarith
  customers := by
    have hz := h.zero
    have hsplit := List.sum_map_filter_add_sum_map_filter_not
      (fun l : JournalLine => isInternal l.account_ref.val = true) JournalLine.net db.journal_lines
    simp only [Bool.decide_eq_true, Bool.not_eq_true, Bool.decide_eq_false, hz] at hsplit
    unfold Db.netOf
    linarith

/-- A commit of one entry with its two lines, beside rows of other tables. -/
structure Booking (db : Db) (ws : List Write) (e : JournalEntry) (debit credit : JournalLine) :
    Prop where
  entry : ws.filterMap Write.journalEntry? = [e]
  lines : ws.filterMap Write.journalLine? = [debit, credit]
  debit_id : debit.journal_entry_id = e.journal_entry_id
  credit_id : credit.journal_entry_id = e.journal_entry_id
  positive : 0 < debit.debit.units
  equal : credit.credit = debit.debit
  debit_only : debit.credit.units = 0
  credit_only : credit.debit.units = 0
  postings : Postings (engine.applyAll db ws) e debit.account_ref.val credit.account_ref.val
  fresh : ∀ f ∈ db.journal_entries, f.journal_entry_id ≠ e.journal_entry_id

theorem Numeric.toRat_zero {n : Money} (h : n.units = 0) : n.toRat = 0 := by
  rw [Numeric.toRat, h]
  norm_num

/-- Entries there were keep their lines: the new ones carry a new id. -/
theorem Doubled.commit {db : Db} {ws : List Write} {e : JournalEntry} {d c : JournalLine}
    (h : Doubled db) (hb : Booking db ws e d c) : Doubled (engine.applyAll db ws) where
  entries f hf := by
    rw [journal_entries_applyAll, hb.entry, List.mem_append, List.mem_singleton] at hf
    obtain hf | rfl := hf
    · obtain ⟨d', c', hd⟩ := h.entries f hf
      have hne : e.journal_entry_id ≠ f.journal_entry_id := (hb.fresh f hf).symm
      refine ⟨d', c', ?_, hd.positive, hd.equal, hd.debit_only, hd.credit_only,
        hd.postings.mono ?_ ?_⟩
      · rw [← hd.lines, Db.linesOf, journal_lines_applyAll, hb.lines, List.filter_append]
        simp [Db.linesOf, hb.debit_id, hb.credit_id, hne]
      · intro t ht
        rw [trades_applyAll]
        exact List.mem_append_left _ ht
      · intro a ha
        rw [audit_log_applyAll]
        exact List.mem_append_left _ ha
    · refine ⟨d, c, ?_, hb.positive, hb.equal, hb.debit_only, hb.credit_only, hb.postings⟩
      have hold : db.journal_lines.filter (·.journal_entry_id = f.journal_entry_id) = [] := by
        rw [List.filter_eq_nil_iff]
        intro l hl heq
        obtain ⟨g, hg, hid⟩ := h.owned l hl
        exact hb.fresh g hg (hid.trans (of_decide_eq_true heq))
      rw [Db.linesOf, journal_lines_applyAll, hb.lines, List.filter_append, hold]
      simp [hb.debit_id, hb.credit_id]
  owned l hl := by
    rw [journal_lines_applyAll, hb.lines, List.mem_append] at hl
    rw [journal_entries_applyAll, hb.entry]
    rcases hl with hl | hl
    · obtain ⟨g, hg, hid⟩ := h.owned l hl
      exact ⟨g, List.mem_append_left _ hg, hid⟩
    · refine ⟨e, List.mem_append_right _ (List.mem_singleton_self e), ?_⟩
      rcases List.mem_cons.mp hl with rfl | hl
      · exact hb.debit_id.symm
      · rw [List.mem_singleton.mp hl]
        exact hb.credit_id.symm
  zero := by
    rw [journal_lines_applyAll, hb.lines, List.map_append, List.sum_append, h.zero]
    simp [JournalLine.net, hb.equal, Numeric.toRat_zero hb.debit_only,
      Numeric.toRat_zero hb.credit_only]

/-- A commit that books nothing. -/
theorem Doubled.frame {db : Db} {ws : List Write} (h : Doubled db)
    (he : ws.filterMap Write.journalEntry? = []) (hl : ws.filterMap Write.journalLine? = []) :
    Doubled (engine.applyAll db ws) where
  entries f hf := by
    rw [journal_entries_applyAll, he, List.append_nil] at hf
    obtain ⟨d, c, hd⟩ := h.entries f hf
    refine ⟨d, c, ?_, hd.positive, hd.equal, hd.debit_only, hd.credit_only,
      hd.postings.mono ?_ ?_⟩
    · rw [← hd.lines, Db.linesOf, journal_lines_applyAll, hl, List.append_nil, Db.linesOf]
    · intro t ht
      rw [trades_applyAll]
      exact List.mem_append_left _ ht
    · intro a ha
      rw [audit_log_applyAll]
      exact List.mem_append_left _ ha
  owned l hmem := by
    rw [journal_lines_applyAll, hl, List.append_nil] at hmem
    rw [journal_entries_applyAll, he, List.append_nil]
    exact h.owned l hmem
  zero := by
    rw [journal_lines_applyAll, hl, List.append_nil]
    exact h.zero

/-! ## Commits -/

/-- The two lines of a credit are those of its entry. -/
theorem CreditTrace.linked {i : String} {x : BigDecimal} {v : Option String}
    {es : List LedgerEvent} {out : AdminCreditResult} (h : CreditTrace i x v es out)
    (ha : ∀ e ∈ es, Answered e) {e : JournalEntry} {l : JournalLine}
    (he : .journalEntry e ∈ writesOf es) (hl : .journalLine l ∈ writesOf es) :
    l.journal_entry_id = e.journal_entry_id := by
  cases h with
  | @credited now cash sourceEventId j k n₁ n₂ n₃ n₄ n₅ n₆ n₇ n₈ n₉ n₁₀ positive =>
    simp only [List.forall_mem_cons] at ha
    obtain ⟨a₁, a₂, a₃, a₄, a₅, a₆, a₇, a₈, a₉, a₁₀, -⟩ := ha
    obtain ⟨f, rfl, _, hf⟩ := a₅.insertJournalEntry
    obtain ⟨l₁, rfl, _, hl₁⟩ := a₆.insertJournalLine
    obtain ⟨l₂, rfl, _, hl₂⟩ := a₇.insertJournalLine
    obtain ⟨b, rfl, -⟩ := a₈.updateCash
    obtain ⟨r, rfl, -⟩ := a₁₀.insertAudit
    have h₁ : n₁ = none := a₁.silent rfl
    have h₂ : n₂ = none := a₂.silent rfl
    have h₃ : n₃ = none := a₃.silent rfl
    have h₄ : n₄ = none := a₄.silent rfl
    have h₉ : n₉ = none := a₉.silent rfl
    subst h₁ h₂ h₃ h₄ h₉
    have hf' : e = f := by cases b <;> simpa [writesOf] using he
    have hl' : l = l₁ ∨ l = l₂ := by cases b <;> simpa [writesOf] using hl
    rw [hf', hf.journal_entry_id]
    rcases hl' with rfl | rfl
    · exact hl₁.journal_entry_id
    · exact hl₂.journal_entry_id

/-- The two lines of one amount, whichever references they name. -/
theorem InsertsLine.pair {db db' : Db} {j k : UUID} {x y : String} {m : BigDecimal}
    {d c : JournalLine} (hd : InsertsLine db j x m 0 d) (hc : InsertsLine db' k y 0 m c) :
    0 < d.debit.units ∧ c.credit = d.debit ∧ d.credit.units = 0 ∧ c.debit.units = 0 := by
  have hzero : ∀ {n : Money}, Numeric.store 20 4 (0 : ℚ) = some n → n.units = 0 := by
    intro n hn
    rw [Numeric.store_units hn, zero_mul]
    exact roundHalfAway_intCast 0
  have hdc := hzero hd.credit
  have hcd := hzero hc.debit
  have hpos := hd.one_sided
  refine ⟨by omega, ?_, hdc, hcd⟩
  exact Option.some.inj (hc.credit.symm.trans hd.debit)

theorem InsertsEntry.account_ref {db db' : Db} {j k r : UUID} {a : String} {t : OffsetDateTime}
    {e : JournalEntry} {d c : BigDecimal} {l : JournalLine} (he : InsertsEntry db j r a t e)
    (hl : InsertsLine db' k a d c l) : l.account_ref = e.account_id :=
  Option.some.inj (hl.account_ref.symm.trans he.account_id)

/-- A reference that the service itself names is stored as it is. -/
theorem InsertsLine.internal {db : Db} {j : UUID} {ref : String} {d c : BigDecimal}
    {l : JournalLine} (h : InsertsLine db j ref d c l) (hlen : ref.length ≤ 64) :
    l.account_ref.val = ref := Varchar.store_of_length hlen h.account_ref

/-- A posted trade debits securities and credits its account, or the reverse. -/
theorem PostedRows.postings {req : TradeRequestDto} {v : Draws} (rows : PostedRows req v)
    (db : Db) : Postings (engine.applyAll db rows.writes) rows.entry
      rows.debit.account_ref.val rows.credit.account_ref.val := by
  obtain ⟨_, ht⟩ := rows.trade_ok
  obtain ⟨_, he⟩ := rows.entry_ok
  obtain ⟨_, hd⟩ := rows.debit_ok
  obtain ⟨_, hc⟩ := rows.credit_ok
  have mem : rows.trade ∈ (engine.applyAll db rows.writes).trades := by simp
  have posted : rows.trade.postedFor rows.entry.source_event_id = true := by
    simp [Trade.postedFor, ht.request_id, ht.status, he.source_event_id]
  have account : rows.trade.account_id = rows.entry.account_id :=
    Option.some.inj (ht.account_id.symm.trans he.account_id)
  cases hb : req.isBuy with
  | true =>
    simp only [TradeRequestDto.debited, TradeRequestDto.credited, hb, if_true] at hd hc
    have side : rows.trade.side.val = "BUY" := ht.side_buy.mpr (of_decide_eq_true hb).symm
    rw [hd.internal (by decide), he.account_ref hc]
    exact .buy mem posted account side
  | false =>
    simp only [TradeRequestDto.debited, TradeRequestDto.credited, hb, Bool.false_eq_true,
      if_false] at hd hc
    have side : rows.trade.side.val = "SELL" := by
      obtain hbuy | hsell := ht.known_side
      · exact absurd (ht.side_buy.mp hbuy).symm (of_decide_eq_false hb)
      · exact hsell
    rw [hc.internal (by decide), he.account_ref hd]
    exact .sell mem posted account side

/-- Every commit books nothing, or one entry with its two lines. -/
theorem Finished.booking {rules : ComplianceRules} {c : Call} {es : List LedgerEvent} {r : Reply}
    (h : Finished rules c es r) (ha : ∀ e ∈ es, Answered e) {db : Db}
    (hfresh : ∀ e, .journalEntry e ∈ writesOf es →
      ∀ f ∈ db.journal_entries, f.journal_entry_id ≠ e.journal_entry_id) :
    ((writesOf es).filterMap Write.journalEntry? = [] ∧
      (writesOf es).filterMap Write.journalLine? = []) ∨
    ∃ e debit credit, Booking db (writesOf es) e debit credit := by
  cases h with
  | duplicate writes => exact .inl (by simp [writes])
  | rejected violation rows writes =>
    exact .inl (by simp [writes, RejectedRows.writes, List.filterMap_cons, Write.journalEntry?,
      Write.journalLine?])
  | @posted mdc req es v trace rows writes read compliant =>
    obtain ⟨_, he⟩ := rows.entry_ok
    obtain ⟨_, hd⟩ := rows.debit_ok
    obtain ⟨_, hc⟩ := rows.credit_ok
    obtain ⟨positive, equal, debit_only, credit_only⟩ := hd.pair hc
    rw [writes] at hfresh ⊢
    refine .inr ⟨rows.entry, rows.debit, rows.credit, rows.project _ fun _ => rfl,
      rows.project _ fun _ => rfl, ?_, ?_, positive, equal, debit_only, credit_only,
      rows.postings db, hfresh _ (by simp [PostedRows.writes])⟩
    · rw [hd.journal_entry_id, he.journal_entry_id]
    · rw [hc.journal_entry_id, he.journal_entry_id]
  | @credited i x v id es out trace drawn rows writes =>
    obtain ⟨_, _, _, he⟩ := rows.entry_ok
    obtain ⟨_, _, hd⟩ := rows.debit_ok
    obtain ⟨_, _, hc⟩ := rows.credit_ok
    obtain ⟨_, _, _, _, hau⟩ := rows.audit_ok
    obtain ⟨positive, equal, debit_only, credit_only⟩ := hd.pair hc
    have linked : ∀ l, .journalLine l ∈ rows.writes →
        l.journal_entry_id = rows.entry.journal_entry_id := fun l hl =>
      trace.linked ha (writes ▸ by simp [CreditRows.writes]) (writes ▸ hl)
    rw [writes] at hfresh ⊢
    refine .inr ⟨rows.entry, rows.debit, rows.credit, rows.project _ fun _ => rfl,
      rows.project _ fun _ => rfl, linked _ (by simp [CreditRows.writes]),
      linked _ (by simp [CreditRows.writes]), positive, equal,
      debit_only, credit_only, ?_, hfresh _ (by simp [CreditRows.writes])⟩
    rw [he.account_ref hd, hc.internal (by decide)]
    refine .credit (a := rows.audit) ?_ ?_ ?_
    · have haudit : rows.writes.filterMap Write.audit? = [rows.audit] := rows.project _ fun _ => rfl
      simp [haudit]
    · simp [AuditRow.credits, hau.source_event_id, hau.action, he.source_event_id]
    · exact Option.some.inj (hau.account_id.symm.trans he.account_id)

/-! ## Whole runs -/

/-- The primary key of a journal entry row. -/
def entryKey : Write → Option UUID
  | .journalEntry e => some e.journal_entry_id
  | _ => none

section Runs

variable {rules : ComplianceRules} {P : Db → Prop} {ok : LedgerState → LedgerAct → Prop}
  {s : LedgerState}

/-- The journal entries about to be committed have new ids. -/
theorem entries_reserved (h : Reach (ledgerStep rules) ok (initial P) s) :
    Reserved entryKey (fun db j => ∃ e ∈ db.journal_entries, e.journal_entry_id = j) s := by
  refine reserved (fun db b r => ?_) (fun i w db res b r hexec hkey => ?_)
    (fun b b' r hb hb' => ?_) h
  · cases b <;> simp [engine, Db.apply, entryKey, or_and_right, exists_or]
  · cases b with
    | journalEntry e =>
      cases hkey
      rintro ⟨f, hf, he⟩
      obtain ⟨_, _, hi⟩ := exec_journalEntry hexec
      exact hi.new_id f hf he
    | _ => cases hkey
  · cases b with
    | journalEntry e =>
      cases b' with
      | journalEntry e' =>
        simp only [entryKey, Option.some.injEq] at hb hb'
        simp [engine, Write.conflicts, hb, hb']
      | _ => cases hb'
    | _ => cases hb

/-- Accounts, nothing booked yet and no journal line. -/
def EmptyBooks (db : Db) : Prop := NothingBooked db ∧ db.journal_lines = []

/-- **Double entry balances.** Whatever interleaves and wherever a call stops,
in every committed state each journal entry has exactly a debit and a credit of
one positive amount, on its account and on `securities` or `funding`. -/
theorem double_entry_balances (h : Reach (ledgerStep rules) ok (initial EmptyBooks) s) :
    BooksBalance s.db := by
  refine Doubled.balance (db_invariant (I := Doubled) ?_ ?_ h)
  · rintro db ⟨⟨-, he, -, -⟩, hl⟩
    exact ⟨by simp [he], by simp [hl], by simp [hl]⟩
  · intro s n c es a hs get hf _ hdb
    have hkeys := (entries_reserved hs).fresh _ (List.mem_of_getElem? get) rfl
    have hfresh : ∀ e, .journalEntry e ∈ writesOf es →
        ∀ f ∈ s.db.journal_entries, f.journal_entry_id ≠ e.journal_entry_id := by
      intro e he f hfm heq
      exact hkeys _ (List.mem_filterMap.mpr ⟨_, he, rfl⟩) ⟨f, hfm, heq⟩
    rcases (finished hf).booking hf.exec hfresh with ⟨he, hl⟩ | ⟨e, d, c, hb⟩
    · exact hdb.frame he hl
    · exact hdb.commit hb

theorem double_entry_balances_mixedCalls : ∃ s : LedgerState,
    s.db.journal_entries.length = 2 ∧ s.db.journal_lines.length = 4 ∧ BooksBalance s.db := by
  obtain ⟨s, hs, hp⟩ := Reach.exists_of_run (ledgerStep ⟨100⟩) anyStep (initial EmptyBooks)
    mixedCalls (fun s => s.db.journal_entries.length = 2 ∧ s.db.journal_lines.length = 4)
    (s := ⟨oneAccount thousand, []⟩) ⟨⟨⟨rfl, rfl, rfl, rfl⟩, rfl⟩, rfl⟩ (by decide +kernel)
  obtain ⟨he, hl⟩ := of_decide_eq_true hp
  exact ⟨s, he, hl, double_entry_balances hs⟩

end Runs

end TradePulse.Ledger
