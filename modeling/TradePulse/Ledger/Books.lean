import TradePulse.Ledger.System

/-! # One-to-one books

Trades, journal entries, audit rows and outbox rows are tied together by the
request id of a trade, or by the identifier drawn for a credit. For one such
identifier the rows of every kind are counted; a commit changes the counts of
the identifier it books and no others, and unique keys bound them by one. -/
namespace TradePulse.Ledger
open TradePulse.Core TradePulse.Core.Runs TradePulse.Core.Transactions

/-! ## Statement -/

/-- The audit row records this decision on the trade of the request. -/
def AuditRow.decides (a : AuditRow) (requestId : UUID) (outcome : AuditOutcome) : Bool :=
  a.source_event_id = requestId && a.action = .POST_TRADE && a.outcome = outcome

/-- The audit row records the credit with this identifier. -/
def AuditRow.credits (a : AuditRow) (id : UUID) : Bool :=
  a.source_event_id = id && a.action = .ADMIN_CREDIT

/-- Exactly one row of the table meets `p`. -/
def ExactlyOne {α : Type} (rows : List α) (p : α → Bool) : Prop := rows.countP p = 1

/-- The trade is the posted trade of the request. -/
def Trade.postedFor (t : Trade) (requestId : UUID) : Bool :=
  t.request_id = requestId && t.status = .posted

structure OneToOne (db : Db) : Prop where
  posted : ∀ t ∈ db.trades, t.status = .posted →
    ExactlyOne db.journal_entries (·.source_event_id = t.request_id) ∧
    ExactlyOne db.audit_log (·.decides t.request_id .accepted) ∧
    ExactlyOne db.outbox_events (·.payload.data.source_event_id = t.request_id)
  rejected : ∀ t ∈ db.trades, t.status = .rejected →
    ExactlyOne db.audit_log (fun a => a.decides t.request_id .rejected &&
      a.reason.map (·.val) = t.rejection_reason.map (·.val)) ∧
    (∀ e ∈ db.journal_entries, e.source_event_id ≠ t.request_id) ∧
    ∀ o ∈ db.outbox_events, o.payload.data.source_event_id ≠ t.request_id
  entry : ∀ e ∈ db.journal_entries,
    ExactlyOne db.trades (·.postedFor e.source_event_id) ∨
      ExactlyOne db.audit_log (·.credits e.source_event_id) ∧
        ExactlyOne db.journal_entries (·.source_event_id = e.source_event_id) ∧
        ∀ t ∈ db.trades, t.request_id ≠ e.source_event_id
  accepted : ∀ a ∈ db.audit_log, a.action = .POST_TRADE → a.outcome = .accepted →
    ExactlyOne db.trades (·.request_id = a.source_event_id) ∧
      ExactlyOne db.trades (·.postedFor a.source_event_id)
  refused : ∀ a ∈ db.audit_log, a.action = .POST_TRADE → a.outcome = .rejected →
    ExactlyOne db.trades (·.request_id = a.source_event_id) ∧
      ExactlyOne db.trades (fun t => t.request_id = a.source_event_id && t.status = .rejected &&
        t.rejection_reason.map (·.val) = a.reason.map (·.val))
  outbox : ∀ o ∈ db.outbox_events,
    ExactlyOne db.trades (·.postedFor o.payload.data.source_event_id)
  credit : ∀ a ∈ db.audit_log, a.action = .ADMIN_CREDIT →
    ExactlyOne db.journal_entries (·.source_event_id = a.source_event_id) ∧
      ExactlyOne db.audit_log (·.credits a.source_event_id)

/-- The identifiers the service generates are not request ids. -/
def generatedApart (generated : UUID → Prop) (_ : LedgerState) : LedgerAct → Prop
  | .begin (.postTrade _ req) => ¬ generated req.request_id
  | .stmt _ w => generated w.uuid
  | _ => True

/-- Accounts, and nothing booked yet. -/
def NothingBooked (db : Db) : Prop :=
  db.trades = [] ∧ db.journal_entries = [] ∧ db.audit_log = [] ∧ db.outbox_events = []

/-! ## Counting by identifier -/

def postings (r : UUID) (ts : List Trade) : Nat := ts.countP (·.postedFor r)

/-- The reasons of the rejected trades of a request. -/
def rejections (r : UUID) (ts : List Trade) : List (Option String) :=
  (ts.filter fun t => t.request_id = r && t.status = .rejected).map
    (·.rejection_reason.map (·.val))

def entries (r : UUID) (es : List JournalEntry) : Nat := es.countP (·.source_event_id = r)

def acceptances (r : UUID) (as : List AuditRow) : Nat := as.countP (·.decides r .accepted)

/-- The reasons of the audited rejections of a request. -/
def refusals (r : UUID) (as : List AuditRow) : List (Option String) :=
  (as.filter (·.decides r .rejected)).map (·.reason.map (·.val))

def creditings (r : UUID) (as : List AuditRow) : Nat := as.countP (·.credits r)

def events (r : UUID) (os : List (OutboxRow LedgerUpdatedEnvelope)) : Nat :=
  os.countP (·.payload.data.source_event_id = r)

/-- The rows that carry the identifier `r`, counted against each other. -/
structure Balanced (generated : UUID → Prop) (db : Db) (r : UUID) : Prop where
  accepted : acceptances r db.audit_log = postings r db.trades
  published : events r db.outbox_events = postings r db.trades
  booked : entries r db.journal_entries = postings r db.trades + creditings r db.audit_log
  refused : refusals r db.audit_log = rejections r db.trades
  once : postings r db.trades + (rejections r db.trades).length ≤ 1
  single : entries r db.journal_entries ≤ 1
  drawn : generated r → postings r db.trades + (rejections r db.trades).length = 0
  asked : ¬ generated r → creditings r db.audit_log = 0

/-! A table that grows by one row. -/

@[simp] theorem postings_snoc (r : UUID) (ts : List Trade) (t : Trade) :
    postings r (ts ++ [t]) = postings r ts + if t.postedFor r then 1 else 0 := by
  simp [postings, List.countP_append]

@[simp] theorem rejections_snoc (r : UUID) (ts : List Trade) (t : Trade) :
    rejections r (ts ++ [t]) = rejections r ts ++
      if t.request_id = r ∧ t.status = .rejected then [t.rejection_reason.map (·.val)] else [] := by
  by_cases h : t.request_id = r ∧ t.status = .rejected <;> simp_all [rejections, List.filter_append]

@[simp] theorem entries_snoc (r : UUID) (es : List JournalEntry) (e : JournalEntry) :
    entries r (es ++ [e]) = entries r es + if e.source_event_id = r then 1 else 0 := by
  simp [entries, List.countP_append]

@[simp] theorem acceptances_snoc (r : UUID) (as : List AuditRow) (a : AuditRow) :
    acceptances r (as ++ [a]) = acceptances r as + if a.decides r .accepted then 1 else 0 := by
  simp [acceptances, List.countP_append]

@[simp] theorem refusals_snoc (r : UUID) (as : List AuditRow) (a : AuditRow) :
    refusals r (as ++ [a]) = refusals r as ++
      if a.decides r .rejected then [a.reason.map (·.val)] else [] := by
  by_cases h : a.decides r .rejected <;> simp [refusals, List.filter_append, h]

@[simp] theorem creditings_snoc (r : UUID) (as : List AuditRow) (a : AuditRow) :
    creditings r (as ++ [a]) = creditings r as + if a.credits r then 1 else 0 := by
  simp [creditings, List.countP_append]

@[simp] theorem events_snoc (r : UUID) (os : List (OutboxRow LedgerUpdatedEnvelope))
    (o : OutboxRow LedgerUpdatedEnvelope) :
    events r (os ++ [o]) =
      events r os + if o.payload.data.source_event_id = r then 1 else 0 := by
  simp [events, List.countP_append]

/-! ## Balanced books are one-to-one -/

theorem postings_le (r : UUID) (ts : List Trade) :
    ts.countP (·.request_id = r) = postings r ts + (rejections r ts).length := by
  induction ts with
  | nil => rfl
  | cons t ts ih =>
    simp only [postings, rejections, List.length_map, ← List.countP_eq_length_filter] at ih ⊢
    rw [List.countP_cons, List.countP_cons, List.countP_cons, ih]
    by_cases hr : t.request_id = r
    · cases hs : t.status <;> simp [Trade.postedFor, hr, hs] <;> omega
    · simp [Trade.postedFor, hr]

theorem count_rejections (r : UUID) (ts : List Trade) (x : Option String) :
    ts.countP (fun t => t.request_id = r && t.status = .rejected &&
      t.rejection_reason.map (·.val) = x) = (rejections r ts).count x := by
  simp only [rejections, List.count, List.countP_map, List.countP_filter, Function.comp_def]
  refine List.countP_congr fun t _ => ?_
  simp only [Bool.and_eq_true, decide_eq_true_eq, beq_iff_eq]
  tauto

theorem count_refusals (r : UUID) (as : List AuditRow) (x : Option String) :
    as.countP (fun a => a.decides r .rejected && a.reason.map (·.val) = x) =
      (refusals r as).count x := by
  simp only [refusals, List.count, List.countP_map, List.countP_filter, Function.comp_def]
  refine List.countP_congr fun a _ => ?_
  simp only [Bool.and_eq_true, decide_eq_true_eq, beq_iff_eq]
  tauto

theorem postings_pos {r : UUID} {ts : List Trade} {t : Trade} (h : t ∈ ts)
    (hr : t.request_id = r) (hs : t.status = .posted) : 0 < postings r ts :=
  List.countP_pos_iff.mpr ⟨t, h, by simp [Trade.postedFor, hr, hs]⟩

theorem mem_rejections {r : UUID} {ts : List Trade} {t : Trade} (h : t ∈ ts)
    (hr : t.request_id = r) (hs : t.status = .rejected) :
    t.rejection_reason.map (·.val) ∈ rejections r ts :=
  List.mem_map.mpr ⟨t, List.mem_filter.mpr ⟨h, by simp [hr, hs]⟩, rfl⟩

theorem entries_pos {r : UUID} {es : List JournalEntry} {e : JournalEntry} (h : e ∈ es)
    (hr : e.source_event_id = r) : 0 < entries r es :=
  List.countP_pos_iff.mpr ⟨e, h, by simp [hr]⟩

theorem events_pos {r : UUID} {os : List (OutboxRow LedgerUpdatedEnvelope)}
    {o : OutboxRow LedgerUpdatedEnvelope} (h : o ∈ os)
    (hr : o.payload.data.source_event_id = r) : 0 < events r os :=
  List.countP_pos_iff.mpr ⟨o, h, by simp [hr]⟩

/-- A list of at most one element that has `x` counts it once. -/
theorem count_eq_one {α : Type} [BEq α] [LawfulBEq α] {l : List α} {x : α} (h : x ∈ l)
    (hl : l.length ≤ 1) : l.count x = 1 := by
  have h0 := List.count_pos_iff.mpr h
  have h1 := List.count_le_length (a := x) (l := l)
  omega

/-- Of one identifier no trade is both posted and rejected, and a drawn one has none. -/
theorem Balanced.cases {G : UUID → Prop} {db : Db} {r : UUID} (h : Balanced G db r) :
    creditings r db.audit_log = 0 ∨
      postings r db.trades = 0 ∧ (rejections r db.trades).length = 0 := by
  by_cases hg : G r
  · have := h.drawn hg
    exact .inr (by omega)
  · exact .inl (h.asked hg)

theorem OneToOne.of_balanced {G : UUID → Prop} {db : Db} (h : ∀ r, Balanced G db r) :
    OneToOne db where
  posted t ht hs := by
    have hb := h t.request_id
    have hp := postings_pos ht rfl hs
    have hc := hb.cases
    have hone := hb.once
    have hbook := hb.booked
    exact ⟨show entries _ _ = 1 by omega, hb.accepted.trans (by omega),
      hb.published.trans (by omega)⟩
  rejected t ht hs := by
    have hb := h t.request_id
    have hmem := mem_rejections ht rfl hs
    have hlen := List.length_pos_of_mem hmem
    have hone := hb.once
    have hc := hb.cases
    have hbook := hb.booked
    have hpub := hb.published
    refine ⟨?_, fun e he hr => ?_, fun o ho hr => ?_⟩
    · rw [ExactlyOne, count_refusals, hb.refused]
      exact count_eq_one hmem (by omega)
    · have := entries_pos he hr
      omega
    · have := events_pos ho hr
      omega
  entry e he := by
    have hb := h e.source_event_id
    have hpos := entries_pos he rfl
    have hone := hb.once
    have hc := hb.cases
    have hbook := hb.booked
    have hsingle := hb.single
    by_cases hp : postings e.source_event_id db.trades = 0
    · refine .inr ⟨show creditings _ _ = 1 by omega, show entries _ _ = 1 by omega, ?_⟩
      intro t ht hr
      have hcount := postings_le e.source_event_id db.trades
      have hmem : 0 < db.trades.countP (·.request_id = e.source_event_id) :=
        List.countP_pos_iff.mpr ⟨t, ht, decide_eq_true hr⟩
      omega
    · exact .inl (show postings _ _ = 1 by omega)
  accepted a ha hact hout := by
    have hb := h a.source_event_id
    have hpos : 0 < acceptances a.source_event_id db.audit_log :=
      List.countP_pos_iff.mpr ⟨a, ha, by simp [AuditRow.decides, hact, hout]⟩
    have hacc := hb.accepted
    have hone := hb.once
    have hcount := postings_le a.source_event_id db.trades
    exact ⟨hcount.trans (by omega), show postings _ _ = 1 by omega⟩
  refused a ha hact hout := by
    have hb := h a.source_event_id
    have hmem : a.reason.map (·.val) ∈ refusals a.source_event_id db.audit_log :=
      List.mem_map.mpr ⟨a, List.mem_filter.mpr ⟨ha, by simp [AuditRow.decides, hact, hout]⟩, rfl⟩
    rw [hb.refused] at hmem
    have hlen := List.length_pos_of_mem hmem
    have hone := hb.once
    have hcount := postings_le a.source_event_id db.trades
    refine ⟨hcount.trans (by omega), ?_⟩
    rw [ExactlyOne, count_rejections]
    exact count_eq_one hmem (by omega)
  outbox o ho := by
    have hb := h o.payload.data.source_event_id
    have hpos := events_pos ho rfl
    have hpub := hb.published
    have hone := hb.once
    exact show postings _ _ = 1 by omega
  credit a ha hact := by
    have hb := h a.source_event_id
    have hpos : 0 < creditings a.source_event_id db.audit_log :=
      List.countP_pos_iff.mpr ⟨a, ha, by simp [AuditRow.credits, hact]⟩
    have hc := hb.cases
    have hbook := hb.booked
    have hsingle := hb.single
    exact ⟨show entries _ _ = 1 by omega, show creditings _ _ = 1 by omega⟩

/-! ## Commits -/

/-- No row of the table carries the identifier of a key that a commit adds. -/
theorem postings_fresh {r : UUID} {ts : List Trade} (h : ∀ t ∈ ts, t.request_id ≠ r) :
    postings r ts + (rejections r ts).length = 0 := by
  rw [← postings_le, List.countP_eq_zero]
  intro t ht
  simpa using h t ht

theorem entries_fresh {r : UUID} {es : List JournalEntry}
    (h : ∀ e ∈ es, e.source_event_id ≠ r) : entries r es = 0 := by
  rw [entries, List.countP_eq_zero]
  intro e he
  simpa using h e he

/-- The identifier a row is booked under. -/
def Write.bookId : Write → Option UUID
  | .trade t => some t.request_id
  | .journalEntry e => some e.source_event_id
  | .audit a => some a.source_event_id
  | .outbox o => some o.payload.data.source_event_id
  | _ => none

section Commit

variable {G : UUID → Prop} {db : Db}

/-- Rows of other identifiers change none of the counts. -/
theorem Balanced.frame {r : UUID} (h : Balanced G db r) {ws : List Write}
    (hws : r ∉ ws.filterMap Write.bookId) : Balanced G (engine.applyAll db ws) r := by
  induction ws generalizing db with
  | nil => exact h
  | cons w ws ih =>
    simp only [List.mem_filterMap, List.mem_cons, exists_eq_or_imp, not_or, not_exists,
      not_and] at hws
    obtain ⟨hw, hws⟩ := hws
    refine @ih (db.apply w) ?_ (by simpa using hws)
    have htally : postings r (db.apply w).trades = postings r db.trades ∧
        rejections r (db.apply w).trades = rejections r db.trades ∧
        entries r (db.apply w).journal_entries = entries r db.journal_entries ∧
        acceptances r (db.apply w).audit_log = acceptances r db.audit_log ∧
        refusals r (db.apply w).audit_log = refusals r db.audit_log ∧
        creditings r (db.apply w).audit_log = creditings r db.audit_log ∧
        events r (db.apply w).outbox_events = events r db.outbox_events := by
      cases w <;> simp_all [Write.bookId, Db.apply, Trade.postedFor, AuditRow.decides,
        AuditRow.credits]
    obtain ⟨hp, hr, he, ha, hf, hc, ho⟩ := htally
    constructor
    · rw [ha, hp]; exact h.accepted
    · rw [ho, hp]; exact h.published
    · rw [he, hp, hc]; exact h.booked
    · rw [hf, hr]; exact h.refused
    · rw [hp, hr]; exact h.once
    · rw [he]; exact h.single
    · rw [hp, hr]; exact h.drawn
    · rw [hc]; exact h.asked

theorem PostedRows.balanced {req : TradeRequestDto} {v : Draws} (rows : PostedRows req v)
    (h : ∀ r, Balanced G db r) (hG : ¬ G req.request_id)
    (hnew : ∀ t ∈ db.trades, t.request_id ≠ req.request_id) (r : UUID) :
    Balanced G (engine.applyAll db rows.writes) r := by
  obtain ⟨_, ht⟩ := rows.trade_ok
  obtain ⟨_, he⟩ := rows.entry_ok
  obtain ⟨_, ha⟩ := rows.audit_ok
  obtain ⟨_, ho⟩ := rows.outbox_ok
  have hsrc : rows.outbox.payload.data.source_event_id = req.request_id := by rw [ho.payload]; rfl
  by_cases hr : req.request_id = r
  · have hb := h r
    have h0 := postings_fresh (hr ▸ hnew)
    have hc := hb.asked (hr ▸ hG)
    have hbook := hb.booked
    have hes : rows.writes.filterMap Write.journalEntry? = [rows.entry] :=
      rows.project _ fun _ => rfl
    have has : rows.writes.filterMap Write.audit? = [rows.audit] := rows.project _ fun _ => rfl
    have hos : rows.writes.filterMap Write.outbox? = [rows.outbox] := rows.project _ fun _ => rfl
    refine ⟨?_, ?_, ?_, ?_, ?_, ?_, fun hg => absurd (hr ▸ hg) hG, fun _ => ?_⟩ <;>
      simp [hes, has, hos, hsrc, ht.request_id, ht.status, he.source_event_id, ha.source_event_id,
        ha.action, ha.outcome, Trade.postedFor, AuditRow.decides, AuditRow.credits, hr,
        hb.accepted, hb.published, hb.refused, hc] <;>
      omega
  · refine (h r).frame ?_
    rw [rows.project _ fun _ => rfl]
    simp [Write.bookId, ht.request_id, he.source_event_id, ha.source_event_id, hsrc, hr, Ne.symm hr]

/-- The reason of a rejection fits both columns that store it. -/
theorem firstViolation_length {rules : ComplianceRules} {c p : BigDecimal} {reason : String}
    (h : rules.firstViolation c p = some reason) : reason.length ≤ 32 := by
  unfold ComplianceRules.firstViolation at h
  split at h
  · cases h; decide
  · split at h
    · cases h; decide
    · cases h

theorem varchar?_ok {n : Nat} {c s : String} {o : Option (Varchar n)} (hs : s.length ≤ n)
    (h : varchar? n c (some s) = .ok o) : o.map (·.val) = some s := by
  cases hv : Varchar.store n s with
  | none => simp [varchar?, varchar, hv, Except.map] at h
  | some v =>
    simp only [varchar?, varchar, hv, Except.map, Except.ok.injEq] at h
    rw [← h, Option.map_some, Varchar.store_of_length hs hv]

theorem RejectedRows.balanced {req : TradeRequestDto} {reason : String}
    (rows : RejectedRows req reason) (hlen : reason.length ≤ 32) (h : ∀ r, Balanced G db r)
    (hG : ¬ G req.request_id) (hnew : ∀ t ∈ db.trades, t.request_id ≠ req.request_id)
    (r : UUID) : Balanced G (engine.applyAll db rows.writes) r := by
  obtain ⟨_, _, _, ht⟩ := rows.trade_ok
  obtain ⟨_, _, _, ha⟩ := rows.audit_ok
  by_cases hr : req.request_id = r
  · have hb := h r
    have h0 := postings_fresh (hr ▸ hnew)
    have hc := hb.asked (hr ▸ hG)
    have hbook := hb.booked
    have hreason := (varchar?_ok hlen ht.rejection_reason).trans
      (varchar?_ok (n := 64) (by omega) ha.reason).symm
    refine ⟨?_, ?_, ?_, ?_, ?_, ?_, fun hg => absurd (hr ▸ hg) hG, fun _ => ?_⟩ <;>
      simp [RejectedRows.writes, List.filterMap_cons, Write.trade?, Write.audit?,
        Write.journalEntry?, Write.outbox?, ht.request_id, ht.status, ha.source_event_id,
        ha.action, ha.outcome, Trade.postedFor, AuditRow.decides, AuditRow.credits, hr,
        hb.accepted, hb.published, hb.refused, hb.booked, hc, hreason] <;>
      omega
  · refine (h r).frame ?_
    simp [RejectedRows.writes, Write.bookId, ht.request_id, ha.source_event_id, Ne.symm hr]

theorem CreditRows.balanced {i : String} {x : BigDecimal} {id : UUID} (rows : CreditRows i x id)
    (h : ∀ r, Balanced G db r) (hG : G id)
    (hnew : ∀ e ∈ db.journal_entries, e.source_event_id ≠ id) (r : UUID) :
    Balanced G (engine.applyAll db rows.writes) r := by
  obtain ⟨_, _, _, he⟩ := rows.entry_ok
  obtain ⟨_, _, _, _, ha⟩ := rows.audit_ok
  by_cases hr : id = r
  · have hb := h r
    have h0 := entries_fresh (hr ▸ hnew)
    have hd := hb.drawn (hr ▸ hG)
    have hbook := hb.booked
    have hes : rows.writes.filterMap Write.journalEntry? = [rows.entry] :=
      rows.project _ fun _ => rfl
    have has : rows.writes.filterMap Write.audit? = [rows.audit] := rows.project _ fun _ => rfl
    have hos : rows.writes.filterMap Write.outbox? = [] := rows.project _ fun _ => rfl
    refine ⟨?_, ?_, ?_, ?_, ?_, ?_, fun _ => by simpa using hd,
      fun hg => absurd (hr ▸ hG) hg⟩ <;>
      simp [hes, has, hos, he.source_event_id, ha.source_event_id, ha.action, ha.outcome,
        AuditRow.decides, AuditRow.credits, hr, hb.accepted, hb.published, hb.refused, hb.once,
        h0]
    omega
  · refine (h r).frame ?_
    rw [rows.project _ fun _ => rfl]
    simp [Write.bookId, he.source_event_id, ha.source_event_id, hr, Ne.symm hr]

end Commit

/-! ## Whole runs -/

/-- The unique key of a trade row. -/
def requestKey : Write → Option UUID
  | .trade t => some t.request_id
  | _ => none

/-- The unique key of a journal entry row that ties it to its cause. -/
def sourceKey : Write → Option UUID
  | .journalEntry e => some e.source_event_id
  | _ => none

section Runs

variable {rules : ComplianceRules} {P : Db → Prop} {ok : LedgerState → LedgerAct → Prop}
  {s : LedgerState}

/-- A trade that a statement writes carries a request id new to its view. -/
theorem exec_trade {i : Statement} {w : Ambient} {db : Db} {res : i.Result} {t : Trade}
    (h : exec i w db = .ok (res, some (.trade t))) :
    ∀ u ∈ db.trades, u.request_id ≠ t.request_id := by
  cases i with
  | insertTrade =>
    obtain ⟨t', ht', he⟩ := inserted_ok.mp h
    cases he
    have ht := insertTrade_ok ht'
    intro u hu heq
    exact ht.new_request u hu (heq.trans ht.request_id)
  | updateCash i d =>
    cases hc : db.updateCash i d with
    | error e => simp [exec, hc, Except.map] at h
    | ok o => cases o <;> simp [exec, hc, Except.map] at h
  | _ => simp [exec] at h

/-- A journal entry that a statement writes has passed the checks of its insert. -/
theorem exec_journalEntry {i : Statement} {w : Ambient} {db : Db} {res : i.Result}
    {e : JournalEntry} (h : exec i w db = .ok (res, some (.journalEntry e))) :
    ∃ a c, InsertsEntry db e.journal_entry_id e.source_event_id a c e := by
  cases i with
  | insertJournalEntry j r a c =>
    obtain ⟨e', he', heq⟩ := inserted_ok.mp h
    cases heq
    have he := insertJournalEntry_ok he'
    obtain rfl := he.journal_entry_id
    obtain rfl := he.source_event_id
    exact ⟨a, c, he⟩
  | updateCash i d =>
    cases hc : db.updateCash i d with
    | error e => simp [exec, hc, Except.map] at h
    | ok o => cases o <;> simp [exec, hc, Except.map] at h
  | _ => simp [exec] at h

/-- The trades about to be committed are new requests. -/
theorem requests_reserved (h : Reach (ledgerStep rules) ok (initial P) s) :
    Reserved requestKey (fun db r => ∃ t ∈ db.trades, t.request_id = r) s := by
  refine reserved (fun db b r => ?_) (fun i w db res b r hexec hkey => ?_)
    (fun b b' r hb hb' => ?_) h
  · cases b <;> simp [engine, Db.apply, requestKey, or_and_right, exists_or]
  · cases b with
    | trade t =>
      cases hkey
      rintro ⟨u, hu, he⟩
      exact exec_trade hexec u hu he
    | _ => cases hkey
  · cases b with
    | trade t =>
      cases b' with
      | trade t' =>
        simp only [requestKey, Option.some.injEq] at hb hb'
        simp [engine, Write.conflicts, hb, hb']
      | _ => cases hb'
    | _ => cases hb

/-- The journal entries about to be committed have new causes. -/
theorem sources_reserved (h : Reach (ledgerStep rules) ok (initial P) s) :
    Reserved sourceKey (fun db r => ∃ e ∈ db.journal_entries, e.source_event_id = r) s := by
  refine reserved (fun db b r => ?_) (fun i w db res b r hexec hkey => ?_)
    (fun b b' r hb hb' => ?_) h
  · cases b <;> simp [engine, Db.apply, sourceKey, or_and_right, exists_or]
  · cases b with
    | journalEntry e =>
      cases hkey
      rintro ⟨f, hf, he⟩
      obtain ⟨_, _, hi⟩ := exec_journalEntry hexec
      exact hi.new_source f hf he
    | _ => cases hkey
  · cases b with
    | journalEntry e =>
      cases b' with
      | journalEntry e' =>
        simp only [sourceKey, Option.some.injEq] at hb hb'
        simp [engine, Write.conflicts, hb, hb']
      | _ => cases hb'
    | _ => cases hb

theorem not_generated {generated : UUID → Prop}
    (h : Reach (ledgerStep rules) (generatedApart generated) (initial P) s) {mdc : Option String}
    {req : TradeRequestDto} {es : List LedgerEvent} {p : Tx Reply} {st : Status}
    (hmem : ⟨.postTrade mdc req, es, p, st⟩ ∈ s.txns) : ¬ generated req.request_id := by
  refine calls (C := fun c => ∀ mdc req, c = .postTrade mdc req → ¬ generated req.request_id)
    ?_ h _ hmem mdc req rfl
  rintro s c hc mdc req rfl
  exact hc

theorem generated_of_drawn {generated : UUID → Prop}
    (h : Reach (ledgerStep rules) (generatedApart generated) (initial P) s) {t : LedgerTxn}
    (hmem : t ∈ s.txns) {id : UUID} {n : Option Write} (hid : ⟨.randomUUID, id, n⟩ ∈ t.trace) :
    generated id := by
  obtain ⟨w, _, hw, hexec⟩ := answers (A := fun w => generated w.uuid) (fun _ _ _ h => h) h t hmem
    _ hid
  have he := (Prod.mk.inj (Except.ok.inj hexec)).1
  simp only at he
  exact he ▸ hw

/-- The counts agree in every committed state, for every identifier. -/
theorem balanced {generated : UUID → Prop} (hP : ∀ db, P db → NothingBooked db)
    (h : Reach (ledgerStep rules) (generatedApart generated) (initial P) s) :
    ∀ r, Balanced generated s.db r := by
  refine db_invariant (I := fun db => ∀ r, Balanced generated db r) ?_ ?_ h
  · intro db hdb r
    obtain ⟨ht, he, ha, ho⟩ := hP db hdb
    constructor <;> simp [ht, he, ha, ho, postings, rejections, entries, acceptances, refusals,
      creditings, events]
  · intro s n c es a hs get hf _ hdb
    have hmem := List.mem_of_getElem? get
    have hreq := (requests_reserved hs).fresh _ hmem rfl
    have hsrc := (sources_reserved hs).fresh _ hmem rfl
    simp only [Txn.writes] at hreq hsrc
    cases finished hf with
    | duplicate writes =>
      rw [writes]
      exact hdb
    | @rejected mdc req _ reason _ _ violation rows writes =>
      obtain ⟨_, _, _, ht⟩ := rows.trade_ok
      rw [writes] at hreq ⊢
      refine rows.balanced (firstViolation_length violation) hdb (not_generated hs hmem)
        fun t ht' he => hreq req.request_id ?_ ⟨t, ht', he⟩
      simp [RejectedRows.writes, List.filterMap_cons, requestKey, ht.request_id]
    | @posted mdc req _ v trace rows writes read compliant =>
      obtain ⟨_, ht⟩ := rows.trade_ok
      rw [writes] at hreq ⊢
      refine rows.balanced hdb (not_generated hs hmem) fun t ht' he =>
        hreq req.request_id ?_ ⟨t, ht', he⟩
      rw [rows.project _ fun _ => rfl]
      simp [List.filterMap_cons, requestKey, ht.request_id]
    | @credited i x _ id _ _ trace drawn rows writes =>
      obtain ⟨_, _, _, he⟩ := rows.entry_ok
      obtain ⟨_, hdrawn⟩ := drawn
      rw [writes] at hsrc ⊢
      refine rows.balanced hdb (generated_of_drawn hs hmem hdrawn) fun e he' heq =>
        hsrc id ?_ ⟨e, he', heq⟩
      rw [rows.project _ fun _ => rfl]
      simp [List.filterMap_cons, sourceKey, he.source_event_id]

/-- **Books stay one-to-one.** Whatever interleaves and wherever a call stops,
every committed state ties each posted trade to one journal entry, one audit
row and one event, each rejected trade to one audit row of its reason, and
each further journal entry to one credit. -/
theorem books_one_to_one {generated : UUID → Prop}
    (h : Reach (ledgerStep rules) (generatedApart generated) (initial NothingBooked) s) :
    OneToOne s.db := OneToOne.of_balanced (balanced (fun _ h => h) h)

end Runs

instance (generated : UUID → Prop) [DecidablePred generated] (s : LedgerState) (a : LedgerAct) :
    Decidable (generatedApart generated s a) := by
  unfold generatedApart
  split <;> infer_instance

/-- Identifiers from 100 on. -/
def fromHundred (u : UUID) : Prop := 100 ≤ u.bits.toNat

instance : DecidablePred fromHundred := fun u => inferInstanceAs (Decidable (100 ≤ u.bits.toNat))

/-- A posted trade, a rejected one, a credit, and a trade cut off after its
journal lines, interleaved. -/
def mixedCalls : List LedgerAct :=
  [.begin (buy 1 60 1), .begin (buy 2 60 100), .begin (.creditAccount "A" 5 none),
    .begin (buy 3 1 1)] ++
  stmts 0 4 100 0 ++ stmts 1 8 120 0 ++ stmts 0 12 140 0 ++ [.commit 1] ++ stmts 3 10 160 0 ++
  [.abort 3, .commit 0] ++ stmts 2 10 180 0 ++ [.commit 2]

theorem books_one_to_one_mixedCalls : ∃ s : LedgerState, s.db.trades.length = 2 ∧
    s.db.journal_entries.length = 2 ∧ OneToOne s.db := by
  obtain ⟨s, hs, hp⟩ := Reach.exists_of_run (ledgerStep ⟨100⟩)
    (generatedApart fromHundred) (initial NothingBooked) mixedCalls
    (fun s => s.db.trades.length = 2 ∧ s.db.journal_entries.length = 2)
    (s := ⟨oneAccount thousand, []⟩) ⟨⟨rfl, rfl, rfl, rfl⟩, rfl⟩ (by decide +kernel)
  obtain ⟨ht, he⟩ := of_decide_eq_true hp
  exact ⟨s, ht, he, books_one_to_one hs⟩

end TradePulse.Ledger
