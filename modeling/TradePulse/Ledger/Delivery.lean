import TradePulse.Ledger.Relay
import TradePulse.Core.Rows
import Mathlib.Data.List.Count
import Mathlib.Data.List.Nodup

/-! # What the relay delivers

Publishing and marking are two writes to two systems. A row is marked only
after it was appended, so no marked row is missing from the stream; a row that
is appended and not marked is published again, once for every failure that
came in between. -/
namespace TradePulse.Ledger
open TradePulse.Core TradePulse.Core.Runs TradePulse.Core.Process

variable {π : Type}

/-- The outbox table on its own. -/
def outboxTable : Outbox (List (OutboxRow π)) π where
  rows := id
  markSent id rows := rows.map fun r => if r.event_id = id then { r with sent := true } else r
  rows_markSent _ _ := rfl

/-- A transaction commits new rows: unsent, under new ids. -/
def commitRows (new rows : List (OutboxRow π)) : Option (List (OutboxRow π)) :=
  if (∀ r ∈ new, r.sent = false) ∧ ((rows ++ new).map (·.event_id)).Nodup then some (rows ++ new)
  else none

abbrev OutboxWorld (π : Type) := RelayWorld (List (OutboxRow π)) π

/-- The relay on the outbox table, beside transactions that commit rows. -/
abbrev outboxRelay [DecidableEq π] (schemaVersion : π → Option String) :=
  relayMachine outboxTable schemaVersion (commitRows (π := π))

/-- The rows a call has tried to publish, in order. -/
def attempts (log : List RelayLog) : List UUID :=
  log.filterMap fun
    | .published id | .raised id => some id
    | .marked _ => none

theorem attempts_marked (log : List RelayLog) (id : UUID) :
    attempts (log ++ [.marked id]) = attempts log := by
  simp [attempts]

/-- The entries on the stream for a row. -/
def entriesFor (id : UUID) (stream : List (StreamEntry π)) : Nat := stream.countP (·.row = id)

/-- What is promised of the outbox, the stream and the current call. -/
structure Delivered (w : OutboxWorld π) : Prop where
  sent_published : ∀ r ∈ w.store, r.sent = true →
    ∃ e ∈ w.stream, e.row = r.event_id ∧ e.fields.event = r.payload
  entries_committed : ∀ e ∈ w.stream,
    ∃ r ∈ w.store, r.event_id = e.row ∧ r.payload = e.fields.event
  bounded : ∀ r ∈ w.store, entriesFor r.event_id w.stream ≤ 1 + w.hits.count r.event_id
  ordered : ∃ batch : List (OutboxRow π), attempts w.log = batch.map (·.event_id) ∧
    batch.Pairwise (fun a b => a.created_at ≤ b.created_at) ∧
    ∀ b ∈ batch, ∃ r ∈ w.store, r.event_id = b.event_id ∧ r.created_at = b.created_at
  stops : ∀ before id after, w.log = before ++ .raised id :: after → after = []
  idle : w.disabled = true → w.stream = w.streamBefore ∧ sentIds w.store = w.sentBefore

/-- The invariant: besides, ids are unique, and a row that is not marked was
appended once for each failure, and once more while it is being marked. -/
structure Outgoing (w : OutboxWorld π) : Prop extends Delivered w where
  nodup : (w.store.map (·.event_id)).Nodup
  unsent : ∀ r ∈ w.store, r.sent = false → entriesFor r.event_id w.stream ≤
    w.hits.count r.event_id + if w.appended = some r.event_id then 1 else 0

/-! ## The environment -/

theorem commitRows_some {new rows rows' : List (OutboxRow π)} (h : commitRows new rows = some rows') :
    rows' = rows ++ new ∧ (∀ r ∈ new, r.sent = false) ∧ (rows'.map (·.event_id)).Nodup := by
  simp only [commitRows, Option.ite_none_right_eq_some, Option.some.injEq] at h
  obtain ⟨⟨hnew, hnd⟩, rfl⟩ := h
  exact ⟨rfl, hnew, hnd⟩

theorem sentIds_append {rows new : List (OutboxRow π)} (h : ∀ r ∈ new, r.sent = false) :
    sentIds (rows ++ new) = sentIds rows := by
  have : new.filter (·.sent) = [] := List.filter_eq_nil_iff.mpr fun r hr => by simp [h r hr]
  simp [sentIds, this]

theorem Outgoing.commit {w : OutboxWorld π} (h : Outgoing w) {new rows : List (OutboxRow π)}
    (hc : commitRows new w.store = some rows) : Outgoing { w with store := rows } := by
  obtain ⟨rfl, hnew, hnd⟩ := commitRows_some hc
  -- no entry carries the id of a row that is not committed
  have hzero : ∀ r ∈ new, entriesFor r.event_id w.stream = 0 := by
    intro r hr
    refine List.countP_eq_zero.mpr fun e he hrow => ?_
    obtain ⟨r', hr', hid, -⟩ := h.entries_committed e he
    rw [List.map_append, List.nodup_append] at hnd
    refine hnd.2.2 _ (List.mem_map_of_mem hr') _ (List.mem_map_of_mem hr) ?_
    exact hid.trans (of_decide_eq_true hrow)
  refine ⟨⟨fun r hr hs => ?_, fun e he => ?_, fun r hr => ?_, ?_, h.stops, fun hd => ?_⟩, hnd,
    fun r hr hs => ?_⟩
  · obtain hr | hr := List.mem_append.mp hr
    · exact h.sent_published r hr hs
    · rw [hnew r hr] at hs
      cases hs
  · obtain ⟨r, hr, hrow⟩ := h.entries_committed e he
    exact ⟨r, List.mem_append_left _ hr, hrow⟩
  · obtain hr | hr := List.mem_append.mp hr
    · exact h.bounded r hr
    · exact (hzero r hr).trans_le (by omega)
  · obtain ⟨batch, hb, hsort, hmem⟩ := h.ordered
    refine ⟨batch, hb, hsort, fun b hbb => ?_⟩
    obtain ⟨r, hr, hid⟩ := hmem b hbb
    exact ⟨r, List.mem_append_left _ hr, hid⟩
  · exact ⟨(h.idle hd).1, (sentIds_append hnew).trans (h.idle hd).2⟩
  · obtain hr | hr := List.mem_append.mp hr
    · exact h.unsent r hr hs
    · exact (hzero r hr).trans_le (by omega)

/-! ## The relay's own steps -/

/-- The rows of the batch still to publish. -/
structure Batch (w : OutboxWorld π) (rest : List (OutboxRow π)) : Prop where
  mem : ∀ r ∈ rest, r ∈ w.store ∧ r.sent = false
  nodup : (rest.map (·.event_id)).Nodup
  ordered : ∃ batch : List (OutboxRow π), attempts w.log = batch.map (·.event_id) ∧
    (batch ++ rest).Pairwise (fun a b => a.created_at ≤ b.created_at) ∧
    ∀ b ∈ batch, ∃ r ∈ w.store, r.event_id = b.event_id ∧ r.created_at = b.created_at
  quiet : ∀ id, .raised id ∉ w.log
  enabled : w.disabled = false

theorem Batch.commit {w : OutboxWorld π} {rest : List (OutboxRow π)} (h : Batch w rest)
    {new rows : List (OutboxRow π)} (hc : commitRows new w.store = some rows) :
    Batch { w with store := rows } rest := by
  obtain ⟨rfl, -, -⟩ := commitRows_some hc
  refine ⟨fun r hr => ?_, h.nodup, ?_, h.quiet, h.enabled⟩
  · exact ⟨List.mem_append_left _ (h.mem r hr).1, (h.mem r hr).2⟩
  · obtain ⟨batch, hb, hsort, hmem⟩ := h.ordered
    refine ⟨batch, hb, hsort, fun b hbb => ?_⟩
    obtain ⟨r, hr, hid⟩ := hmem b hbb
    exact ⟨r, List.mem_append_left _ hr, hid⟩

@[simp] theorem entriesFor_snoc (id : UUID) (stream : List (StreamEntry π)) (e : StreamEntry π) :
    entriesFor id (stream ++ [e]) = entriesFor id stream + if e.row = id then 1 else 0 := by
  simp [entriesFor, List.countP_append]

/-- What is recorded of an attempt to publish the first row of the batch. -/
theorem Batch.attempt {w : OutboxWorld π} {x : OutboxRow π} {rest : List (OutboxRow π)}
    (h : Batch w (x :: rest)) {l : RelayLog} (hl : attempts [l] = [x.event_id]) :
    ∃ batch : List (OutboxRow π), attempts (w.log ++ [l]) = batch.map (·.event_id) ∧
      (batch ++ rest).Pairwise (fun a b => a.created_at ≤ b.created_at) ∧
      ∀ b ∈ batch, ∃ r ∈ w.store, r.event_id = b.event_id ∧ r.created_at = b.created_at := by
  obtain ⟨batch, hb, hsort, hmem⟩ := h.ordered
  refine ⟨batch ++ [x], ?_, by simpa using hsort, fun b hbb => ?_⟩
  · rw [attempts, List.filterMap_append, ← attempts, ← attempts, hb, hl, List.map_append]
    rfl
  · obtain hbb | hbb := List.mem_append.mp hbb
    · exact hmem b hbb
    · rw [List.mem_singleton.mp hbb]
      exact ⟨x, (h.mem x (List.mem_cons_self ..)).1, rfl, rfl⟩

theorem Batch.stops {w : OutboxWorld π} {rest : List (OutboxRow π)} (h : Batch w rest)
    (l : RelayLog) : ∀ before id after, w.log ++ [l] = before ++ .raised id :: after →
      after = [] := by
  intro before id after heq
  obtain hnil | ⟨after, last, rfl⟩ := List.eq_nil_or_concat after
  · exact hnil
  · rw [List.concat_eq_append, ← List.cons_append, ← List.append_assoc] at heq
    have hlog := (List.append_inj' heq rfl).1
    exact absurd (by rw [hlog]; simp) (h.quiet id)

theorem Outgoing.row_unique {w : OutboxWorld π} (h : Outgoing w) {r x : OutboxRow π}
    (hr : r ∈ w.store) (hx : x ∈ w.store) (hid : r.event_id = x.event_id) : r = x :=
  List.inj_on_of_nodup_map h.nodup hr hx hid

/-- The first row of the batch is appended; `hits` counts it if `XADD` raised
all the same, and else it waits to be marked. -/
theorem Outgoing.append {w : OutboxWorld π} (h : Outgoing w) (hnone : w.appended = none)
    {x : OutboxRow π} {rest : List (OutboxRow π)} (hb : Batch w (x :: rest))
    {fields : StreamFields π} (hf : fields.event = x.payload) {l : RelayLog}
    (hl : attempts [l] = [x.event_id]) {hits : List UUID} {appended : Option UUID}
    (hcount : hits = w.hits ∧ appended = some x.event_id ∨
      hits = w.hits ++ [x.event_id] ∧ appended = none) :
    Outgoing { w with
      stream := w.stream ++ [⟨x.event_id, fields⟩], hits := hits, appended := appended
      log := w.log ++ [l] } := by
  obtain ⟨hx, hunsent⟩ := hb.mem x (List.mem_cons_self ..)
  have hold := h.unsent x hx hunsent
  have hle : ∀ id, w.hits.count id ≤ hits.count id := by
    intro id
    obtain ⟨rfl, -⟩ | ⟨rfl, -⟩ := hcount
    · exact Nat.le_refl _
    · simp [List.count_append]
  have hnew : entriesFor x.event_id w.stream + 1 ≤
      hits.count x.event_id + if appended = some x.event_id then 1 else 0 := by
    rw [hnone] at hold
    obtain ⟨rfl, rfl⟩ | ⟨rfl, rfl⟩ := hcount
    · simpa using hold
    · simpa [List.count_append] using hold
  obtain ⟨batch, hbatch, hsort, hmem⟩ := hb.attempt hl
  refine ⟨⟨fun r hr hs => ?_, fun e he => ?_, fun r hr => ?_,
    ⟨batch, hbatch, hsort.sublist (List.sublist_append_left ..), hmem⟩, hb.stops l,
    fun hd => ?_⟩, h.nodup, fun r hr hs => ?_⟩
  · obtain ⟨e, he, hrow⟩ := h.sent_published r hr hs
    exact ⟨e, List.mem_append_left _ he, hrow⟩
  · obtain he | he := List.mem_append.mp he
    · exact h.entries_committed e he
    · rw [List.mem_singleton.mp he]
      exact ⟨x, hx, rfl, hf.symm⟩
  · simp only [entriesFor_snoc]
    by_cases hid : x.event_id = r.event_id
    · rw [if_pos hid, ← hid]
      refine hnew.trans ?_
      split <;> omega
    · rw [if_neg hid]
      have := h.bounded r hr
      have := hle r.event_id
      omega
  · have he := hb.enabled
    rw [hd] at he
    cases he
  · simp only [entriesFor_snoc]
    by_cases hid : x.event_id = r.event_id
    · rw [if_pos hid, ← hid]
      exact hnew
    · rw [if_neg hid]
      have := h.unsent r hr hs
      rw [hnone] at this
      have := hle r.event_id
      simp at *
      omega

/-- The attempt raised and nothing was appended. -/
theorem Outgoing.raised {w : OutboxWorld π} (h : Outgoing w) {x : OutboxRow π}
    {rest : List (OutboxRow π)} (hb : Batch w (x :: rest)) :
    Outgoing (w.refuse x.event_id) := by
  obtain ⟨batch, hbatch, hsort, hmem⟩ := hb.attempt (l := .raised x.event_id) rfl
  exact ⟨⟨h.sent_published, h.entries_committed, h.bounded,
    ⟨batch, hbatch, hsort.sublist (List.sublist_append_left ..), hmem⟩, hb.stops _, h.idle⟩,
    h.nodup, h.unsent⟩

/-- The row `x` is on the stream and about to be marked. -/
structure Published (w : OutboxWorld π) (x : OutboxRow π) (rest : List (OutboxRow π)) :
    Prop extends Batch w rest where
  appended : w.appended = some x.event_id
  row : x ∈ w.store ∧ x.sent = false
  fresh : x.event_id ∉ rest.map (·.event_id)
  entry : ∃ e ∈ w.stream, e.row = x.event_id ∧ e.fields.event = x.payload

theorem Published.commit {w : OutboxWorld π} {x : OutboxRow π} {rest : List (OutboxRow π)}
    (h : Published w x rest) {new rows : List (OutboxRow π)}
    (hc : commitRows new w.store = some rows) : Published { w with store := rows } x rest := by
  refine ⟨h.toBatch.commit hc, h.appended, ⟨?_, h.row.2⟩, h.fresh, h.entry⟩
  obtain ⟨rfl, -, -⟩ := commitRows_some hc
  exact List.mem_append_left _ h.row.1

/-- After a successful `XADD` the first row waits to be marked. -/
theorem Batch.published {w : OutboxWorld π} {x : OutboxRow π} {rest : List (OutboxRow π)}
    (h : Batch w (x :: rest)) {fields : StreamFields π} (hf : fields.event = x.payload) :
    Published (w.append x.event_id fields) x rest := by
  have hnd := h.nodup
  rw [List.map_cons, List.nodup_cons] at hnd
  obtain ⟨batch, hbatch, hsort, hmem⟩ := h.attempt (l := .published x.event_id) rfl
  refine ⟨⟨fun r hr => h.mem r (List.mem_cons_of_mem _ hr), hnd.2, ⟨batch, hbatch, hsort, hmem⟩,
    fun id hid => ?_, h.enabled⟩, rfl, h.mem x (List.mem_cons_self ..), hnd.1,
    ⟨⟨x.event_id, fields⟩, List.mem_append_right _ (List.mem_singleton.mpr rfl), rfl, hf⟩⟩
  obtain hid | hid := List.mem_append.mp hid
  · exact h.quiet id hid
  · cases List.mem_singleton.mp hid

/-- `UPDATE … SET sent = TRUE` on the table. -/
def markRows (id : UUID) (rows : List (OutboxRow π)) : List (OutboxRow π) :=
  outboxTable.markSent id rows

theorem mem_markRows {id : UUID} {rows : List (OutboxRow π)} {r : OutboxRow π}
    (h : r ∈ markRows id rows) : ∃ r' ∈ rows, r.event_id = r'.event_id ∧
      r.payload = r'.payload ∧ r.created_at = r'.created_at ∧
      (r.sent = true → r'.sent = true ∨ r'.event_id = id) ∧
      (r.sent = false → r'.sent = false ∧ r'.event_id ≠ id) := by
  obtain ⟨r', hr', rfl⟩ := List.mem_map.mp h
  refine ⟨r', hr', ?_⟩
  by_cases hid : r'.event_id = id <;> simp [hid]

theorem mem_markRows_of_mem (id : UUID) {rows : List (OutboxRow π)} {r : OutboxRow π}
    (h : r ∈ rows) : ∃ r' ∈ markRows id rows, r'.event_id = r.event_id ∧
      r'.payload = r.payload ∧ r'.created_at = r.created_at := by
  refine ⟨_, List.mem_map_of_mem h, ?_⟩
  by_cases hid : r.event_id = id <;> simp [hid]

theorem markRows_ids (id : UUID) (rows : List (OutboxRow π)) :
    (markRows id rows).map (·.event_id) = rows.map (·.event_id) := by
  refine map_key_update (fun r h => ?_) rows
  exact h

theorem Outgoing.mark {w : OutboxWorld π} (h : Outgoing w) {x : OutboxRow π}
    {rest : List (OutboxRow π)} (hp : Published w x rest) :
    Outgoing (w.mark outboxTable x.event_id) := by
  change Outgoing { w with
    store := markRows x.event_id w.store, appended := none
    log := w.log ++ [.marked x.event_id] }
  refine ⟨⟨fun r hr hs => ?_, fun e he => ?_, fun r hr => ?_, ?_, hp.toBatch.stops _,
    fun hd => ?_⟩, ?_, fun r hr hs => ?_⟩
  · obtain ⟨r', hr', hid, hpay, -, hsent, -⟩ := mem_markRows hr
    rw [hid, hpay]
    obtain hsent | hx := hsent hs
    · exact h.sent_published r' hr' hsent
    · rw [h.row_unique hr' hp.row.1 hx]
      exact hp.entry
  · obtain ⟨r, hr, hid, hpay⟩ := h.entries_committed e he
    obtain ⟨r', hr', hid', hpay', -⟩ := mem_markRows_of_mem x.event_id hr
    exact ⟨r', hr', hid'.trans hid, hpay'.trans hpay⟩
  · obtain ⟨r', hr', hid, -⟩ := mem_markRows hr
    simpa only [hid] using h.bounded r' hr'
  · obtain ⟨batch, hb, hsort, hmem⟩ := h.ordered
    refine ⟨batch, ?_, hsort, fun b hbb => ?_⟩
    · exact (attempts_marked _ _).trans hb
    · obtain ⟨r, hr, hid, hat⟩ := hmem b hbb
      obtain ⟨r', hr', hid', -, hat'⟩ := mem_markRows_of_mem x.event_id hr
      exact ⟨r', hr', hid'.trans hid, hat'.trans hat⟩
  · have he := hp.enabled
    rw [hd] at he
    cases he
  · rw [markRows_ids]
    exact h.nodup
  · obtain ⟨r', hr', hid, -, -, -, hun⟩ := mem_markRows hr
    have hold := h.unsent r' hr' (hun hs).1
    rw [hp.appended, if_neg (by simpa using (Ne.symm (hun hs).2))] at hold
    simpa only [hid, reduceCtorEq, if_false] using hold

/-- The rows after the marked one are still to publish. -/
theorem Published.mark {w : OutboxWorld π} {x : OutboxRow π} {rest : List (OutboxRow π)}
    (h : Published w x rest) :
    Batch (w.mark outboxTable x.event_id) rest := by
  refine ⟨fun r hr => ⟨?_, (h.mem r hr).2⟩, h.nodup, ?_, fun id hid => ?_, h.enabled⟩
  · refine List.mem_map.mpr ⟨r, (h.mem r hr).1, if_neg fun he => h.fresh ?_⟩
    exact he ▸ List.mem_map_of_mem hr
  · obtain ⟨batch, hb, hsort, hmem⟩ := h.ordered
    refine ⟨batch, ?_, hsort, fun b hbb => ?_⟩
    · exact (attempts_marked _ _).trans hb
    · obtain ⟨r, hr, hid, hat⟩ := hmem b hbb
      obtain ⟨r', hr', hid', -, hat'⟩ := mem_markRows_of_mem x.event_id hr
      exact ⟨r', hr', hid'.trans hid, hat'.trans hat⟩
  · obtain hid | hid := List.mem_append.mp hid
    · exact h.quiet id hid
    · cases List.mem_singleton.mp hid

/-- The failure that leaves an appended row unmarked is counted. -/
theorem Outgoing.hit {w : OutboxWorld π} (h : Outgoing w) : Outgoing w.hit := by
  unfold RelayWorld.hit
  refine ⟨⟨h.sent_published, h.entries_committed, fun r hr => ?_, h.ordered, h.stops, h.idle⟩,
    h.nodup, fun r hr hs => ?_⟩
  · have := h.bounded r hr
    simp only [List.count_append]
    omega
  · have hold := h.unsent r hr hs
    simp only [List.count_append]
    cases ha : w.appended with
    | none => simpa [ha] using hold
    | some id =>
      rw [ha] at hold
      by_cases hid : id = r.event_id <;> simp [hid] at hold ⊢ <;> omega

/-- Outside a batch. -/
def AtRest (w : OutboxWorld π) : Prop := Outgoing w ∧ w.appended = none

/-- The selected rows are the oldest unsent ones, in order. -/
theorem IsOrdered.batch {w : OutboxWorld π} {order : List (OutboxRow π)}
    (h : IsOrdered w.store order) (hw : Outgoing w) (hlog : w.log = []) (hen : w.disabled = false)
    (limit : Nat) : Batch w (order.take limit) := by
  obtain ⟨hperm, hsort⟩ := h
  have hsub : (order.take limit).Sublist order := List.take_sublist ..
  refine ⟨fun r hr => ?_, ?_, ⟨[], by simp [hlog, attempts], by simpa using hsort.sublist hsub,
    by simp⟩, by simp [hlog], hen⟩
  · have hmem := hperm.subset (hsub.subset hr)
    simpa [unsentRows] using hmem
  · have hnd : ((unsentRows w.store).map (·.event_id)).Nodup :=
      hw.nodup.sublist ((List.filter_sublist (l := w.store)).map _)
    exact ((hperm.map _).nodup_iff.mpr hnd).sublist (hsub.map _)

/-- A call begins: nothing logged, and what it finds is recorded. -/
theorem AtRest.enter {w : OutboxWorld π} (h : AtRest w) (enabled : Bool) :
    AtRest (w.enter outboxTable enabled) := by
  refine ⟨⟨⟨h.1.sent_published, h.1.entries_committed, h.1.bounded, ⟨[], rfl, .nil, by simp⟩,
    fun before id after he => ?_, fun _ => ⟨rfl, rfl⟩⟩, h.1.nodup, h.1.unsent⟩, h.2⟩
  cases before <;> cases he

theorem AtRest.leave {w : OutboxWorld π} (h : AtRest w) : AtRest w.leave :=
  ⟨⟨⟨h.1.sent_published, h.1.entries_committed, h.1.bounded, h.1.ordered, h.1.stops,
    fun hd => by cases hd⟩, h.1.nodup, h.1.unsent⟩, h.2⟩

/-- The outbox as the relay first finds it: unsent rows under distinct ids, and
nothing on the stream. -/
def Unsent (w : OutboxWorld π) : Prop :=
  (∀ r ∈ w.store, r.sent = false) ∧ (w.store.map (·.event_id)).Nodup ∧ w.stream = [] ∧
    w.appended = none ∧ w.hits = [] ∧ w.log = [] ∧ w.disabled = false

theorem Unsent.atRest {w : OutboxWorld π} (h : Unsent w) : AtRest w := by
  obtain ⟨hunsent, hnd, hstream, happ, hhits, hlog, hdis⟩ := h
  refine ⟨⟨⟨fun r hr hs => ?_, by simp [hstream], by simp [hstream, entriesFor],
    ⟨[], by simp [hlog, attempts], .nil, by simp⟩, fun before id after he => ?_, by simp [hdis]⟩,
    hnd, by simp [hstream, entriesFor]⟩, happ⟩
  · rw [hunsent r hr] at hs
    cases hs
  · rw [hlog] at he
    cases before <;> cases he

/-! ## The argument -/

/-- What holds at the points of a batch. -/
def outboxPoints : Points (List (OutboxRow π)) π where
  rest := AtRest
  start w := AtRest w ∧ w.log = [] ∧ w.disabled = false
  rows rs w := AtRest w ∧ Batch w rs
  mark x rs w := Outgoing w ∧ Published w x rs

section Argument

variable [DecidableEq π] (schemaVersion : π → Option String)

theorem stable_of {A : OutboxWorld π → Prop}
    (h : ∀ w new rows, A w → commitRows new w.store = some rows → A { w with store := rows }) :
    Stable (outboxRelay schemaVersion) Guard.any A := by
  intro w e w' hA _ he
  obtain ⟨rows, hrows, rfl⟩ := Option.map_eq_some_iff.mp he
  exact h w e rows hA hrows

theorem outboxRules : RelayRules outboxTable schemaVersion commitRows Guard.any
    (Outgoing (π := π)) outboxPoints where
  rest_stable := stable_of _ fun _ _ _ h hc => ⟨h.1.commit hc, h.2⟩
  start_stable := stable_of _ fun _ _ _ h hc => ⟨⟨h.1.1.commit hc, h.1.2⟩, h.2⟩
  rows_stable _ := stable_of _ fun _ _ _ h hc => ⟨⟨h.1.1.commit hc, h.1.2⟩, h.2.commit hc⟩
  mark_stable _ _ := stable_of _ fun _ _ _ h hc => ⟨h.1.commit hc, h.2.commit hc⟩
  rest_C _ h := h.1
  rows_C _ _ h := h.1.1
  mark_C _ _ _ h := h.1
  start_rest _ h := h.1
  nil_rest _ h := h.1
  select _ _ limit h hord := ⟨h.1, hord.batch h.1.1 h.2.1 h.2.2 limit⟩
  append _ _ _ _ h hf :=
    ⟨h.1.1.append h.1.2 h.2 hf rfl (.inl ⟨rfl, rfl⟩), h.2.published hf⟩
  refuse _ _ _ h := ⟨h.1.1.raised h.2, h.1.2⟩
  appendLost _ _ _ _ h hf := ⟨h.1.1.append h.1.2 h.2 hf rfl (.inr ⟨rfl, h.1.2⟩), h.1.2⟩
  mark _ _ _ h := ⟨⟨h.1.mark h.2, rfl⟩, h.2.mark⟩
  markLate _ _ _ h := ⟨h.1.mark h.2, rfl⟩
  markLost _ _ _ h := ⟨h.1.hit, rfl⟩
  enter _ enabled h := h.enter enabled
  begin _ h := ⟨h.enter true, rfl, rfl⟩
  leave _ h := h.leave
  crash _ h _ := AtRest.leave ⟨h.hit, rfl⟩

/-- **At least once, never dropped.** Whatever raises, wherever the process
dies and whatever commits in between, a marked row is on the stream, every
entry is a committed row's payload, a row is on the stream at most once more
than failures hit it, a call publishes by age and stops at the first failure,
and a disabled relay does nothing. -/
theorem relay_delivers
    {s : State (RelayCall π) RelayCall.Result RelayError (OutboxWorld π) (Option Int)}
    (h : Reach (step (outboxRelay schemaVersion)) Guard.any.ok (idle Unsent) s) :
    Delivered s.world :=
  (outboxRules schemaVersion).proof.always (A := Delivered) (fun _ h => h.1.toDelivered)
    (fun _ h => h.toDelivered) (h.mono (fun _ hs => ⟨hs.1.atRest, hs.2⟩) fun _ _ h => h)

end Argument

/-- Two rows, the older one second. -/
def twoRows : OutboxWorld Nat where
  store := [⟨⟨2⟩, ⟨"LedgerUpdated", by decide⟩, 20, false, 9⟩,
    ⟨⟨1⟩, ⟨"LedgerUpdated", by decide⟩, 10, false, 5⟩]
  stream := []
  appended := none
  hits := []
  log := []
  disabled := false
  streamBefore := []
  sentBefore := []

/-- A crash after the first append, then both rows through, then a disabled call. -/
def crashedBatch : List (Act RelayEntry (RelayChoice Nat) (List (OutboxRow Nat))) :=
  let rows := .call (.rows twoRows.store.reverse)
  [.enter (.relayBatch ⟨true, 10⟩), rows, .call .done, .crash,
    .enter (.drainScheduled ⟨true, 10⟩), rows, .call .done, .call .done, .call .done, .call .done,
    .leave, .enter (.relayBatch ⟨false, 10⟩)]

theorem relay_delivers_crashedBatch : ∃ w : OutboxWorld Nat,
    w.stream.map (·.fields.event) = [10, 10, 20] ∧ (∀ r ∈ w.store, r.sent = true) ∧
      Delivered w := by
  obtain ⟨s, hs, hp⟩ := Reach.exists_of_run (step (outboxRelay fun _ : Nat => none))
    Guard.any.ok (idle Unsent) crashedBatch
    (fun s => s.world.stream.map (·.fields.event) = [10, 10, 20] ∧
      ∀ r ∈ s.world.store, r.sent = true)
    (s := ⟨twoRows, none⟩)
    ⟨⟨by decide, by decide, rfl, rfl, rfl, rfl, rfl⟩, rfl⟩ (by decide +kernel)
  obtain ⟨hstream, hsent⟩ := of_decide_eq_true hp
  exact ⟨s.world, hstream, hsent, relay_delivers _ hs⟩

end TradePulse.Ledger
