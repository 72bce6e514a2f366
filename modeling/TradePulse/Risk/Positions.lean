import TradePulse.Risk.ExactlyOnce

/-! # Positions and the order of the stream

`latest_positions` takes the last row inserted for each symbol. Entries reach
the log from fresh reads and from reclaims, and a crash leaves entries behind
that only a later reclaim takes up. As long as no pass is handed an entry
ahead of one of the same account and symbol that was left behind, the rows are
in stream order and the last is the last on the stream. -/
namespace TradePulse.Risk
open TradePulse.Core TradePulse.Core.Process TradePulse.Core.Runs
open TradePulse.Core.StreamLog (after)

variable {F : Type} [PyFloat F] {loads : String → Except PyError (Json F)} {config : Config F}

/-! ## The property -/

variable (loads) in
/-- Valid envelopes with distinct event ids. -/
structure DistinctStream (log : List Fields) : Prop where
  valid : ∀ env ∈ envelopes loads log, SchemaValid env
  distinct : ((envelopes loads log).map Json.eventId).Nodup

variable (loads) in
/-- A new group on a stream of distinct events, and a file without events. -/
def freshDistinct (w : RiskWorld F) : Prop :=
  w.ledger.New ∧ DistinctStream loads w.ledger.log ∧ w.store.applied_events = []

/-- The last envelope of an account and symbol, in stream order. -/
def lastOf (envs : List (Json F)) (p : String × String) : Option (Json F) :=
  (envs.filter (·.pair = some p)).getLast?

variable (loads) in
/-- Each symbol of an account is at the position of its last envelope. -/
def PositionsFollow (w : RiskWorld F) : Prop :=
  ∀ a, ∃ positions, w.store.latestPositions (.str a) = .ok positions ∧
    ∀ y q, (∃ price, (y, q, price) ∈ positions) ↔
      ∃ env, lastOf (envelopes loads w.ledger.log) (a, y) = some env ∧ env.positionAfter = q

def AllAcked (w : RiskWorld F) : Prop := ∀ e ∈ after w.ledger.log 0, e.1 ∈ w.ledger.acked

instance (w : RiskWorld F) : Decidable (AllAcked w) :=
  inferInstanceAs (Decidable (∀ e ∈ _, _ ∈ _))

/-! ## Conditions on runs -/

/-- The world does not raise. -/
def RiskChoice.answers : RiskChoice F → Bool
  | .raiseBefore | .raiseAfter => false
  | _ => true

def RiskEnv.replays : RiskEnv → Bool
  | .setId _ _ => true
  | _ => false

/-- The worker may crash anywhere; Redis answers, and nothing is replayed. -/
def crashesOnly : WorkerGuard F where
  enter _ _ := True
  call _ o _ := o.answers
  crash _ := True
  env e _ := !e.replays

instance (c : WorkerCall F) (w : RiskWorld F) : Decidable (crashesOnly.enter c w) := .isTrue trivial
instance (i : RiskCall F) (o : RiskChoice F) (w : RiskWorld F) :
    Decidable (crashesOnly.call i o w) := inferInstanceAs (Decidable (o.answers = true))
instance (w : RiskWorld F) : Decidable (crashesOnly.crash w) := .isTrue trivial
instance (e : RiskEnv) (w : RiskWorld F) : Decidable (crashesOnly.env e w) :=
  inferInstanceAs (Decidable ((!e.replays) = true))

variable (loads) in
/-- The event of an entry is in the log. -/
def EventIn (events : List (AppliedEvent F)) (e : Nat × Fields) : Prop :=
  (envelope loads e.2).eventId ∈ events.map (·.event_id)

instance (events : List (AppliedEvent F)) (e : Nat × Fields) :
    Decidable (EventIn loads events e) := inferInstanceAs (Decidable (_ ∈ _))

variable (loads) in
/-- `e` comes earlier on the stream than `e'`, for the same account and symbol. -/
def Before (e e' : Nat × Fields) : Prop :=
  e.1 < e'.1 ∧ (envelope loads e'.2).pair.isSome ∧
    (envelope loads e.2).pair = (envelope loads e'.2).pair

instance (e e' : Nat × Fields) : Decidable (Before loads e e') :=
  inferInstanceAs (Decidable (_ ∧ _))

variable (loads) in
/-- Of the entries handed out, those still to be applied come behind no entry
that is neither applied nor handed out with them. -/
def NoneLeftBehind (log : List Fields) (events : List (AppliedEvent F))
    (rs : List (Nat × Fields)) : Prop :=
  ∀ e' ∈ rs, ¬ EventIn loads events e' → ∀ e ∈ after log 0, Before loads e e' →
    EventIn loads events e ∨ e ∈ rs

instance (log : List Fields) (events : List (AppliedEvent F)) (rs : List (Nat × Fields)) :
    Decidable (NoneLeftBehind loads log events rs) :=
  decidable_of_iff (∀ e' ∈ rs, EventIn loads events e' ∨
      ∀ e ∈ after log 0, ¬ Before loads e e' ∨ EventIn loads events e ∨ e ∈ rs) (by
    simp only [NoneLeftBehind, or_iff_not_imp_left, not_not])

variable (loads) in
/-- What a call hands out leaves no entry behind. -/
def InOrderCall : RiskCall F → RiskWorld F → Prop
  | .xreadgroup .ledger n, w =>
    NoneLeftBehind loads w.ledger.log w.store.applied_events (w.ledger.unread n.toNat)
  | .xautoclaim m n, w =>
    NoneLeftBehind loads w.ledger.log w.store.applied_events (w.ledger.claimable m.toNat n.toNat)
  | _, _ => True

instance : (i : RiskCall F) → (w : RiskWorld F) → Decidable (InOrderCall loads i w)
  | .xreadgroup .ledger _, _ | .xautoclaim _ _, _ =>
    inferInstanceAs (Decidable (NoneLeftBehind ..))
  | .xreadgroup .ticks _, _ | .xack _ _, _ | .xadd _, _ | .select, _ | .upsertPrice _ _, _
  | .appendPrice _ _ _ _, _ | .appendPv _ _ _ _, _ | .applyLedgerEvent _, _
  | .saveRiskSnapshot _ _ _, _ | .nowIso, _ | .uuid4, _ | .monotonic, _ | .lastRecompute, _
  | .setLastRecompute _, _ => .isTrue trivial

variable (loads) in
/-- `XREADGROUP` and `XAUTOCLAIM` leave none behind. Crashes, Redis errors,
replays and the passage of time are not restricted. -/
def handedInOrder : WorkerGuard F where
  enter _ _ := True
  call i _ w := InOrderCall loads i w
  crash _ := True
  env _ _ := True

instance (c : WorkerCall F) (w : RiskWorld F) : Decidable ((handedInOrder loads).enter c w) :=
  .isTrue trivial
instance (i : RiskCall F) (o : RiskChoice F) (w : RiskWorld F) :
    Decidable ((handedInOrder loads).call i o w) :=
  inferInstanceAs (Decidable (InOrderCall loads i w))
instance (w : RiskWorld F) : Decidable ((handedInOrder loads).crash w) := .isTrue trivial
instance (e : RiskEnv) (w : RiskWorld F) : Decidable ((handedInOrder loads).env e w) :=
  .isTrue trivial

/-! ## The rows of an account and symbol -/

variable (loads) in
/-- The event ids of a pair on the stream. -/
def eventIdsOf (p : String × String) (log : List Fields) : List (Option String) :=
  ((envelopes loads log).filter (·.pair = some p)).map Json.eventId

def rowsOf (p : String × String) (rows : List (AppliedEvent F)) : List (AppliedEvent F) :=
  rows.filter fun row => (row.account_id, row.symbol) = p

def rowIdsOf (p : String × String) (rows : List (AppliedEvent F)) : List (Option String) :=
  (rowsOf p rows).map (·.event_id)

variable (loads) in
/-- The rows of each pair are in stream order, and none is left out. -/
structure InStep (g : ConsumerGroup Fields) (events : List (AppliedEvent F)) : Prop where
  sound : Sound loads g events
  distinct : DistinctStream loads g.log
  order : ∀ p, rowIdsOf p events <+: eventIdsOf loads p g.log

omit [PyFloat F] in
theorem eventIdsOf_append (p : String × String) (log log' : List Fields) :
    eventIdsOf loads p (log ++ log') = eventIdsOf loads p log ++ eventIdsOf loads p log' := by
  simp only [eventIdsOf, envelopes, List.map_append, List.filter_append]

omit [PyFloat F] in
theorem eventIdsOf_mono {p : String × String} {log log' : List Fields} (h : log <+: log') :
    eventIdsOf loads p log <+: eventIdsOf loads p log' := ((h.map _).filter _).map _

omit [PyFloat F] in
theorem mem_eventIdsOf {p : String × String} {log : List Fields} {id : Option String} :
    id ∈ eventIdsOf loads p log ↔
      ∃ env ∈ envelopes loads log, env.pair = some p ∧ env.eventId = id := by
  simp only [eventIdsOf, List.mem_map, List.mem_filter, decide_eq_true_eq, and_assoc]

theorem DistinctStream.validStream {log : List Fields} (h : DistinctStream loads log) :
    ValidStream loads log where
  valid := h.valid
  event_id _ he _ he' := List.inj_on_of_nodup_map h.distinct he he'

theorem DistinctStream.eventIdsOf_nodup {log : List Fields} (h : DistinctStream loads log)
    (p : String × String) : (eventIdsOf loads p log).Nodup :=
  h.distinct.sublist (List.filter_sublist.map _)

/-- The row of an envelope that is in the log is a row of its pair. -/
theorem Sound.mem_rowIdsOf {g : ConsumerGroup Fields} {events : List (AppliedEvent F)}
    (h : Sound loads g events) {env : Json F} (henv : env ∈ envelopes loads g.log)
    {p : String × String} (hp : env.pair = some p)
    (hin : env.eventId ∈ events.map (·.event_id)) : env.eventId ∈ rowIdsOf p events := by
  obtain ⟨row, hrow, hid⟩ := List.mem_map.mp hin
  obtain ⟨env', henv', hof⟩ := h.rows row hrow
  obtain rfl := h.stream.event_id env henv env' henv' (hid ▸ hof.event_id)
  have hpair : (row.account_id, row.symbol) = p := Option.some.inj (hof.pair.symm.trans hp)
  exact List.mem_map.mpr ⟨row, List.mem_filter.mpr ⟨hrow, decide_eq_true hpair⟩, hid⟩

/-! ## Passes -/

theorem InStep.grow {g g' : ConsumerGroup Fields} {events : List (AppliedEvent F)}
    (h : InStep loads g events) (hlog : g.log <+: g'.log) (hacked : g'.acked = g.acked)
    (hstream : DistinctStream loads g'.log) : InStep loads g' events where
  sound := h.sound.grow hlog hacked hstream.validStream
  distinct := hstream
  order p := (h.order p).trans (eventIdsOf_mono hlog)

omit [PyFloat F] in
theorem NoneLeftBehind.grow {log log' : List Fields} {events : List (AppliedEvent F)}
    {rs : List (Nat × Fields)} (h : NoneLeftBehind loads log events rs)
    (hrs : ConsumerGroup.InOrder log rs) (hlog : log <+: log') :
    NoneLeftBehind loads log' events rs := by
  intro e' he' hnew e he hbefore
  exact h e' he' hnew e (StreamLog.mem_after_of_lt hlog (hrs.subset he') hbefore.1 he) hbefore

omit [PyFloat F] in
/-- Once the first entry is applied, the rest can do without it. -/
theorem NoneLeftBehind.tail {log : List Fields} {events events' : List (AppliedEvent F)}
    {x : Nat × Fields} {rs : List (Nat × Fields)}
    (h : NoneLeftBehind loads log events (x :: rs)) (hevents : events <+: events')
    (hx : EventIn loads events' x) : NoneLeftBehind loads log events' rs := by
  have hmono : ∀ e, EventIn loads events e → EventIn loads events' e :=
    fun _ he => (hevents.map _).subset he
  intro e' he' hnew e he hbefore
  obtain hin | hmem := h e' (List.mem_cons_of_mem _ he') (fun h => hnew (hmono _ h)) e he hbefore
  · exact .inl (hmono e hin)
  · obtain rfl | hmem := List.mem_cons.mp hmem
    · exact .inl hx
    · exact .inr hmem

omit [PyFloat F] in
theorem rowsOf_snoc (p : String × String) (rows : List (AppliedEvent F)) (row : AppliedEvent F) :
    rowIdsOf p (rows ++ [row]) = rowIdsOf p rows ++
      if (row.account_id, row.symbol) = p then [row.event_id] else [] := by
  rw [rowIdsOf, rowsOf, List.filter_append, List.map_append, rowIdsOf, rowsOf,
    List.filter_singleton]
  by_cases hp : (row.account_id, row.symbol) = p <;> simp [hp]

/-- The first of the entries handed out is next among those of its pair. -/
theorem InStep.snoc {g : ConsumerGroup Fields} {events : List (AppliedEvent F)}
    (h : InStep loads g events) {x : Nat × Fields} {rs : List (Nat × Fields)}
    (hrs : ConsumerGroup.InOrder g.log (x :: rs))
    (hbehind : NoneLeftBehind loads g.log events (x :: rs)) {row : AppliedEvent F}
    (hof : RowOf (envelope loads x.2) row) (hnew : ¬ EventIn loads events x)
    (p : String × String) : rowIdsOf p (events ++ [row]) <+: eventIdsOf loads p g.log := by
  rw [rowsOf_snoc]
  split
  · rename_i hp
    have hpair : (envelope loads x.2).pair = some p := hp ▸ hof.pair
    obtain ⟨hpos, hx⟩ := StreamLog.mem_after.mp (hrs.subset (List.mem_cons_self ..))
    obtain ⟨hlt, hget⟩ := List.getElem?_eq_some_iff.mp hx
    have hsplit : g.log = g.log.take (x.1 - 1) ++ x.2 :: g.log.drop (x.1 - 1 + 1) := by
      rw [← hget, List.getElem_cons_drop, List.take_append_drop]
    have hids : eventIdsOf loads p g.log = eventIdsOf loads p (g.log.take (x.1 - 1)) ++
        row.event_id :: eventIdsOf loads p (g.log.drop (x.1 - 1 + 1)) := by
      have hhead : eventIdsOf loads p [x.2] = [row.event_id] := by
        simp [eventIdsOf, envelopes, hpair, hof.event_id]
      conv_lhs => rw [hsplit, ← List.singleton_append, eventIdsOf_append, eventIdsOf_append, hhead]
      rfl
    refine StreamLog.prefix_snoc (h.order p) hids (h.distinct.eventIdsOf_nodup p) ?_ ?_
    · intro hin
      rw [EventIn, ← hof.event_id] at hnew
      exact hnew ((List.filter_sublist.map _).subset hin)
    · intro id hid
      obtain ⟨env, henv, hepair, rfl⟩ := mem_eventIdsOf.mp hid
      obtain ⟨fields, hfields, rfl⟩ := List.mem_map.mp henv
      obtain ⟨i, hi⟩ := List.getElem?_of_mem hfields
      rw [List.getElem?_take, Option.ite_none_right_eq_some] at hi
      obtain ⟨hilt, hi⟩ := hi
      have hmem : (i + 1, fields) ∈ after g.log 0 := StreamLog.mem_after.mpr ⟨by simp, hi⟩
      have hbefore : Before loads (i + 1, fields) x :=
        ⟨by simp; omega, by rw [hpair]; rfl, hepair.trans hpair.symm⟩
      have hin : EventIn loads events (i + 1, fields) := by
        obtain hin | hmem' := hbehind x (List.mem_cons_self ..) hnew _ hmem hbefore
        · exact hin
        · obtain heq | hmem' := List.mem_cons.mp hmem'
          · exact absurd hbefore.1 (by rw [heq]; exact Nat.lt_irrefl _)
          · have hlt := List.rel_of_pairwise_cons
              ((StreamLog.after_pairwise g.log 0).sublist hrs) hmem'
            exact absurd hbefore.1 (Nat.lt_asymm hlt)
      exact h.sound.mem_rowIdsOf (envelope_mem hmem) hepair hin
  · rw [List.append_nil]
    exact h.order p

theorem InStep.insert {g : ConsumerGroup Fields} {events : List (AppliedEvent F)}
    (h : InStep loads g events) {x : Nat × Fields} {rs : List (Nat × Fields)}
    (hrs : ConsumerGroup.InOrder g.log (x :: rs))
    (hbehind : NoneLeftBehind loads g.log events (x :: rs)) {row : AppliedEvent F}
    (hof : RowOf (envelope loads x.2) row) :
    InStep loads g (RiskStore.insertOrIgnore events row).2 ∧
      AppliedAt loads g (RiskStore.insertOrIgnore events row).2 x.1 ∧
      NoneLeftBehind loads g.log (RiskStore.insertOrIgnore events row).2 rs := by
  have hmem := hrs.subset (List.mem_cons_self ..)
  obtain ⟨hsound, hat⟩ := h.sound.insert hmem hof
  refine ⟨⟨hsound, h.distinct, ?_⟩, hat, ?_⟩ <;>
    rw [(h.distinct.valid _ (envelope_mem hmem)).insertOrIgnore hof]
  · split
    · exact h.order
    · exact h.snoc hrs hbehind hof ‹_›
  · split
    · exact hbehind.tail (List.prefix_refl _) ‹_›
    · exact hbehind.tail (List.prefix_append ..) (by simp [EventIn, hof.event_id])

variable (loads) in
/-- Before an entry of a pass, and before its acknowledgement. -/
def orderPoints : LedgerPoints F where
  rest := InStep loads
  todo rs g events := InStep loads g events ∧ ConsumerGroup.InOrder g.log rs ∧
    NoneLeftBehind loads g.log events rs
  done id rs g events := InStep loads g events ∧ AppliedAt loads g events id ∧
    ConsumerGroup.InOrder g.log rs ∧ NoneLeftBehind loads g.log events rs

theorem order_rules :
    LedgerRules loads config (growing (handedInOrder loads) (DistinctStream loads))
      (orderPoints loads) where
  rest_stable w e w' h hg hx := by
    cases hx
    obtain ⟨hlog, hacked, hstream, hstore⟩ := ledger_env hg.2 h.distinct
    rw [onLedger, hstore]
    exact InStep.grow h hlog hacked hstream
  todo_stable rs w e w' h hg hx := by
    cases hx
    obtain ⟨hlog, hacked, hstream, hstore⟩ := ledger_env hg.2 h.1.distinct
    rw [onLedger, hstore]
    exact ⟨h.1.grow hlog hacked hstream, h.2.1.grow hlog, h.2.2.grow h.2.1 hlog⟩
  done_stable id rs w e w' h hg hx := by
    cases hx
    obtain ⟨hlog, hacked, hstream, hstore⟩ := ledger_env hg.2 h.1.distinct
    rw [onLedger, hstore]
    obtain ⟨hstep, hat, hrs, hbehind⟩ := h
    exact ⟨hstep.grow hlog hacked hstream, hat.grow hlog (List.prefix_refl _), hrs.grow hlog,
      hbehind.grow hrs hlog⟩
  todo_rest _ _ _ h := h.1
  done_rest _ _ _ _ h := h.1
  read w n _ h hg := ⟨h.grow (List.prefix_refl _) rfl h.distinct, w.ledger.inOrder_unread _, hg⟩
  claim w m n _ h hg :=
    ⟨h.grow (List.prefix_refl _) rfl h.distinct, w.ledger.inOrder_claimable _ _, hg⟩
  skip id fields rs g events h hev := by
    have hvalid := h.1.distinct.valid _ (envelope_mem (h.2.1.subset (List.mem_cons_self ..)))
    rw [hvalid.entryEvent] at hev
    cases hev
  ignore id fields rs g events event h hev hrow := by
    have hvalid := h.1.distinct.valid _ (envelope_mem (h.2.1.subset (List.mem_cons_self ..)))
    obtain ⟨_, hsome, -⟩ := hvalid.row_of_event hev hrow
    cases hsome
  apply id fields rs g events event row h hev hrow := by
    have hmem := h.2.1.subset (List.mem_cons_self ..)
    obtain ⟨_, hsome, hof⟩ := (h.1.distinct.valid _ (envelope_mem hmem)).row_of_event hev hrow
    cases hsome
    obtain ⟨hstep, hat, hbehind⟩ := h.1.insert h.2.1 h.2.2 hof
    exact ⟨hstep, hat, (List.sublist_cons_self ..).trans h.2.1, hbehind⟩
  ack id rs g events h := ⟨⟨h.1.sound.ack h.2.1, h.1.distinct, h.1.order⟩, h.2.2⟩

/-! ## The last rows -/

omit [PyFloat F] in
/-- `MAX(rowid)` by account and symbol picks the last row of each pair. -/
theorem mem_latest {rows : List (AppliedEvent F)} {row : AppliedEvent F} :
    row ∈ RiskStore.latest rows ↔
      (rowsOf (row.account_id, row.symbol) rows).getLast? = some row := by
  induction rows with
  | nil => simp [RiskStore.latest, rowsOf]
  | cons x rows ih =>
    have hany : (rows.any fun later => later.account_id = x.account_id &&
        later.symbol = x.symbol) = true ↔ rowsOf (x.account_id, x.symbol) rows ≠ [] := by
      simp [rowsOf, List.any_eq_true]
    rw [RiskStore.latest]
    by_cases hx : (x.account_id, x.symbol) = (row.account_id, row.symbol)
    · have hcons : rowsOf (row.account_id, row.symbol) (x :: rows) =
          x :: rowsOf (row.account_id, row.symbol) rows :=
        List.filter_cons_of_pos (decide_eq_true hx)
      rw [hcons]
      rw [hx] at hany
      split
      · rename_i h
        rw [ih, List.getLast?_cons_of_ne_nil (hany.mp h)]
      · rename_i h
        rw [List.mem_cons, ih, not_ne_iff.mp (mt hany.mpr h)]
        simp [eq_comm]
    · have hcons : rowsOf (row.account_id, row.symbol) (x :: rows) =
          rowsOf (row.account_id, row.symbol) rows :=
        List.filter_cons_of_neg (by simpa using hx)
      rw [hcons, ← ih]
      split
      · rfl
      · have hne : row ≠ x := by
          rintro rfl
          exact hx rfl
        simp [hne]

theorem mem_latestPositions (s : RiskStore F) (a : String) :
    ∃ positions, s.latestPositions (.str a) = .ok positions ∧
      ∀ y q, (∃ price, (y, q, price) ∈ positions) ↔
        ∃ row, (rowsOf (a, y) s.applied_events).getLast? = some row ∧ row.position_after = q := by
  refine ⟨_, rfl, fun y q => ?_⟩
  simp only [List.mem_map, List.mem_insertionSort, List.mem_filter, Prod.mk.injEq,
    decide_eq_true_eq, Option.some.injEq, mem_latest]
  constructor
  · rintro ⟨price, row, ⟨hlast, rfl⟩, rfl, rfl, -⟩
    exact ⟨row, hlast, rfl⟩
  · rintro ⟨row, hlast, rfl⟩
    have hpair := of_decide_eq_true (List.mem_filter.mp (List.mem_of_getLast? hlast)).2
    obtain ⟨rfl, rfl⟩ := Prod.mk.inj hpair
    exact ⟨_, row, ⟨hlast, rfl⟩, rfl, rfl, rfl⟩

/-- With everything acknowledged no row is missing. -/
theorem InStep.rowIdsOf_eq {w : RiskWorld F}
    (h : InStep loads w.ledger w.store.applied_events) (hacked : AllAcked w)
    (p : String × String) :
    rowIdsOf p w.store.applied_events = eventIdsOf loads p w.ledger.log := by
  refine (h.order p).eq_of_length_le ?_
  refine (List.subperm_of_subset (h.distinct.eventIdsOf_nodup p) fun id hid => ?_).length_le
  obtain ⟨env, henv, hpair, rfl⟩ := mem_eventIdsOf.mp hid
  obtain ⟨fields, hfields, rfl⟩ := List.mem_map.mp henv
  obtain ⟨i, hi⟩ := List.getElem?_of_mem hfields
  have hmem : (i + 1, fields) ∈ after w.ledger.log 0 := StreamLog.mem_after.mpr ⟨by simp, hi⟩
  obtain ⟨fields', hmem', hin⟩ := h.sound.acked _ (hacked _ hmem)
  have hsame := (StreamLog.mem_after.mp hmem).2.symm.trans (StreamLog.mem_after.mp hmem').2
  cases hsame
  exact h.sound.mem_rowIdsOf henv hpair hin

theorem InStep.positionsFollow {w : RiskWorld F}
    (h : InStep loads w.ledger w.store.applied_events) (hacked : AllAcked w) :
    PositionsFollow loads w := by
  intro a
  obtain ⟨positions, hok, hmem⟩ := mem_latestPositions w.store a
  refine ⟨positions, hok, fun y q => (hmem y q).trans ?_⟩
  have hlast := congrArg List.getLast? (h.rowIdsOf_eq hacked (a, y))
  rw [rowIdsOf, eventIdsOf, List.getLast?_map, List.getLast?_map] at hlast
  change _ = Option.map _ (lastOf _ _) at hlast
  have hrow : ∀ row env, (rowsOf (a, y) w.store.applied_events).getLast? = some row →
      lastOf (envelopes loads w.ledger.log) (a, y) = some env →
      row.position_after = env.positionAfter := by
    intro row env hr he
    rw [hr, he] at hlast
    obtain ⟨env', henv', hof⟩ := h.sound.rows row (List.mem_filter.mp (List.mem_of_getLast? hr)).1
    have henv := (List.mem_filter.mp (List.mem_of_getLast? he)).1
    have hid : env'.eventId = env.eventId := hof.event_id.symm.trans (Option.some.inj hlast)
    rw [hof.position_after, h.sound.stream.event_id env' henv' env henv hid]
  cases hr : (rowsOf (a, y) w.store.applied_events).getLast? with
  | none =>
    rw [hr, Option.map_none, eq_comm, Option.map_eq_none_iff] at hlast
    simp [hlast]
  | some row =>
    rw [hr, Option.map_some, eq_comm, Option.map_eq_some_iff] at hlast
    obtain ⟨env, he, -⟩ := hlast
    simp [he, hrow row env hr he]

/-- **Positions follow the stream while passes are handed entries in order.**
In every run in which no entry is handed out ahead of an earlier one of its
account and symbol that is neither applied nor handed out with it, the
positions are those of the last envelopes whenever every entry is
acknowledged. -/
theorem positions_follow {s : WorkerState F}
    (h : Reach (step (worker loads config))
      (growing (handedInOrder loads) (DistinctStream loads)).ok (idle (freshDistinct loads)) s)
    (hacked : AllAcked s.world) : PositionsFollow loads s.world := by
  refine InStep.positionsFollow ?_ hacked
  refine order_rules.proof.always (A := onLedger (InStep loads)) (fun _ h => h) (fun _ h => h)
    (h.mono (fun s hs => ⟨?_, hs.2⟩) fun _ _ h => h)
  obtain ⟨⟨hnew, hstream, hevents⟩, -⟩ := hs
  refine ⟨sound_of_fresh ⟨hnew, hstream.validStream, hevents⟩, hstream, fun p => ?_⟩
  rw [hevents]
  exact List.nil_prefix

/-! ## Two purchases and a crash -/

def twoBuys : List Fields := [firstBuy.fields, secondBuy.fields]

theorem twoBuys_envelopes : envelopes buyLoads twoBuys = [firstBuy.json, secondBuy.json] := by
  simp only [envelopes, twoBuys, List.map_cons, List.map_nil, envelope_firstBuy,
    envelope_secondBuy]

theorem twoBuys_fresh : freshDistinct buyLoads (worldOf twoBuys) := by
  refine ⟨⟨rfl, fun _ => rfl, rfl⟩, ⟨?_, ?_⟩, rfl⟩
  · change ∀ env ∈ envelopes buyLoads twoBuys, SchemaValid env
    rw [twoBuys_envelopes, List.forall_mem_cons, List.forall_mem_singleton]
    exact ⟨firstBuy.schemaValid, secondBuy.schemaValid⟩
  · change ((envelopes buyLoads twoBuys).map Json.eventId).Nodup
    rw [twoBuys_envelopes]
    decide

/-- A crash between the two entries of a batch; both are reclaimed together. -/
def crashAndReclaim : List (WorkerAct ℚ) :=
  opening ++ applyNew "t1" ++ [.crash, .env (.elapse 30000), .enter .cycle, .call .done] ++
    applyKnown ++ applyNew "t2" ++ publishNew "r2" ++ [.call .done, .call .done, .leave]

theorem positions_follow_reclaim : ∃ s : WorkerState ℚ, AllAcked s.world ∧
    s.world.store.applied_events.map (·.position_after) = [1, 2] ∧
    PositionsFollow buyLoads s.world := by
  obtain ⟨s, hs, hp⟩ := Reach.exists_of_run (step (worker buyLoads settings))
    (growing (handedInOrder buyLoads) fun _ => False).ok
    (idle (freshDistinct buyLoads)) crashAndReclaim
    (fun s => AllAcked s.world ∧ s.world.store.applied_events.map (·.position_after) = [1, 2])
    (s := ⟨worldOf twoBuys, none⟩) ⟨twoBuys_fresh, rfl⟩ (by decide +kernel)
  obtain ⟨hacked, hrows⟩ := of_decide_eq_true hp
  exact ⟨s, hacked, hrows,
    positions_follow (hs.mono (fun _ h => h) fun _ _ => growing_of_none) hacked⟩

/-- The same crash, with batches of one: the second purchase is read before the
first has been idle long enough. -/
def readAhead : List (WorkerAct ℚ) :=
  opening ++ [.crash] ++ opening ++ applyNew "t2" ++ publishNew "r2" ++
    [.leave, .env (.elapse 30000), .enter .cycle, .call .done] ++ applyNew "t1" ++
    publishNew "r1" ++ [.call .done, .call .done, .leave]

/-- A crash and an early read put the rows in the wrong order: with everything
acknowledged, the position is that of the first purchase. -/
theorem positions_can_fall_back : ∃ s : WorkerState ℚ,
    Reach (step (worker buyLoads { settings with batch_size := 1 }))
      (growing crashesOnly (DistinctStream buyLoads)).ok (idle (freshDistinct buyLoads)) s ∧
    AllAcked s.world ∧ ¬ PositionsFollow buyLoads s.world := by
  obtain ⟨s, hs, hp⟩ := Reach.exists_of_run
    (step (worker buyLoads { settings with batch_size := 1 }))
    (growing crashesOnly fun _ => False).ok
    (idle (freshDistinct buyLoads)) readAhead
    (fun s => AllAcked s.world ∧ s.world.ledger.log = twoBuys ∧
      (s.world.store.latestPositions (.str "A")).toOption = some [("X", 1, 4)])
    (s := ⟨worldOf twoBuys, none⟩) ⟨twoBuys_fresh, rfl⟩ (by decide +kernel)
  obtain ⟨hacked, hlog, hpos⟩ := of_decide_eq_true hp
  refine ⟨s, hs.mono (fun _ h => h) fun _ _ => growing_of_none, hacked, fun hfollow => ?_⟩
  obtain ⟨positions, hok, hmem⟩ := hfollow "A"
  rw [hok, Except.toOption, Option.some.injEq] at hpos
  obtain ⟨env, hlast, hq⟩ := (hmem "X" 1).mp ⟨4, by simp [hpos]⟩
  rw [hlog, twoBuys_envelopes] at hlast
  cases hlast
  exact absurd hq (by decide +kernel)

end TradePulse.Risk
