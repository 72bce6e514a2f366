import TradePulse.Risk.Positions
import TradePulse.Risk.Prices
import Mathlib.Data.Prod.Lex
import Mathlib.Order.WellFounded

/-! # The backlog clears, but for ticks left pending

Each cycle reclaims pending ledger entries and reads new entries of both
streams. Cycles without faults therefore empty both groups, unless a crash has
left a tick pending behind the group's cursor: `refresh_prices` reads new
entries only, and nothing reclaims ticks. Nor do they if a tick is to be read
and SQLite refuses the limit of its window. -/
namespace TradePulse.Risk
open TradePulse.Core TradePulse.Core.Process TradePulse.Core.Runs
open TradePulse.Core.StreamLog (after)

variable {F : Type} [PyFloat F] {loads : String → Except PyError (Json F)} {config : Config F}

/-! ## The property -/

/-- A valid envelope whose account and symbol are texts that SQLite can hold. -/
structure LedgerFormed (env : Json F) : Prop where
  valid : SchemaValid env
  texts : env.pair.isSome = true

variable (loads) in
/-- New entries are well formed. -/
def NewFormed : RiskEnv → Prop
  | .addLedger fields => LedgerFormed (envelope loads fields)
  | .addTick fields => TickValid (envelope loads fields)
  | _ => True

variable (loads) in
/-- Any run on well-formed entries. -/
def formed : WorkerGuard F where
  enter _ _ := True
  call _ _ _ := True
  crash _ := True
  env e _ := NewFormed loads e

variable (loads) in
/-- New groups on well-formed streams, and an empty file. -/
structure Start (w : RiskWorld F) : Prop where
  ledger : w.ledger.New
  ticks : w.ticks.New
  ledger_formed : ∀ fields ∈ w.ledger.log, LedgerFormed (envelope loads fields)
  ticks_formed : ∀ fields ∈ w.ticks.log, TickValid (envelope loads fields)
  store : w.store = .empty

/-- Every entry ever delivered: it is pending, or has been acknowledged. -/
def Delivered (g : ConsumerGroup Fields) (id : Nat) : Prop := g.pending id ≠ none ∨ id ∈ g.acked

variable (loads) in
/-- Neither group has a pending or an undelivered entry, every delivered ledger
event is applied, and every delivered tick acknowledged, the last one of each
symbol with its price in the cache. -/
structure Drained (w : RiskWorld F) : Prop where
  pending : ∀ s id, (w.group s).pending id = none
  delivered : ∀ s, (w.group s).log.length ≤ (w.group s).next
  events : ∀ id, Delivered w.ledger id → AppliedAt loads w.ledger w.store.applied_events id
  ticks : ∀ id, Delivered w.ticks id → id ∈ w.ticks.acked
  prices : ∀ y, w.store.getPrice y = lastPrice loads w.ticks y

/-- The ticks that are read next can be appended: the limit of a window is an
integer of SQLite, or there are none. -/
def Appendable (config : Config F) (g : ConsumerGroup Fields) : Prop :=
  config.window_size < 2 ^ 63 - 1 ∨ g.log.length ≤ g.next

/-- Every pending entry has been idle for `min_idle_ms`. -/
def RestedWorld (config : Config F) (w : RiskWorld F) : Prop :=
  ∀ s, (w.group s).Rested config.min_idle_ms.toNat

/-- The settings that Redis takes. -/
structure Accepted (config : Config F) : Prop where
  batch_size : 1 ≤ config.batch_size ∧ config.batch_size ≤ maxClaim
  min_idle_ms : 0 ≤ config.min_idle_ms ∧ config.min_idle_ms < 2 ^ 63

section Rounds

variable (loads config) (supply : Supply F)

/-- Time passes, and a cycle runs without faults. -/
def round (d : Nat) (w : RiskWorld F × Nat) : Except PyError Int × (RiskWorld F × Nat) :=
  calmly supply (cycle loads config) (riskEnv (.elapse d) w.1, w.2)

/-- The world after some cycles, with a pause of `gaps k` before cycle `k`. -/
def rounds (gaps : Nat → Nat) (w : RiskWorld F × Nat) : Nat → RiskWorld F × Nat
  | 0 => w
  | k + 1 => (round loads config supply (gaps k) (rounds gaps w k)).2

/-- A cycle that raises is followed by a pause of `min_idle_ms`. -/
def PausesAfterRaise (gaps : Nat → Nat) (w : RiskWorld F × Nat) : Prop :=
  ∀ k, Raised (round loads config supply (gaps k) (rounds loads config supply gaps w k)) →
    config.min_idle_ms.toNat ≤ gaps (k + 1)

end Rounds

/-! ## What is acknowledged is applied -/

section Acked

/-- The row of a well-formed envelope. -/
theorem LedgerFormed.row {env : Json F} (h : LedgerFormed env) :
    ∃ row, (eventOf env).row = .ok (some row) ∧ RowOf env row := by
  obtain ⟨id, hid, -⟩ := h.valid.event_id
  obtain ⟨c, hc⟩ := h.valid.correlation_id
  obtain ⟨side, hside⟩ := h.valid.side
  obtain ⟨posted, hposted⟩ := h.valid.posted_at
  obtain ⟨⟨a, y⟩, hpair⟩ := Option.isSome_iff_exists.mp h.texts
  obtain ⟨a', ha, hy⟩ := Option.bind_eq_some_iff.mp hpair
  obtain ⟨y', hy, -⟩ := Option.map_eq_some_iff.mp hy
  have hbind : ∀ v ∈ (eventOf env).texts, ∃ t, v.bindText = .ok t := by
    simp only [RiskStore.LedgerEvent.texts, eventOf, List.forall_mem_cons, hid, hc, hside, hposted,
      Json.eq_str_of_text? ha, Json.eq_str_of_text? hy, Json.bindText, List.not_mem_nil,
      false_implies, implies_true, and_true]
    exact ⟨⟨_, rfl⟩, ⟨_, rfl⟩, ⟨_, rfl⟩, ⟨_, rfl⟩, ⟨_, rfl⟩, ⟨_, rfl⟩⟩
  obtain ⟨row?, hrow⟩ := (row_ok_iff _).mpr hbind
  obtain ⟨row, rfl, hof⟩ := h.valid.row hrow
  exact ⟨row, hrow, hof⟩

variable (loads) in
/-- The ledger stream is well formed, and what is acknowledged is applied. -/
structure Accounted (g : ConsumerGroup Fields) (events : List (AppliedEvent F)) : Prop where
  formed : ∀ fields ∈ g.log, LedgerFormed (envelope loads fields)
  acked : ∀ id ∈ g.acked, AppliedAt loads g events id

variable (loads) in
def accountedPoints : LedgerPoints F where
  rest := Accounted loads
  todo rs g events := Accounted loads g events ∧ ConsumerGroup.InOrder g.log rs
  done id rs g events := Accounted loads g events ∧ AppliedAt loads g events id ∧
    ConsumerGroup.InOrder g.log rs

theorem Accounted.grow {g g' : ConsumerGroup Fields} {events : List (AppliedEvent F)}
    (h : Accounted loads g events) (hlog : g.log <+: g'.log) (hacked : g'.acked = g.acked)
    (hformed : ∀ fields ∈ g'.log, LedgerFormed (envelope loads fields)) :
    Accounted loads g' events where
  formed := hformed
  acked id hid := AppliedAt.grow (h.acked id (hacked ▸ hid)) hlog (List.prefix_refl _)

omit [PyFloat F] in
theorem insertOrIgnore_prefix (rows : List (AppliedEvent F)) (row : AppliedEvent F) :
    rows <+: (RiskStore.insertOrIgnore rows row).2 := by
  rw [RiskStore.insertOrIgnore]
  split
  · exact List.prefix_refl _
  · exact List.prefix_append ..

theorem Accounted.insert {g : ConsumerGroup Fields} {events : List (AppliedEvent F)}
    (h : Accounted loads g events) {e : Nat × Fields} (he : e ∈ after g.log 0)
    {row : AppliedEvent F} (hof : RowOf (envelope loads e.2) row) :
    Accounted loads g (RiskStore.insertOrIgnore events row).2 ∧
      AppliedAt loads g (RiskStore.insertOrIgnore events row).2 e.1 := by
  have hprefix := insertOrIgnore_prefix events row
  refine ⟨⟨h.formed, fun id hid => AppliedAt.grow (h.acked id hid) (List.prefix_refl _) hprefix⟩,
    e.2, he, ?_⟩
  rw [(h.formed e.2 (List.mem_of_getElem? (StreamLog.mem_after.mp he).2)).valid.insertOrIgnore hof]
  split
  · assumption
  · simp [hof.event_id]

theorem ledger_env_formed {e : RiskEnv} {w : RiskWorld F} (he : NewFormed loads e)
    (h : ∀ fields ∈ w.ledger.log, LedgerFormed (envelope loads fields)) :
    w.ledger.log <+: (riskEnv e w).ledger.log ∧ (riskEnv e w).ledger.acked = w.ledger.acked ∧
      (∀ fields ∈ (riskEnv e w).ledger.log, LedgerFormed (envelope loads fields)) ∧
      (riskEnv e w).store = w.store := by
  refine ledger_env (P := fun log => ∀ fields ∈ log, LedgerFormed (envelope loads fields)) ?_ h
  cases e with
  | addLedger f =>
    intro fields hf
    rcases List.mem_append.mp hf with hf | hf
    · exact h fields hf
    · exact List.mem_singleton.mp hf ▸ he
  | _ => trivial

theorem accounted_rules : LedgerRules loads config (formed loads) (accountedPoints loads) where
  rest_stable w e w' h hg hx := by
    cases hx
    obtain ⟨hlog, hacked, hformed, hstore⟩ := ledger_env_formed hg h.formed
    rw [onLedger, hstore]
    exact Accounted.grow h hlog hacked hformed
  todo_stable rs w e w' h hg hx := by
    cases hx
    obtain ⟨hlog, hacked, hformed, hstore⟩ := ledger_env_formed hg h.1.formed
    rw [onLedger, hstore]
    exact ⟨h.1.grow hlog hacked hformed, h.2.grow hlog⟩
  done_stable id rs w e w' h hg hx := by
    cases hx
    obtain ⟨hlog, hacked, hformed, hstore⟩ := ledger_env_formed hg h.1.formed
    rw [onLedger, hstore]
    exact ⟨h.1.grow hlog hacked hformed, h.2.1.grow hlog (List.prefix_refl _), h.2.2.grow hlog⟩
  todo_rest _ _ _ h := h.1
  done_rest _ _ _ _ h := h.1
  read w n _ h _ := ⟨h.grow (List.prefix_refl _) rfl h.formed, w.ledger.inOrder_unread _⟩
  claim w m n _ h _ := ⟨h.grow (List.prefix_refl _) rfl h.formed, w.ledger.inOrder_claimable _ _⟩
  skip id fields rs g events h hev := by
    have hmem := List.mem_of_getElem? (h.2.getElem? (List.mem_cons_self ..)).2
    rw [(h.1.formed fields hmem).valid.entryEvent] at hev
    cases hev
  ignore id fields rs g events event h hev hrow := by
    have hmem := List.mem_of_getElem? (h.2.getElem? (List.mem_cons_self ..)).2
    obtain ⟨_, hsome, -⟩ := (h.1.formed fields hmem).valid.row_of_event hev hrow
    cases hsome
  apply id fields rs g events event row h hev hrow := by
    have hmem := List.mem_of_getElem? (h.2.getElem? (List.mem_cons_self ..)).2
    obtain ⟨_, hsome, hof⟩ := (h.1.formed fields hmem).valid.row_of_event hev hrow
    cases hsome
    obtain ⟨hs, hat⟩ := h.1.insert (h.2.subset (List.mem_cons_self ..)) hof
    exact ⟨hs, hat, (List.sublist_cons_self ..).trans h.2⟩
  ack id rs g events h := by
    refine ⟨⟨h.1.formed, fun m hm => ?_⟩, h.2.2⟩
    rcases List.mem_append.mp hm with hm | hm
    · exact h.1.acked m hm
    · exact List.mem_singleton.mp hm ▸ h.2.1

end Acked

/-! ## Reachable worlds -/

section Reachable

/-- Pending entries are on the streams. -/
def SaneWorld (w : RiskWorld F) : Prop := w.ledger.Sane ∧ w.ticks.Sane

theorem sane_effect {i : RiskCall F} {w : RiskWorld F} (h : SaneWorld w) :
    SaneWorld (i.effect w) := by
  obtain ⟨hl, ht⟩ := h
  cases i with
  | xreadgroup s n =>
    cases s with
    | ledger => exact ⟨hl.deliver (w.ledger.inOrder_unread _), ht⟩
    | ticks => exact ⟨hl, ht.deliver (w.ticks.inOrder_unread _)⟩
  | xautoclaim m n => exact ⟨hl.deliver (w.ledger.inOrder_claimable _ _), ht⟩
  | xack s id =>
    cases s with
    | ledger => exact ⟨hl.ack id, ht⟩
    | ticks => exact ⟨hl, ht.ack id⟩
  | xadd fields => exact ⟨hl, ht⟩
  | upsertPrice y p => simpa [SaneWorld, RiskCall.effect] using ⟨hl, ht⟩
  | appendPrice y p n t => simpa [SaneWorld, RiskCall.effect] using ⟨hl, ht⟩
  | appendPv a v n t => simpa [SaneWorld, RiskCall.effect] using ⟨hl, ht⟩
  | applyLedgerEvent e => simpa [SaneWorld, RiskCall.effect] using ⟨hl, ht⟩
  | saveRiskSnapshot a m t => simpa [SaneWorld, RiskCall.effect] using ⟨hl, ht⟩
  | _ => exact ⟨hl, ht⟩

omit [PyFloat F] in
theorem sane_env {w : RiskWorld F} (e : RiskEnv) (h : SaneWorld w) : SaneWorld (riskEnv e w) := by
  obtain ⟨hl, ht⟩ := h
  cases e with
  | addLedger f => exact ⟨hl.add f, ht⟩
  | addTick f => exact ⟨hl, ht.add f⟩
  | elapse d => exact ⟨hl.tick d, ht.tick d⟩
  | setId s n => cases s <;> exact ⟨hl, ht⟩

omit [PyFloat F] in
theorem SaneWorld.rested {w : RiskWorld F} (h : SaneWorld w) {d : Nat}
    (hd : config.min_idle_ms.toNat ≤ d) : RestedWorld config (riskEnv (.elapse d) w) := by
  intro s
  cases s with
  | ledger => exact h.1.rested hd
  | ticks => exact h.2.rested hd

omit [PyFloat F] in
theorem rested_elapse {w : RiskWorld F} (h : RestedWorld config w) (d : Nat) :
    RestedWorld config (riskEnv (.elapse d) w) := by
  intro s
  cases s with
  | ledger => exact (h .ledger).tick d
  | ticks => exact (h .ticks).tick d

theorem sane_proof : Proof (worker loads config) (formed loads) SaneWorld SaneWorld
    (fun _ => SaneWorld) := by
  refine Proof.stepwise (fun _ _ h => h) (fun _ _ h => h) (fun _ h => h) ?_ ?_
  · intro i o w r w' h _ hx
    rcases exec_effect hx with rfl | rfl
    · exact h
    · exact sane_effect h
  · intro w e w' h _ hx
    cases hx
    exact sane_env e h

/-- What holds of every reachable world. -/
structure Reached (loads : String → Except PyError (Json F)) (w : RiskWorld F) : Prop where
  sane : SaneWorld w
  accounted : Accounted loads w.ledger w.store.applied_events
  priced : Priced loads w.ticks w.store

theorem Start.reached {w : RiskWorld F} (h : Start loads w) : Reached loads w := by
  refine ⟨⟨h.ledger.sane, h.ticks.sane⟩, ⟨h.ledger_formed, ?_⟩, h.ticks_formed, ?_, fun y => .inr ?_⟩
  · rw [h.ledger.acked]
    nofun
  · rw [h.ticks.acked]
    nofun
  · rw [h.store, lastPrice, h.ticks.acked]
    rfl

theorem reached {s : WorkerState F}
    (h : Reach (step (worker loads config)) (formed loads).ok (idle (Start loads)) s) :
    Reached loads s.world := by
  refine ⟨?_, ?_, ?_⟩
  · exact sane_proof.always (fun _ h => h) (fun _ h => h)
      (h.mono (fun _ hs => ⟨hs.1.reached.sane, hs.2⟩) fun _ _ h => h)
  · exact accounted_rules.proof.always (A := onLedger (Accounted loads)) (fun _ h => h)
      (fun _ h => h) (h.mono (fun _ hs => ⟨hs.1.reached.accounted, hs.2⟩) fun _ _ h => h)
  · refine (priced_proof (G := formed loads) fun e w he => ?_).always (A := PricedWorld loads)
      (fun _ h => h) (fun _ h => h)
      (h.mono (fun _ hs => ⟨hs.1.reached.priced, hs.2⟩) fun _ _ h => h)
    cases e with
    | addTick f => exact he
    | _ => trivial

end Reachable

/-! ## A pass without faults -/

section Pass

variable {supply : Supply F}

variable (loads) in
/-- The event of an entry gets into the log. -/
def Applies (e : Nat × Fields) (w w' : RiskWorld F) : Prop :=
  ¬ EventIn loads w.store.applied_events e ∧ EventIn loads w'.store.applied_events e

/-- A program returned with `P`, or raised with one more event applied and `R`. -/
inductive Outcome {α : Type} (loads : String → Except PyError (Json F)) (es : List (Nat × Fields))
    (w : RiskWorld F) (P R : RiskWorld F → Prop) : Except PyError α × (RiskWorld F × Nat) → Prop
  | returned {r : α} {w' : RiskWorld F} {n : Nat} :
      w.store.applied_events <+: w'.store.applied_events → P w' →
      Outcome loads es w P R (.ok r, w', n)
  | raised {e : PyError} {w' : RiskWorld F} {n : Nat} (x : Nat × Fields) :
      w.store.applied_events <+: w'.store.applied_events → x ∈ es → Applies loads x w w' →
      w'.ledger.log = w.ledger.log → R w' → Outcome loads es w P R (.error e, w', n)

omit [PyFloat F] in
theorem Applies.of_prefix {x : Nat × Fields} {w w₁ w' : RiskWorld F} (h : Applies loads x w₁ w')
    (hpre : w.store.applied_events <+: w₁.store.applied_events) : Applies loads x w w' :=
  ⟨fun hin => h.1 ((hpre.map _).subset hin), h.2⟩

omit [PyFloat F] in
/-- What a program comes to, as seen from before it. -/
theorem Outcome.since {α : Type} {es es' : List (Nat × Fields)} {w w₁ : RiskWorld F}
    {P P' R R' : RiskWorld F → Prop} {a : Except PyError α × (RiskWorld F × Nat)}
    (h : Outcome loads es w₁ P R a) (hpre : w.store.applied_events <+: w₁.store.applied_events)
    (hlog : w₁.ledger.log = w.ledger.log) (hes : es ⊆ es') (hP : ∀ w', P w' → P' w')
    (hR : ∀ w', R w' → R' w') : Outcome loads es' w P' R' a := by
  cases h with
  | returned hpre' hend => exact .returned (hpre.trans hpre') (hP _ hend)
  | raised x hpre' hx happ hlog' hend =>
    exact .raised x (hpre.trans hpre') (hes hx) (happ.of_prefix hpre) (hlog'.trans hlog) (hR _ hend)

/-- Taking up a well-formed entry. -/
theorem handleLedger_outcome {e : Nat × Fields} (h : LedgerFormed (envelope loads e.2))
    (w : RiskWorld F) (n : Nat) : Outcome loads [e] w (SameGroups w) (SameGroups w)
      (calmly supply (handleLedger loads config e.2) (w, n)) := by
  obtain ⟨row, hrow, hof⟩ := h.row
  rw [handleLedger_eq, h.valid.entryEvent]
  change Outcome loads [e] w (SameGroups w) (SameGroups w)
    (calmly supply (applyAndPublish config (eventOf (envelope loads e.2))) (w, n))
  by_cases hnew : w.store.IsNew row
  swap
  · rw [calmly_skip (apply_known hrow hnew)]
    exact .returned (List.prefix_refl _) ⟨rfl, rfl⟩
  by_cases hv : Valued config (w.store.withRow row) (eventOf (envelope loads e.2)).account_id
  · obtain ⟨env, snapshots, n', heval, -⟩ := calmly_announce (n := n) hrow hnew hv
    rw [heval]
    exact .returned (List.prefix_append ..) ⟨rfl, rfl⟩
  · obtain ⟨err, n', heval⟩ := calmly_unvalued (n := n) hrow hnew hv
    rw [heval]
    refine .raised e (List.prefix_append ..) (List.mem_singleton_self e) ⟨fun hin => ?_, ?_⟩ rfl
      ⟨rfl, rfl⟩
    · obtain ⟨id, hid, -⟩ := h.valid.event_id
      refine hnew ⟨?_, ?_⟩
      · rw [hof.event_id, Json.eventId, hid]
        rfl
      · rw [hof.event_id]
        exact hin
    · simp [EventIn, RiskStore.withRow, hof.event_id]

theorem ackAll_cons (g : ConsumerGroup Fields) (id : Nat) (ids : List Nat) :
    g.ackAll (id :: ids) = (g.ack id).ackAll ids := rfl

/-- A pass over ledger entries acknowledges them all, or raises. -/
theorem take_outcome (pass : Pass) (hpass : pass.stream = .ledger) (es : List (Nat × Fields)) :
    ∀ (w : RiskWorld F) (n : Nat) (k : Int), (∀ e ∈ es, LedgerFormed (envelope loads e.2)) →
      Outcome loads es w
        (fun w' => w'.ledger = w.ledger.ackAll (es.map Prod.fst) ∧ w'.ticks = w.ticks)
        (fun w' => w'.ticks = w.ticks) (calmly supply (pass.take loads config es k) (w, n)) := by
  have hhandle : pass.handle loads config = handleLedger loads config := by
    cases pass with
    | refreshPrices => cases hpass
    | _ => rfl
  induction es with
  | nil =>
    intro w n k _
    rw [Pass.take_nil]
    exact .returned (List.prefix_refl _) ⟨rfl, rfl⟩
  | cons e es ih =>
    intro w n k hes
    obtain ⟨id, fields⟩ := e
    have hout : Outcome loads [(id, fields)] w (SameGroups w) (SameGroups w)
        (calmly supply (handleLedger loads config fields) (w, n)) :=
      handleLedger_outcome (hes _ (List.mem_cons_self ..)) w n
    rw [Pass.take_cons, hhandle, hpass]
    generalize heval : calmly supply (handleLedger loads config fields) (w, n) = a at hout
    cases hout with
    | raised x hpre hx happ hlog hsame =>
      rw [calmly, Prog.eval_bind_error heval]
      exact .raised x hpre (List.mem_singleton.mp hx ▸ List.mem_cons_self ..) happ hlog hsame.ticks
    | returned hpre hsame =>
      rename_i sent w' n'
      rw [calmly, Prog.eval_bind_ok heval, Prog.eval_bind_ok (calmly_xack ..)]
      refine (ih (w'.setGroup .ledger ((w'.group .ledger).ack id)) (n' + 1) (pass.count sent k)
        fun e he => hes e (List.mem_cons_of_mem _ he)).since hpre ?_ (List.subset_cons_self ..) ?_ ?_
      · rw [← hsame.ledger]
        rfl
      · intro w'' hend
        refine ⟨?_, hend.2.trans hsame.ticks⟩
        rw [hend.1, List.map_cons, ackAll_cons, ← hsame.ledger]
        rfl
      · exact fun w'' hend => hend.trans hsame.ticks

variable (supply) in
/-- A pass over valid ticks acknowledges them all. -/
theorem refreshTicks_returns (es : List (Nat × Fields))
    (hsize : es ≠ [] → config.window_size < 2 ^ 63 - 1) :
    ∀ (w : RiskWorld F) (n : Nat) (k : Int), (∀ e ∈ es, TickValid (envelope loads e.2)) →
      ∃ r w' n', calmly supply (refreshTicks loads config es k) (w, n) = (.ok r, w', n') ∧
        w'.ticks = w.ticks.ackAll (es.map Prod.fst) := by
  induction es with
  | nil => exact fun w n k _ => ⟨k, w, n, rfl, rfl⟩
  | cons e es ih =>
    intro w n k hes
    obtain ⟨y, p, t, -, hnan, heq⟩ := (hes e (List.mem_cons_self ..)).handleTick config
    obtain ⟨w', n', heval, hsame, -⟩ : ∃ w' n',
        calmly supply (recordTick config (some (.str y, p, .str t))) (w, n) = (.ok true, w', n') ∧
          SameGroups w w' ∧ _ := record_returns (hsize (List.cons_ne_nil e es)) hnan rfl rfl
    obtain ⟨r, w'', n'', hrest, hticks⟩ := ih (fun _ => hsize (List.cons_ne_nil e es))
      (w'.setGroup .ticks ((w'.group .ticks).ack e.1)) (n' + 1) (k + 1)
      fun e he => hes e (List.mem_cons_of_mem _ he)
    refine ⟨r, w'', n'', ?_, ?_⟩
    · rw [calmly, refreshTicks, heq, Prog.eval_bind_ok (Prog.eval_bind_ok heval),
        Prog.eval_bind_ok (calmly_xack ..)]
      exact hrest
    · rw [hticks, List.map_cons, ackAll_cons, ← hsame.ticks]
      rfl

variable (supply) in
/-- The first of them raises where the limit is refused. -/
theorem refreshTicks_raises {es : List (Nat × Fields)} (hne : es ≠ [])
    (hlarge : ¬ config.window_size < 2 ^ 63 - 1) (w : RiskWorld F) (n : Nat) (k : Int)
    (hes : ∀ e ∈ es, TickValid (envelope loads e.2)) :
    ∃ e w' n', calmly supply (refreshTicks loads config es k) (w, n) = (.error e, w', n') ∧
      w'.ticks = w.ticks := by
  cases es with
  | nil => exact absurd rfl hne
  | cons e es =>
    obtain ⟨y, p, t, -, -, heq⟩ := (hes e (List.mem_cons_self ..)).handleTick config
    obtain ⟨err, w', n', heval, hsame⟩ : ∃ err w' n',
        calmly supply (recordTick config (some (.str y, p, .str t))) (w, n) = (.error err, w', n') ∧
          SameGroups w w' := record_raises fun hfit => hlarge hfit.1
    refine ⟨err, w', n', ?_, hsame.ticks⟩
    rw [calmly, refreshTicks, heq]
    exact Prog.eval_bind_error (Prog.eval_bind_error heval)

omit [PyFloat F] in
theorem Accepted.count (hc : Accepted config) :
    1 ≤ config.batch_size ∧ config.batch_size < 2 ^ 63 := by
  have hmost := hc.batch_size.2
  rw [maxClaim] at hmost
  exact ⟨hc.batch_size.1, by omega⟩

theorem calmly_xreadgroup (s : StreamName) {count : Int} (h : 1 ≤ count ∧ count < 2 ^ 63)
    (w : RiskWorld F) (n : Nat) :
    calmly supply (Prog.perform (RiskCall.xreadgroup s count)) (w, n) =
      (.ok ((w.group s).unread count.toNat),
        w.setGroup s ((w.group s).readgroup count.toNat), n + 1) := by
  refine calmly_perform ?_
  simp only [riskExec, if_pos h]
  rfl

theorem calmly_xautoclaim {minIdle count : Int}
    (h : (0 ≤ minIdle ∧ minIdle < 2 ^ 63) ∧ 1 ≤ count ∧ count ≤ maxClaim)
    (w : RiskWorld F) (n : Nat) :
    calmly supply (Prog.perform (RiskCall.xautoclaim minIdle count)) (w, n) =
      (.ok (w.ledger.claimable minIdle.toNat count.toNat),
        { w with ledger := w.ledger.autoclaim minIdle.toNat count.toNat }, n + 1) := by
  refine calmly_perform ?_
  simp only [riskExec, if_pos h]
  rfl

variable (supply) (hc : Accepted config) {w : RiskWorld F}
  (hformed : ∀ fields ∈ w.ledger.log, LedgerFormed (envelope loads fields))

include hc hformed

/-- Pending entries are claimed and acknowledged, or the worker raises. -/
theorem reclaimLedger_outcome (n : Nat) : Outcome loads (after w.ledger.log 0) w
    (fun w' => w'.ledger = w.ledger.takeIdle config.min_idle_ms.toNat config.batch_size.toNat ∧
      w'.ticks = w.ticks)
    (fun w' => w'.ticks = w.ticks) (calmly supply (reclaimLedger loads config) (w, n)) := by
  have horder := w.ledger.inOrder_claimable config.min_idle_ms.toNat config.batch_size.toNat
  rw [calmly, reclaimLedger,
    Prog.eval_bind_ok (calmly_xautoclaim ⟨hc.min_idle_ms, hc.batch_size⟩ ..)]
  exact (take_outcome .reclaimLedger rfl _ _ _ _ fun e he =>
    hformed e.2 (List.mem_of_getElem? (horder.getElem? he).2)).since (List.prefix_refl _) rfl
      horder.subset (fun _ h => h) fun _ h => h

/-- New entries are read and acknowledged, or the worker raises. -/
theorem drainLedger_outcome (n : Nat) : Outcome loads (after w.ledger.log 0) w
    (fun w' => w'.ledger = w.ledger.takeNew config.batch_size.toNat ∧ w'.ticks = w.ticks)
    (fun w' => w'.ticks = w.ticks) (calmly supply (drainLedger loads config) (w, n)) := by
  have horder := w.ledger.inOrder_unread config.batch_size.toNat
  rw [calmly, drainLedger, Prog.eval_bind_ok (calmly_xreadgroup .ledger hc.count ..)]
  exact (take_outcome .drainLedger rfl _ _ _ _ fun e he =>
    hformed e.2 (List.mem_of_getElem? (horder.getElem? he).2)).since (List.prefix_refl _) rfl
      horder.subset (fun _ h => h) fun _ h => h

omit hformed in
/-- New ticks are read and acknowledged. -/
theorem refreshPrices_returns (hfit : Appendable config w.ticks)
    (hvalid : ∀ fields ∈ w.ticks.log, TickValid (envelope loads fields)) (n : Nat) :
    ∃ r w' n', calmly supply (refreshPrices loads config) (w, n) = (.ok r, w', n') ∧
      w'.ticks = w.ticks.takeNew config.batch_size.toNat ∧ w'.ledger = w.ledger ∧
      w'.store.applied_events = w.store.applied_events := by
  have horder := w.ticks.inOrder_unread config.batch_size.toNat
  have hsize : w.ticks.unread config.batch_size.toNat ≠ [] → config.window_size < 2 ^ 63 - 1 := by
    intro hne
    refine hfit.resolve_right fun hread => hne ?_
    rw [← List.length_eq_zero_iff, ConsumerGroup.unread, List.length_take, StreamLog.length_after]
    omega
  obtain ⟨r, w', n', heval, hticks⟩ := refreshTicks_returns supply
    (w.ticks.unread config.batch_size.toNat) hsize
    (w.setGroup .ticks (w.ticks.readgroup config.batch_size.toNat)) (n + 1) 0 fun e he =>
      hvalid e.2 (List.mem_of_getElem? (horder.getElem? he).2)
  have hrefresh : calmly supply (refreshPrices loads config) (w, n) = (.ok r, w', n') := by
    rw [calmly, refreshPrices, Prog.eval_bind_ok (calmly_xreadgroup .ticks hc.count ..)]
    exact heval
  have honly : (refreshPrices loads config).Only OffLedger :=
    only_refreshPrices (fun _ => rfl) (fun _ => rfl) (fun _ _ => rfl) fun _ _ _ _ => rfl
  have hframe : (calmly supply (refreshPrices loads config) (w, n)).2.1.ledger = w.ledger ∧
      (calmly supply (refreshPrices loads config) (w, n)).2.1.store.applied_events =
        w.store.applied_events := by
    refine calmly_only (A := fun w' => w'.ledger = w.ledger ∧
      w'.store.applied_events = w.store.applied_events) (fun i o w r w' hi hw hx => ?_) honly
      ⟨rfl, rfl⟩
    obtain ⟨hl, he⟩ := exec_frame hi hx
    exact ⟨hl.trans hw.1, he.trans hw.2⟩
  rw [hrefresh] at hframe
  exact ⟨r, w', n', hrefresh, hticks, hframe.1, hframe.2⟩

omit hformed in
/-- Or read, and left there. -/
theorem refreshPrices_raises (hfit : ¬ Appendable config w.ticks)
    (hvalid : ∀ fields ∈ w.ticks.log, TickValid (envelope loads fields)) (n : Nat) :
    ∃ e w' n', calmly supply (refreshPrices loads config) (w, n) = (.error e, w', n') ∧
      w'.ticks = w.ticks.readgroup config.batch_size.toNat := by
  have horder := w.ticks.inOrder_unread config.batch_size.toNat
  obtain ⟨hlarge, hunread⟩ := not_or.mp hfit
  have hne : w.ticks.unread config.batch_size.toNat ≠ [] := by
    have hcount := hc.batch_size.1
    refine List.ne_nil_of_length_pos ?_
    rw [ConsumerGroup.unread, List.length_take, StreamLog.length_after]
    omega
  obtain ⟨e, w', n', heval, hticks⟩ := refreshTicks_raises supply hne hlarge
    (w.setGroup .ticks (w.ticks.readgroup config.batch_size.toNat)) (n + 1) 0 fun e he =>
      hvalid e.2 (List.mem_of_getElem? (horder.getElem? he).2)
  refine ⟨e, w', n', ?_, hticks⟩
  rw [calmly, refreshPrices, Prog.eval_bind_ok (calmly_xreadgroup .ticks hc.count ..)]
  exact heval

/-- **One cycle.** It takes what it can of both streams, or raises with one more
event applied. -/
theorem cycle_outcome (hfit : Appendable config w.ticks)
    (hvalid : ∀ fields ∈ w.ticks.log, TickValid (envelope loads fields))
    (n : Nat) : Outcome loads (after w.ledger.log 0) w
    (fun w' => w'.ledger = (w.ledger.takeIdle config.min_idle_ms.toNat
        config.batch_size.toNat).takeNew config.batch_size.toNat ∧
      w'.ticks = w.ticks.takeNew config.batch_size.toNat)
    (fun w' => w'.ticks = w.ticks ∨ w'.ticks = w.ticks.takeNew config.batch_size.toNat)
    (calmly supply (cycle loads config) (w, n)) := by
  have hreclaim := reclaimLedger_outcome supply hc hformed n
  generalize heval : calmly supply (reclaimLedger loads config) (w, n) = a at hreclaim
  cases hreclaim with
  | raised x hpre hx happ hlog hticks =>
    rw [calmly, cycle, Prog.eval_bind_error heval]
    exact .raised x hpre hx happ hlog (.inl hticks)
  | returned hpre hend =>
    rename_i r₁ w₁ n₁
    obtain ⟨hledger, hticks⟩ := hend
    have hlog₁ : w₁.ledger.log = w.ledger.log := by rw [hledger, ConsumerGroup.log_takeIdle]
    obtain ⟨r₂, w₂, n₂, hrefresh, hticks₂, hledger₂, hevents₂⟩ :=
      refreshPrices_returns supply hc (w := w₁) (hticks ▸ hfit) (hticks ▸ hvalid) n₁
    have hlog₂ : w₂.ledger.log = w.ledger.log := hledger₂ ▸ hlog₁
    rw [calmly, cycle, Prog.eval_bind_ok heval, Prog.eval_bind_ok hrefresh]
    refine (drainLedger_outcome supply hc (by rwa [hlog₂]) n₂).since (hevents₂ ▸ hpre) hlog₂
      (by rw [hlog₂]; exact List.Subset.refl _) ?_ ?_
    · intro w' hw
      exact ⟨by rw [hw.1, hledger₂, hledger], by rw [hw.2, hticks₂, hticks]⟩
    · intro w' hw
      exact .inr (by rw [hw, hticks₂, hticks])

/-- A cycle that cannot append acknowledges no tick. -/
theorem cycle_unappendable (hfit : ¬ Appendable config w.ticks)
    (hvalid : ∀ fields ∈ w.ticks.log, TickValid (envelope loads fields)) (n : Nat) :
    let g := (calmly supply (cycle loads config) (w, n)).2.1.ticks
    g = w.ticks ∨ g = w.ticks.readgroup config.batch_size.toNat := by
  have hreclaim := reclaimLedger_outcome supply hc hformed n
  generalize heval : calmly supply (reclaimLedger loads config) (w, n) = a at hreclaim
  cases hreclaim with
  | raised x hpre hx happ hlog hticks =>
    rw [calmly, cycle, Prog.eval_bind_error heval]
    exact .inl hticks
  | returned hpre hend =>
    obtain ⟨-, hticks⟩ := hend
    rename_i w₁ n₁
    obtain ⟨e, w₂, n₂, hrefresh, hticks₂⟩ :=
      refreshPrices_raises supply hc (w := w₁) (hticks ▸ hfit) (hticks ▸ hvalid) n₁
    rw [calmly, cycle, Prog.eval_bind_ok heval, Prog.eval_bind_error hrefresh]
    exact .inr (hticks ▸ hticks₂)

end Pass

/-! ## What a round leaves to be done -/

section Rank

variable (loads) in
/-- The entries of the ledger stream that are not applied. -/
def unapplied (w : RiskWorld F) : List (Nat × Fields) :=
  (after w.ledger.log 0).filter fun e => ¬ EventIn loads w.store.applied_events e

variable (loads) in
/-- A cycle leaves fewer entries to apply, or as many and less to acknowledge. -/
def rank (w : RiskWorld F) : ℕ ×ₗ ℕ :=
  toLex ((unapplied loads w).length, w.ledger.backlog + w.ticks.backlog)

section Unapplied

variable {w w' : RiskWorld F} (hpre : w.store.applied_events <+: w'.store.applied_events)
  (hlog : w'.ledger.log = w.ledger.log)

include hpre hlog

omit [PyFloat F] in
/-- No event leaves the log. -/
theorem unapplied_eq_filter : unapplied loads w' =
    (unapplied loads w).filter fun e => ¬ EventIn loads w'.store.applied_events e := by
  rw [unapplied, unapplied, hlog, List.filter_filter]
  refine List.filter_congr fun e _ => ?_
  by_cases hin : EventIn loads w.store.applied_events e
  · simp [hin, show EventIn loads w'.store.applied_events e from (hpre.map _).subset hin]
  · simp [hin]

omit [PyFloat F] in
theorem unapplied_lt {x : Nat × Fields} (hx : x ∈ after w.ledger.log 0)
    (happ : Applies loads x w w') : (unapplied loads w').length < (unapplied loads w).length := by
  rw [unapplied_eq_filter hpre hlog, List.length_filter_lt_length_iff_exists]
  refine ⟨x, List.mem_filter.mpr ⟨hx, ?_⟩, ?_⟩
  · simpa using happ.1
  · simpa using happ.2

end Unapplied

variable (supply : Supply F) (hc : Accepted config)

include hc in
/-- **Every round makes progress**, as long as there is anything to do. -/
theorem round_progress {w : RiskWorld F} (hw : Reached loads w) (hahead : w.ticks.Ahead)
    (hfit : Appendable config w.ticks) {d : Nat}
    (hrest : RestedWorld config (riskEnv (.elapse d) w)) (n : Nat) :
    (∀ s, (w.group s).backlog = 0) ∨
      rank loads (round loads config supply d (w, n)).2.1 < rank loads w := by
  have hcount : 1 ≤ config.batch_size.toNat := by
    have := hc.batch_size.1
    omega
  have hout := cycle_outcome supply hc (w := riskEnv (.elapse d) w) hw.accounted.formed hfit
    hw.priced.valid n
  rw [round]
  generalize calmly supply (cycle loads config) (riskEnv (.elapse d) w, n) = a at hout
  rw [rank, rank, Prod.Lex.toLex_lt_toLex']
  cases hout with
  | raised x hpre hx happ hlog _ =>
    have hlt : (unapplied loads _).length < (unapplied loads w).length :=
      unapplied_lt (w := riskEnv (.elapse d) w) hpre hlog hx happ
    exact .inr ⟨hlt.le, fun heq => absurd heq hlt.ne⟩
  | returned hpre hend =>
    rename_i r w' n'
    obtain ⟨hledger, hticks⟩ := hend
    have hlog : w'.ledger.log = w.ledger.log := by
      rw [hledger, ConsumerGroup.log_takeNew, ConsumerGroup.log_takeIdle]
      rfl
    have hle : (unapplied loads w').length ≤ (unapplied loads w).length := by
      rw [unapplied_eq_filter (w := w) hpre hlog]
      exact List.length_filter_le ..
    let g := (w.ledger.tick d).takeIdle config.min_idle_ms.toNat config.batch_size.toNat
    have hidle : g.backlog ≤ w.ledger.backlog ∧
        (w.ledger.pendingEntries ≠ [] → g.backlog < w.ledger.backlog) :=
      ConsumerGroup.backlog_takeIdle (hrest .ledger) hcount
    have hnew : w'.ledger.backlog ≤ g.backlog ∧
        (after w.ledger.log w.ledger.next ≠ [] → w'.ledger.backlog < g.backlog) := by
      have hg := g.backlog_takeNew hcount
      rw [ConsumerGroup.log_takeIdle, ConsumerGroup.next_takeIdle] at hg
      exact hledger ▸ hg
    have htick : w'.ticks.backlog ≤ w.ticks.backlog ∧
        (after w.ticks.log w.ticks.next ≠ [] → w'.ticks.backlog < w.ticks.backlog) :=
      hticks ▸ (w.ticks.tick d).backlog_takeNew hcount
    by_cases hdone : w.ledger.pendingEntries = [] ∧ after w.ledger.log w.ledger.next = [] ∧
        after w.ticks.log w.ticks.next = []
    · obtain ⟨hpending, hunread, hread⟩ := hdone
      refine .inl fun s => ?_
      cases s with
      | ledger => rw [RiskWorld.group, ConsumerGroup.backlog, hpending, hunread]; rfl
      | ticks => exact hw.sane.2.backlog_of_ahead hahead hread
    · refine .inr ⟨hle, fun _ => ?_⟩
      by_contra hge
      have hge : w.ledger.backlog + w.ticks.backlog ≤ w'.ledger.backlog + w'.ticks.backlog :=
        Nat.not_lt.mp hge
      refine hdone ⟨?_, ?_, ?_⟩
      · by_contra hne
        have := hidle.2 hne
        omega
      · by_contra hne
        have := hnew.2 hne
        omega
      · by_contra hne
        have := htick.2 hne
        omega

end Rank

/-! ## Rounds are part of a run -/

section Run

variable (loads config) in
/-- The worker is idle in this world in some run. -/
def Reachable (w : RiskWorld F) : Prop :=
  Reach (step (worker loads config)) (formed loads).ok (idle (Start loads)) ⟨w, none⟩

theorem Reachable.reached {w : RiskWorld F} (h : Reachable loads config w) : Reached loads w :=
  Risk.reached h

theorem Reachable.elapse {w : RiskWorld F} (h : Reachable loads config w) (d : Nat) :
    Reachable loads config (riskEnv (.elapse d) w) :=
  h.step (a := .env (.elapse d)) trivial rfl

variable (supply : Supply F)

theorem Reachable.round {w : RiskWorld F} (h : Reachable loads config w) (d n : Nat) :
    Reachable loads config (round loads config supply d (w, n)).2.1 :=
  Undisturbed.serves (M := worker loads config) (G := formed loads) (c := .cycle) (n := n)
    (calm supply) (fun _ _ _ => trivial) trivial (h.elapse d)

variable (gaps : Nat → Nat) {w : RiskWorld F × Nat} (h : Reachable loads config w.1)

include h in
theorem Reachable.rounds (k : Nat) :
    Reachable loads config (rounds loads config supply gaps w k).1 := by
  induction k with
  | zero => exact h
  | succ k ih => exact ih.round supply (gaps k) _

/-- What was to be done is done. -/
theorem Reached.drained {w : RiskWorld F} (hw : Reached loads w)
    (hzero : ∀ s, (w.group s).backlog = 0) : Drained loads w := by
  have hpending : ∀ s id, (w.group s).pending id = none := by
    intro s id
    cases s with
    | ledger => exact hw.sane.1.pending_eq_none (hzero .ledger) id
    | ticks => exact hw.sane.2.pending_eq_none (hzero .ticks) id
  refine ⟨hpending, fun s => (ConsumerGroup.backlog_eq_zero.mp (hzero s)).2, ?_, ?_, ?_⟩
  · rintro id (hid | hid)
    · exact absurd (hpending .ledger id) hid
    · exact hw.accounted.acked id hid
  · rintro id (hid | hid)
    · exact absurd (hpending .ticks id) hid
    · exact hid
  · intro y
    rcases hw.priced.price y with ⟨id, p, hid, -⟩ | hprice
    · exact absurd (hpending .ticks id) hid
    · exact hprice

/-- What a round does to the ticks. -/
theorem round_ticks (hc : Accepted config) {w : RiskWorld F} (hw : Reached loads w) (d n : Nat) :
    let g := (round loads config supply d (w, n)).2.1.ticks
    g = w.ticks.tick d ∨
      Appendable config w.ticks ∧ g = (w.ticks.tick d).takeNew config.batch_size.toNat ∨
      ¬ Appendable config w.ticks ∧ g = (w.ticks.tick d).readgroup config.batch_size.toNat := by
  by_cases hfit : Appendable config w.ticks
  · have hout := cycle_outcome supply hc (w := riskEnv (.elapse d) w) hw.accounted.formed hfit
      hw.priced.valid n
    rw [Risk.round]
    generalize calmly supply (cycle loads config) (riskEnv (.elapse d) w, n) = a at hout
    cases hout with
    | returned _ hend => exact .inr (.inl ⟨hfit, hend.2⟩)
    | raised _ _ _ _ _ hend => exact hend.imp_right fun h => .inl ⟨hfit, h⟩
  · exact (cycle_unappendable supply hc (w := riskEnv (.elapse d) w) hw.accounted.formed hfit
      hw.priced.valid n).imp_right fun h => .inr ⟨hfit, h⟩

section Accepted

variable (hc : Accepted config)

include h hc

theorem appendable_rounds (hfit : Appendable config w.1.ticks) (k : Nat) :
    Appendable config (Risk.rounds loads config supply gaps w k).1.ticks := by
  induction k with
  | zero => exact hfit
  | succ k ih =>
    rcases round_ticks supply hc (h.rounds supply gaps k).reached (gaps k) _ with
      hg | ⟨-, hg⟩ | ⟨hunfit, -⟩
    · exact hg ▸ ih
    · refine hg ▸ ih.imp_right fun hread => ?_
      rw [ConsumerGroup.log_takeNew, ConsumerGroup.next_takeNew]
      exact hread.trans (Nat.le_add_right ..)
    · exact absurd ih hunfit

theorem ahead_rounds (hahead : w.1.ticks.Ahead) (hfit : Appendable config w.1.ticks) (k : Nat) :
    (Risk.rounds loads config supply gaps w k).1.ticks.Ahead := by
  induction k with
  | zero => exact hahead
  | succ k ih =>
    rcases round_ticks supply hc (h.rounds supply gaps k).reached (gaps k) _ with
      hg | ⟨-, hg⟩ | ⟨hunfit, -⟩
    · exact hg ▸ ih
    · exact hg ▸ ConsumerGroup.Ahead.takeNew (g := (Risk.rounds ..).1.ticks.tick _) ih _
    · exact absurd (appendable_rounds supply gaps h hc hfit k) hunfit

/-- A tick behind which the cursor has gone stays pending. -/
theorem stuck_rounds {id : Nat} (hid : w.1.ticks.Stuck id) (k : Nat) :
    (Risk.rounds loads config supply gaps w k).1.ticks.Stuck id := by
  induction k with
  | zero => exact hid
  | succ k ih =>
    have ih' : ((Risk.rounds loads config supply gaps w k).1.ticks.tick (gaps k)).Stuck id := ih
    rcases round_ticks supply hc (h.rounds supply gaps k).reached (gaps k) _ with
      hg | ⟨-, hg⟩ | ⟨-, hg⟩
    · exact hg ▸ ih'
    · exact hg ▸ ih'.takeNew _
    · exact hg ▸ ih'.readgroup _

/-- A tick that cannot be appended is never acknowledged. -/
theorem unappended_rounds (hlarge : ¬ config.window_size < 2 ^ 63 - 1) {id : Nat}
    (hid : w.1.ticks.next < id) (hle : id ≤ w.1.ticks.log.length) (k : Nat) :
    let g := (Risk.rounds loads config supply gaps w k).1.ticks
    id ≤ g.log.length ∧ (g.next < id ∨ g.Stuck id) := by
  induction k with
  | zero => exact ⟨hle, .inl hid⟩
  | succ k ih =>
    obtain ⟨hle, ih⟩ := ih
    let g := (Risk.rounds loads config supply gaps w k).1.ticks.tick (gaps k)
    have ih' : g.next < id ∨ g.Stuck id := ih
    rcases round_ticks supply hc (h.rounds supply gaps k).reached (gaps k) _ with
      hg | ⟨hfit, hg⟩ | ⟨-, hg⟩
    · exact hg ▸ ⟨hle, ih'⟩
    · have hread : g.log.length ≤ g.next := hfit.resolve_left hlarge
      have hstuck : g.Stuck id := ih'.resolve_left fun hlt => absurd (hle.trans hread) (by omega)
      exact hg ▸ ⟨by rwa [ConsumerGroup.log_takeNew], .inr (hstuck.takeNew _)⟩
    · refine hg ▸ ⟨hle, ?_⟩
      rcases ih' with hlt | hstuck
      · exact ConsumerGroup.stuck_readgroup (g := g) hlt _
      · exact .inr (hstuck.readgroup _)

variable (hrest : RestedWorld config w.1)
  (hpause : PausesAfterRaise loads config supply gaps w) (hfit : Appendable config w.1.ticks)

include hrest hpause hfit

theorem rested_rounds (k : Nat) : RestedWorld config
    (riskEnv (.elapse (gaps k)) (Risk.rounds loads config supply gaps w k).1) := by
  induction k with
  | zero => exact rested_elapse hrest _
  | succ k ih =>
    have hw := ((h.rounds supply gaps k).elapse (gaps k)).reached
    have hw' := (h.rounds supply gaps (k + 1)).reached
    have hout := cycle_outcome supply hc hw.accounted.formed
      (appendable_rounds supply gaps h hc hfit k) hw.priced.valid
      (Risk.rounds loads config supply gaps w k).2
    have hraised := hpause k
    rw [Risk.rounds] at hw' ⊢
    rw [← Risk.round] at hout
    generalize Risk.round loads config supply (gaps k) _ = a at hout hraised hw' ⊢
    cases hout with
    | returned _ hend =>
      obtain ⟨hledger, hticks⟩ := hend
      refine rested_elapse (fun s => ?_) _
      cases s with
      | ledger =>
        rw [RiskWorld.group, hledger]
        exact ((ih .ledger).takeIdle _ _).takeNew _
      | ticks =>
        rw [RiskWorld.group, hticks]
        exact (ih .ticks).takeNew _
    | raised => exact hw'.sane.rested (hraised ⟨_, _, _, rfl⟩)

theorem drains (hahead : w.1.ticks.Ahead) :
    ∃ k, Drained loads (Risk.rounds loads config supply gaps w k).1 := by
  obtain ⟨k, hk⟩ := WellFounded.not_rel_apply_succ (r := (· < ·))
    fun k => rank loads (Risk.rounds loads config supply gaps w k).1
  have hw := (h.rounds supply gaps k).reached
  refine ⟨k, hw.drained ?_⟩
  exact (round_progress supply hc hw (ahead_rounds supply gaps h hc hahead hfit k)
    (appendable_rounds supply gaps h hc hfit k)
    (rested_rounds supply gaps h hc hrest hpause hfit k) _).resolve_right hk

end Accepted

/-- With settings that Redis refuses, nothing is read or claimed. -/
theorem round_refused (hc : ¬ Accepted config) (d : Nat) (w : RiskWorld F × Nat) :
    (Risk.round loads config supply d w).2.1 = riskEnv (.elapse d) w.1 := by
  let low : Bool := config.min_idle_ms < 0 ∨ config.batch_size < 1
  have hexec : riskExec (.xautoclaim config.min_idle_ms config.batch_size)
      (RiskCall.calmly supply (.xautoclaim config.min_idle_ms config.batch_size) w.2)
      (riskEnv (.elapse d) w.1) = some (.error (refused low), riskEnv (.elapse d) w.1) := by
    rw [riskExec, if_neg fun h => hc ⟨h.2, h.1⟩]
  have hclaim : calmly supply (reclaimLedger loads config) (riskEnv (.elapse d) w.1, w.2) =
      (.error (refused low), riskEnv (.elapse d) w.1, w.2 + 1) :=
    Prog.eval_bind_error (calmly_perform hexec)
  rw [Risk.round, calmly, cycle, Prog.eval_bind_error hclaim]

theorem Drained.of_elapse {w : RiskWorld F} {d : Nat} (h : Drained loads (riskEnv (.elapse d) w)) :
    Drained loads w where
  pending s := by
    cases s with
    | ledger => exact h.pending .ledger
    | ticks => exact h.pending .ticks
  delivered s := by
    cases s with
    | ledger => exact h.delivered .ledger
    | ticks => exact h.delivered .ticks
  events := h.events
  ticks := h.ticks
  prices := h.prices

/-- **Which backlogs clear.** In every state that a run on well-formed entries
leaves behind, with every pending entry idle for `min_idle_ms`, undisturbed
cycles empty both groups if and only if nothing is left to do or the settings
are accepted, no tick is pending at or before the cursor, and the ticks still
to be read can be appended. -/
theorem backlog_clears_iff {w : RiskWorld F} (h : Reachable loads config w) (supply : Supply F)
    (n : Nat) (gaps : Nat → Nat) (hrest : RestedWorld config w)
    (hpause : PausesAfterRaise loads config supply gaps (w, n)) :
    (∃ k, Drained loads (rounds loads config supply gaps (w, n) k).1) ↔
      Drained loads w ∨ Accepted config ∧ w.ticks.Ahead ∧ Appendable config w.ticks := by
  constructor
  · rintro ⟨k, hk⟩
    by_cases hc : Accepted config
    · refine .inr ⟨hc, fun id hid => Nat.lt_of_not_le fun hle => ?_, ?_⟩
      · exact (stuck_rounds supply gaps (w := (w, n)) h hc ⟨hid, hle⟩ k).1 (hk.pending .ticks id)
      · by_contra hfit
        obtain ⟨hlarge, hunread⟩ := not_or.mp hfit
        obtain ⟨hlen, hleft⟩ := unappended_rounds supply gaps (w := (w, n)) h hc hlarge
          (Nat.lt_succ_self w.ticks.next) (Nat.lt_of_not_le hunread) k
        have hread := hk.delivered .ticks
        rcases hleft with hlt | hstuck
        · exact absurd (hlen.trans hread) (Nat.not_le_of_lt hlt)
        · exact hstuck.1 (hk.pending .ticks _)
    · left
      induction k with
      | zero => exact hk
      | succ k ih =>
        rw [rounds, round_refused supply hc] at hk
        exact ih hk.of_elapse
  · rintro (hdone | ⟨hc, hahead, hfit⟩)
    · exact ⟨0, hdone⟩
    · exact drains supply gaps h hc hrest hpause hfit hahead

end Run

/-! ## A purchase left pending, and a tick -/

def RiskEnv.elapses : RiskEnv → Bool
  | .elapse _ => true
  | _ => false

/-- Nothing new comes in. -/
def still : WorkerGuard ℚ where
  enter _ _ := True
  call _ _ _ := True
  crash _ := True
  env e _ := e.elapses

instance (c : WorkerCall ℚ) (w : RiskWorld ℚ) : Decidable (still.enter c w) := .isTrue trivial
instance (i : RiskCall ℚ) (o : RiskChoice ℚ) (w : RiskWorld ℚ) : Decidable (still.call i o w) :=
  .isTrue trivial
instance (w : RiskWorld ℚ) : Decidable (still.crash w) := .isTrue trivial
instance (e : RiskEnv) (w : RiskWorld ℚ) : Decidable (still.env e w) :=
  inferInstanceAs (Decidable (e.elapses = true))

theorem formed_of_still {loads : String → Except PyError (Json ℚ)} {s : WorkerState ℚ}
    {a : WorkerAct ℚ} (h : still.ok s a) : (formed loads).ok s a := by
  refine Guard.ok_mono (G := still) (H := formed loads) (fun _ _ _ => trivial)
    (fun _ _ _ _ => trivial) (fun _ _ => trivial) (fun e w he => ?_) h
  cases e with
  | elapse d => trivial
  | _ => cases he

/-- The worker dies on the ledger entries that it has read, or on the ticks. -/
def dieReading (calls : Nat) : List (WorkerAct ℚ) := opening.take (calls + 1) ++ [.crash]

theorem oneBuy_start : Start buyLoads (worldOf [firstBuy.fields]) where
  ledger := ⟨rfl, fun _ => rfl, rfl⟩
  ticks := ⟨rfl, fun _ => rfl, rfl⟩
  ledger_formed fields hf := by
    obtain rfl := List.mem_singleton.mp hf
    rw [envelope_firstBuy]
    exact ⟨firstBuy.schemaValid, by decide⟩
  ticks_formed := nofun
  store := rfl

theorem backlog_clears_oneBuy : ∃ w : RiskWorld ℚ, w.ledger.pending 1 ≠ none ∧
    ∃ k, Drained buyLoads (rounds buyLoads settings sameSupply (fun _ => 30000) (w, 0) k).1 := by
  obtain ⟨⟨w, p⟩, hs, hp⟩ := Reach.exists_of_run (step (worker buyLoads settings)) still.ok
    (idle (Start buyLoads)) (dieReading 3)
    (fun s => (s.world.ledger.pending 1).isSome ∧ s.world.ticks.log.isEmpty ∧ s.running.isNone)
    (s := ⟨worldOf [firstBuy.fields], none⟩) ⟨oneBuy_start, rfl⟩ (by decide +kernel)
  obtain ⟨hpending, hticks, hidle⟩ := of_decide_eq_true hp
  obtain rfl := Option.isNone_iff_eq_none.mp hidle
  have hw : Reachable buyLoads settings w := hs.mono (fun _ h => h) fun _ _ => formed_of_still
  have hahead : w.ticks.Ahead := by
    intro id hid
    obtain ⟨t, ht⟩ := Option.ne_none_iff_exists'.mp hid
    obtain ⟨⟨hpos, hle⟩, -⟩ := hw.reached.sane.2 id t ht
    rw [List.isEmpty_iff.mp hticks] at hle
    exact absurd hpos (Nat.not_lt.mpr hle)
  refine ⟨riskEnv (.elapse 30000) w, Option.isSome_iff_ne_none.mp hpending, ?_⟩
  exact (backlog_clears_iff (hw.elapse 30000) sameSupply 0 _ (hw.reached.sane.rested (by decide))
    fun _ _ => by decide).mpr (.inr ⟨⟨by decide, by decide⟩, hahead, .inl (by decide)⟩)

def tickText : String :=
  object [("data", object [("symbol", quoted "X"), ("price", "1"),
    ("tick_time", quoted "2026-09-01T12:00:00Z")])]

def tickJson : Json ℚ :=
  .obj [("data", .obj [("symbol", .str "X"), ("price", .int 1),
    ("tick_time", .str "2026-09-01T12:00:00Z")])]

def tickLoads : String → Except PyError (Json ℚ) := table [(tickText, tickJson)]

def oneTick : RiskWorld ℚ :=
  { worldOf [] with ticks := ⟨[[("event", tickText)]], 0, fun _ => none, 0, []⟩ }

theorem oneTick_start : Start tickLoads oneTick where
  ledger := ⟨rfl, fun _ => rfl, rfl⟩
  ticks := ⟨rfl, fun _ => rfl, rfl⟩
  ledger_formed := nofun
  ticks_formed fields hf := by
    obtain rfl := List.mem_singleton.mp hf
    have henv : envelope tickLoads [("event", tickText)] = tickJson :=
      envelope_text (object_ne_empty _) (by simp [tickLoads, table])
    rw [henv]
    exact ⟨⟨_, rfl⟩, ⟨"X", by decide, rfl⟩, rfl, _, rfl⟩
  store := rfl

/-- A tick read by a worker that died is never read or claimed again: no number
of cycles takes it off the group. -/
theorem tick_never_reclaimed : ∃ w : RiskWorld ℚ, Reachable tickLoads settings w ∧
    RestedWorld settings w ∧ ∀ (supply : Supply ℚ) (n : Nat) (gaps : Nat → Nat) (k : Nat),
      ¬ Drained tickLoads (rounds tickLoads settings supply gaps (w, n) k).1 := by
  obtain ⟨⟨w, p⟩, hs, hp⟩ := Reach.exists_of_run (step (worker tickLoads settings)) still.ok
    (idle (Start tickLoads)) (dieReading 2)
    (fun s => (s.world.ticks.pending 1).isSome ∧ s.world.ticks.next = 1 ∧ s.running.isNone)
    (s := ⟨oneTick, none⟩) ⟨oneTick_start, rfl⟩ (by decide +kernel)
  obtain ⟨hpending, hnext, hidle⟩ := of_decide_eq_true hp
  obtain rfl := Option.isNone_iff_eq_none.mp hidle
  have hw : Reachable tickLoads settings w := hs.mono (fun _ h => h) fun _ _ => formed_of_still
  refine ⟨_, hw.elapse 30000, hw.reached.sane.rested (by decide), fun supply n gaps k hk => ?_⟩
  refine (stuck_rounds supply gaps (w := (_, n)) (hw.elapse 30000) ⟨by decide, by decide⟩
    ⟨Option.isSome_iff_ne_none.mp hpending, hnext.ge⟩ k).1 (hk.pending .ticks 1)

end TradePulse.Risk
