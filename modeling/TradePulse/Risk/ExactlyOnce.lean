import TradePulse.Core.Runs
import TradePulse.Risk.Exact
import Mathlib.Data.List.Perm.Basic
import Mathlib.Data.List.Dedup

/-! # Applied exactly once

Delivery, application, publication and acknowledgement are separate steps, a
crash may fall between any two of them, and the stream may be reclaimed and
replayed at will. The event log is keyed by event id, and an entry is only
acknowledged behind its event: so each acknowledged event counts once. -/
namespace TradePulse.Risk
open TradePulse.Core TradePulse.Core.Process TradePulse.Core.Runs
open TradePulse.Core.Prog (only_perform only_ret)

variable {F : Type} [PyFloat F] {loads : String → Except PyError (Json F)} {config : Config F}

/-! ## The property -/

variable (loads) in
/-- Every entry carries a valid envelope, and different ones have different
event ids. An envelope may be on the stream any number of times. -/
structure ValidStream (log : List Fields) : Prop where
  valid : ∀ env ∈ envelopes loads log, SchemaValid env
  event_id : ∀ env ∈ envelopes loads log, ∀ env' ∈ envelopes loads log,
    env.eventId = env'.eventId → env = env'

variable (loads) in
/-- A new group on a valid stream, and a file without events. -/
def fresh (w : RiskWorld F) : Prop :=
  w.ledger.New ∧ ValidStream loads w.ledger.log ∧ w.store.applied_events = []

variable (loads) in
/-- The envelopes on the stream whose event id is in `applied_events`. -/
def Counted (w : RiskWorld F) (env : Json F) : Prop :=
  env ∈ envelopes loads w.ledger.log ∧ env.eventId ∈ w.store.applied_events.map (·.event_id)

variable (loads) in
/-- The event of entry `id` is in the log. -/
def AppliedAt (g : ConsumerGroup Fields) (events : List (AppliedEvent F)) (id : Nat) : Prop :=
  ∃ fields, (id, fields) ∈ StreamLog.after g.log 0 ∧
    (envelope loads fields).eventId ∈ events.map (·.event_id)

variable (loads) in
/-- No acknowledged event is lost, and none is applied twice or from nowhere. -/
structure AppliedOnce (w : RiskWorld F) : Prop where
  acked : ∀ id ∈ w.ledger.acked, AppliedAt loads w.ledger w.store.applied_events id
  applied : ∀ id ∈ w.store.applied_events.map (·.event_id),
    ∃ env ∈ envelopes loads w.ledger.log, env.eventId = id
  once : (w.store.applied_events.map (·.event_id)).Nodup

/-- No table and no published envelope differs. -/
def Unchanged (w w' : RiskWorld F) : Prop := w'.store = w.store ∧ w'.risk = w.risk

variable (loads config) in
/-- Taking up an entry changes no table and publishes nothing, wherever it is
cut off. -/
structure Inert (fields : Fields) (w : RiskWorld F) : Prop where
  safe : Safe (worker loads config) .any (Unchanged w)
    (fun r w' => Unchanged w w' ∧ ∀ sent, r = .ok sent → sent = false)
    (handleLedger loads config fields) w

variable (loads) in
/-- The cash of each account is the seed and the deltas of the distinct
envelopes that count. -/
def CashCounts (w : RiskWorld F) : Prop :=
  ∀ (a : String) (seedCash : F) (es : List (Json F)), es.Nodup →
    (∀ env, env ∈ es ↔ Counted loads w env) →
    w.store.accountCash (.str a) seedCash = .ok (seedCash +
      ((es.filter fun env => env.account = some a).map Json.cashDelta).foldr (· + ·) 0)

/-- Addition without rounding. -/
structure ExactAddition (F : Type) [PyFloat F] : Prop where
  sum_rows : ∀ xs : List F, xs ≠ [] → PyFloat.sumColumn xs = some (xs.foldr (· + ·) 0)
  sum_none : PyFloat.sumColumn ([] : List F) = none
  add_comm : ∀ x y : F, x + y = y + x
  add_assoc : ∀ x y z : F, x + y + z = x + (y + z)

/-! ## The invariant -/

variable (loads) in
structure Sound (g : ConsumerGroup Fields) (events : List (AppliedEvent F)) : Prop where
  stream : ValidStream loads g.log
  acked : ∀ id ∈ g.acked, AppliedAt loads g events id
  rows : ∀ row ∈ events, ∃ env ∈ envelopes loads g.log, RowOf env row
  once : (events.map (·.event_id)).Nodup

variable (loads) in
/-- Entries in hand are entries of the stream; before an acknowledgement the
event of the entry is in the log. -/
def oncePoints : LedgerPoints F where
  rest := Sound loads
  todo rs g events := Sound loads g events ∧ ConsumerGroup.InOrder g.log rs
  done id rs g events := Sound loads g events ∧ AppliedAt loads g events id ∧
    ConsumerGroup.InOrder g.log rs

omit [PyFloat F] in
theorem envelope_mem {log : List Fields} {e : Nat × Fields} (h : e ∈ StreamLog.after log 0) :
    envelope loads e.2 ∈ envelopes loads log :=
  List.mem_map_of_mem (List.mem_of_getElem? (StreamLog.mem_after.mp h).2)

omit [PyFloat F] in
/-- A stream that grows. -/
theorem AppliedAt.grow {g g' : ConsumerGroup Fields} {events events' : List (AppliedEvent F)}
    {id : Nat} (h : AppliedAt loads g events id) (hlog : g.log <+: g'.log) (he : events <+: events') :
    AppliedAt loads g' events' id := by
  obtain ⟨fields, hmem, hid⟩ := h
  exact ⟨fields, (StreamLog.after_mono hlog (Nat.zero_le _)).subset hmem,
    (he.map _).subset hid⟩

theorem Sound.grow {g g' : ConsumerGroup Fields} {events : List (AppliedEvent F)}
    (h : Sound loads g events) (hlog : g.log <+: g'.log) (hacked : g'.acked = g.acked)
    (hstream : ValidStream loads g'.log) : Sound loads g' events where
  stream := hstream
  acked id hid := AppliedAt.grow (h.acked id (hacked ▸ hid)) hlog (List.prefix_refl _)
  rows row hrow := by
    obtain ⟨env, hmem, hspec⟩ := h.rows row hrow
    exact ⟨env, (hlog.map _).subset hmem, hspec⟩
  once := h.once

/-- A row whose event id is new. -/
theorem Sound.snoc {g : ConsumerGroup Fields} {events : List (AppliedEvent F)}
    (h : Sound loads g events) {env : Json F} (henv : env ∈ envelopes loads g.log)
    {row : AppliedEvent F} (hof : RowOf env row) (hnew : env.eventId ∉ events.map (·.event_id)) :
    Sound loads g (events ++ [row]) where
  stream := h.stream
  acked id hid := AppliedAt.grow (h.acked id hid) (List.prefix_refl _) (List.prefix_append ..)
  rows r hr := by
    obtain hr | hr := List.mem_append.mp hr
    · exact h.rows r hr
    · cases List.mem_singleton.mp hr
      exact ⟨env, henv, hof⟩
  once := by
    rw [List.map_append, List.map_singleton, hof.event_id]
    exact List.nodup_append.mpr ⟨h.once, List.nodup_singleton _, fun a ha b hb hab =>
      hnew (List.mem_singleton.mp hb ▸ hab ▸ ha)⟩

/-- `INSERT OR IGNORE` of the row of a valid entry. -/
theorem Sound.insert {g : ConsumerGroup Fields} {events : List (AppliedEvent F)}
    (h : Sound loads g events) {e : Nat × Fields} (he : e ∈ StreamLog.after g.log 0)
    {row : AppliedEvent F} (hof : RowOf (envelope loads e.2) row) :
    Sound loads g (RiskStore.insertOrIgnore events row).2 ∧
      AppliedAt loads g (RiskStore.insertOrIgnore events row).2 e.1 := by
  have hmem : envelope loads e.2 ∈ envelopes loads g.log := envelope_mem he
  rw [(h.stream.valid _ hmem).insertOrIgnore hof]
  split
  · exact ⟨h, e.2, he, ‹_›⟩
  · exact ⟨h.snoc hmem hof ‹_›, e.2, he, by simp [hof.event_id]⟩

theorem Sound.ack {g : ConsumerGroup Fields} {events : List (AppliedEvent F)} {id : Nat}
    (h : Sound loads g events) (hid : AppliedAt loads g events id) :
    Sound loads (g.ack id) events where
  stream := h.stream
  acked n hn := by
    obtain hn | hn := List.mem_append.mp hn
    · exact h.acked n hn
    · exact List.mem_singleton.mp hn ▸ hid
  rows := h.rows
  once := h.once

theorem once_rules : LedgerRules loads config (growing .any (ValidStream loads)) (oncePoints loads) where
  rest_stable w e w' h hg hx := by
    cases hx
    obtain ⟨hlog, hacked, hstream, hstore⟩ := ledger_env hg.2 h.stream
    rw [onLedger, hstore]
    exact Sound.grow h hlog hacked hstream
  todo_stable rs w e w' h hg hx := by
    cases hx
    obtain ⟨hlog, hacked, hstream, hstore⟩ := ledger_env hg.2 h.1.stream
    rw [onLedger, hstore]
    exact ⟨h.1.grow hlog hacked hstream, h.2.grow hlog⟩
  done_stable id rs w e w' h hg hx := by
    cases hx
    obtain ⟨hlog, hacked, hstream, hstore⟩ := ledger_env hg.2 h.1.stream
    rw [onLedger, hstore]
    exact ⟨h.1.grow hlog hacked hstream, h.2.1.grow hlog (List.prefix_refl _), h.2.2.grow hlog⟩
  todo_rest _ _ _ h := h.1
  done_rest _ _ _ _ h := h.1
  read w n _ h _ := ⟨h.grow (List.prefix_refl _) rfl h.stream, w.ledger.inOrder_unread _⟩
  claim w m n _ h _ := ⟨h.grow (List.prefix_refl _) rfl h.stream, w.ledger.inOrder_claimable _ _⟩
  skip id fields rs g events h hev := by
    have hvalid := h.1.stream.valid _ (envelope_mem (h.2.subset (List.mem_cons_self ..)))
    rw [hvalid.entryEvent] at hev
    cases hev
  ignore id fields rs g events event h hev hrow := by
    have hvalid := h.1.stream.valid _ (envelope_mem (h.2.subset (List.mem_cons_self ..)))
    obtain ⟨_, hsome, -⟩ := hvalid.row_of_event hev hrow
    cases hsome
  apply id fields rs g events event row h hev hrow := by
    have hmem := h.2.subset (List.mem_cons_self ..)
    obtain ⟨_, hsome, hof⟩ := (h.1.stream.valid _ (envelope_mem hmem)).row_of_event hev hrow
    cases hsome
    obtain ⟨hs, hat⟩ := h.1.insert hmem hof
    exact ⟨hs, hat, (List.sublist_cons_self ..).trans h.2⟩
  ack id rs g events h := ⟨h.1.ack h.2.1, h.2.2⟩

theorem sound_of_fresh {w : RiskWorld F} (h : fresh loads w) :
    Sound loads w.ledger w.store.applied_events := by
  obtain ⟨hnew, hstream, hevents⟩ := h
  refine ⟨hstream, fun id hid => ?_, fun row hrow => ?_, ?_⟩
  · rw [hnew.acked] at hid
    cases hid
  · rw [hevents] at hrow
    cases hrow
  · rw [hevents]
    exact List.nodup_nil

theorem sound_of_reach {s : WorkerState F}
    (h : Reach (step (worker loads config)) (growing .any (ValidStream loads)).ok (idle (fresh loads)) s) :
    Sound loads s.world.ledger s.world.store.applied_events :=
  once_rules.proof.always (A := onLedger (Sound loads)) (fun _ h => h) (fun _ h => h)
    (h.mono (fun _ hs => ⟨sound_of_fresh hs.1, hs.2⟩) fun _ _ h => h)

/-! ## Replays -/

/-- A known event id changes nothing. -/
theorem SchemaValid.applyLedgerEvent {env : Json F} (h : SchemaValid env) {s : RiskStore F}
    (hin : env.eventId ∈ s.applied_events.map (·.event_id)) {r : Bool} {s' : RiskStore F}
    (hx : s.applyLedgerEvent (eventOf env) = .ok (r, s')) : r = false ∧ s' = s := by
  obtain ⟨_, hrow, hx⟩ := except_bind_ok.mp hx
  obtain ⟨row, rfl, hof⟩ := h.row hrow
  simp only [h.insertOrIgnore hof, if_pos hin] at hx
  cases hx
  exact ⟨rfl, rfl⟩

theorem inert_of_applied {fields : Fields} {w : RiskWorld F}
    (h : SchemaValid (envelope loads fields))
    (hin : (envelope loads fields).eventId ∈ w.store.applied_events.map (·.event_id)) :
    Inert loads config fields w := by
  have hst : Stable (worker loads config) .any (Unchanged w) := by
    intro w' e w'' hw _ hx
    cases hx
    cases e with
    | setId s n => cases s <;> exact hw
    | _ => exact hw
  refine ⟨?_⟩
  rw [handleLedger_eq, h.entryEvent]
  refine Safe.perform hst (fun _ h => h) ?_ ?_ ⟨rfl, rfl⟩
  · intro w' o newlyApplied w'' hw _ hx
    obtain ⟨r, store, hy, hr, rfl⟩ | ⟨_, _, hr, _⟩ := stored_some hx
    · cases hr
      obtain ⟨rfl, rfl⟩ := h.applyLedgerEvent (hw.1 ▸ hin) hy
      exact Safe.ret hst (fun _ h => h) (fun _ h => ⟨h, fun sent hs => (Except.ok.inj hs).symm⟩)
        hw
    · cases hr
  · intro w' o e w'' hw _ hx
    obtain ⟨_, _, _, hr, _⟩ | ⟨_, _, _, rfl⟩ := stored_some hx
    · cases hr
    · exact Safe.raise hst (fun _ h => h) (fun _ h => ⟨h, nofun⟩) hw

/-! ## Cash -/

/-- What a row adds to which account, under which event id. -/
def effect (row : AppliedEvent F) : Option String × Option String × F :=
  (row.event_id, some row.account_id, row.cash_delta)

def effectOf (env : Json F) : Option String × Option String × F :=
  (env.eventId, env.account, env.cashDelta)

theorem effectOf_row {env : Json F} {row : AppliedEvent F} (h : RowOf env row) :
    effectOf env = effect row := by
  rw [effectOf, effect, h.event_id, h.account, h.cash_delta]

/-- The deltas of an account. -/
def deltas (a : String) (effects : List (Option String × Option String × F)) : List F :=
  (effects.filter (·.2.1 = some a)).map (·.2.2)

theorem accountCash_eq (s : RiskStore F) (a : String) (seedCash : F) :
    s.accountCash (.str a) seedCash =
      .ok (seedCash + RiskStore.total (deltas a (s.applied_events.map effect))) := by
  rw [deltas, List.filter_map, List.map_map]
  rfl

theorem deltas_effectOf (a : String) (es : List (Json F)) :
    deltas a (es.map effectOf) =
      (es.filter fun env => env.account = some a).map Json.cashDelta := by
  rw [deltas, List.filter_map, List.map_map]
  rfl

theorem ExactAddition.total_eq (hF : ExactAddition F) (xs : List F) :
    RiskStore.total xs = xs.foldr (· + ·) 0 := by
  rw [RiskStore.total]
  cases xs with
  | nil => rw [hF.sum_none]; rfl
  | cons x xs => rw [hF.sum_rows _ (List.cons_ne_nil x xs)]; rfl

/-- A sum does not depend on the order. -/
theorem ExactAddition.total_perm (hF : ExactAddition F) {xs ys : List F} (h : xs.Perm ys) :
    RiskStore.total xs = RiskStore.total ys := by
  rw [hF.total_eq, hF.total_eq]
  refine h.foldr_eq' (fun x _ y _ z => ?_) 0
  rw [← hF.add_assoc, ← hF.add_assoc, hF.add_comm y x]

omit [PyFloat F] in
theorem deltas_perm {a : String} {xs ys : List (Option String × Option String × F)}
    (h : xs.Perm ys) : (deltas a xs).Perm (deltas a ys) := (h.filter _).map _

/-- The rows are the effects of what counts. -/
theorem Sound.mem_effects {w : RiskWorld F} (h : Sound loads w.ledger w.store.applied_events)
    {k : Option String × Option String × F} :
    k ∈ w.store.applied_events.map effect ↔ ∃ env, Counted loads w env ∧ effectOf env = k := by
  constructor
  · intro hk
    obtain ⟨row, hrow, rfl⟩ := List.mem_map.mp hk
    obtain ⟨env, hmem, hof⟩ := h.rows row hrow
    exact ⟨env, ⟨hmem, hof.event_id ▸ List.mem_map_of_mem hrow⟩, effectOf_row hof⟩
  · rintro ⟨env, ⟨hmem, hin⟩, rfl⟩
    obtain ⟨row, hrow, hid⟩ := List.mem_map.mp hin
    obtain ⟨env', hmem', hof⟩ := h.rows row hrow
    obtain rfl := h.stream.event_id env hmem env' hmem' (hid ▸ hof.event_id)
    exact List.mem_map.mpr ⟨row, hrow, (effectOf_row hof).symm⟩

theorem Sound.effects_nodup {w : RiskWorld F} (h : Sound loads w.ledger w.store.applied_events) :
    (w.store.applied_events.map effect).Nodup := by
  refine List.Nodup.of_map Prod.fst ?_
  rw [List.map_map]
  exact h.once

theorem Sound.cashCounts {w : RiskWorld F} (hF : ExactAddition F)
    (h : Sound loads w.ledger w.store.applied_events) : CashCounts loads w := by
  intro a seedCash es hnodup hes
  have hperm : (w.store.applied_events.map effect).Perm (es.map effectOf) := by
    refine (List.perm_ext_iff_of_nodup h.effects_nodup ?_).mpr fun k => ?_
    · refine hnodup.map_on fun env henv env' henv' he => ?_
      exact h.stream.event_id env ((hes env).mp henv).1 env' ((hes env').mp henv').1
        (congrArg Prod.fst he)
    · rw [h.mem_effects, List.mem_map]
      exact exists_congr fun env => and_congr_left fun _ => (hes env).symm
  rw [accountCash_eq, hF.total_perm (deltas_perm hperm), deltas_effectOf, hF.total_eq]

/-- Two worlds in which the same envelopes count. -/
theorem Sound.cash_eq {w w' : RiskWorld F} (hF : ExactAddition F)
    (h : Sound loads w.ledger w.store.applied_events)
    (h' : Sound loads w'.ledger w'.store.applied_events)
    (hsame : ∀ env, Counted loads w env ↔ Counted loads w' env) (a : String) (seedCash : F) :
    w.store.accountCash (.str a) seedCash = w'.store.accountCash (.str a) seedCash := by
  have hperm : (w.store.applied_events.map effect).Perm (w'.store.applied_events.map effect) := by
    refine (List.perm_ext_iff_of_nodup h.effects_nodup h'.effects_nodup).mpr fun k => ?_
    rw [h.mem_effects, h'.mem_effects]
    exact exists_congr fun env => and_congr_left fun _ => hsame env
  rw [accountCash_eq, accountCash_eq, hF.total_perm (deltas_perm hperm)]

/-- **Exactly-once effect.** In every state of every run on a valid stream, no
acknowledged event is lost and none applied twice; taking up an applied event
again does nothing; and in exact arithmetic the cash is the seed and the
deltas of the distinct events applied, so that it depends on these alone. -/
theorem effect_once {s : WorkerState F}
    (h : Reach (step (worker loads config)) (growing .any (ValidStream loads)).ok (idle (fresh loads)) s) :
    AppliedOnce loads s.world ∧
    (∀ fields, SchemaValid (envelope loads fields) →
      (envelope loads fields).eventId ∈ s.world.store.applied_events.map (·.event_id) →
      Inert loads config fields s.world) ∧
    (ExactAddition F → CashCounts loads s.world ∧
      ∀ (config' : Config F) (s' : WorkerState F),
        Reach (step (worker loads config')) (growing .any (ValidStream loads)).ok (idle (fresh loads)) s' →
        (∀ env, Counted loads s.world env ↔ Counted loads s'.world env) →
        ∀ a seedCash, s.world.store.accountCash (.str a) seedCash =
          s'.world.store.accountCash (.str a) seedCash) := by
  have hs := sound_of_reach h
  refine ⟨⟨hs.acked, fun id hid => ?_, hs.once⟩, fun _ => inert_of_applied, fun hF =>
    ⟨hs.cashCounts hF, fun _ _ h' hsame a seedCash =>
      hs.cash_eq hF (sound_of_reach h') hsame a seedCash⟩⟩
  obtain ⟨row, hrow, rfl⟩ := List.mem_map.mp hid
  obtain ⟨env, hmem, hof⟩ := hs.rows row hrow
  exact ⟨env, hmem, hof.event_id.symm⟩

/-! ## A replay in exact arithmetic -/

theorem exactAddition_rat : ExactAddition ℚ := ⟨fun _ h => if_neg h, if_pos rfl, add_comm, add_assoc⟩

def firstBuy : Purchase where
  id := "e1"
  account := "A"
  symbol := "X"
  price := 4
  positionAfter := 1

def secondBuy : Purchase where
  id := "e2"
  account := "A"
  symbol := "X"
  price := 6
  positionAfter := 2

/-- The first purchase is on the stream twice. -/
def buys : List Fields := [firstBuy.fields, firstBuy.fields, secondBuy.fields]

def buyLoads : String → Except PyError (Json ℚ) := loadsOf [firstBuy, secondBuy]

theorem buys_texts : ([firstBuy, secondBuy].map Purchase.text).Nodup := by decide +kernel

theorem envelope_firstBuy : envelope buyLoads firstBuy.fields = firstBuy.json :=
  envelope_fields buys_texts (by simp)

theorem envelope_secondBuy : envelope buyLoads secondBuy.fields = secondBuy.json :=
  envelope_fields buys_texts (by simp)

theorem buys_envelopes :
    envelopes buyLoads buys = [firstBuy.json, firstBuy.json, secondBuy.json] := by
  simp only [envelopes, buys, List.map_cons, List.map_nil, envelope_firstBuy, envelope_secondBuy]

theorem buys_fresh : fresh buyLoads (worldOf buys) := by
  have hmem : ∀ env ∈ envelopes buyLoads buys, env = firstBuy.json ∨ env = secondBuy.json := by
    rw [buys_envelopes]
    simp
  have hne : firstBuy.json.eventId ≠ secondBuy.json.eventId := by decide
  refine ⟨⟨rfl, fun _ => rfl, rfl⟩, ⟨fun env henv => ?_, fun env henv env' henv' he => ?_⟩, rfl⟩
  · obtain rfl | rfl := hmem env henv <;> exact Purchase.schemaValid _
  · obtain rfl | rfl := hmem env henv <;> obtain rfl | rfl := hmem env' henv'
    · rfl
    · exact absurd he hne
    · exact absurd he.symm hne
    · rfl

/-- A crash between the snapshot and its publication, then a replay from the
start of the stream. -/
def crashAndReplay : List (WorkerAct ℚ) :=
  opening ++ applyNew "t1" ++ [.crash, .env (.setId .ledger 0)] ++ opening ++ applyKnown ++
    applyKnown ++ applyNew "t2" ++ publishNew "r2" ++ [.leave]

theorem effect_once_replay : ∃ s : WorkerState ℚ,
    s.world.ledger.acked = [1, 2, 3] ∧ s.world.store.applied_events.map (·.event_id) =
      [some "e1", some "e2"] ∧
    AppliedOnce buyLoads s.world ∧ Inert buyLoads settings firstBuy.fields s.world ∧
    CashCounts buyLoads s.world := by
  obtain ⟨s, hs, hp⟩ := Reach.exists_of_run (step (worker buyLoads settings))
    (growing .any fun _ => False).ok (idle (fresh buyLoads)) crashAndReplay
    (fun s => s.world.ledger.acked = [1, 2, 3] ∧
      s.world.store.applied_events.map (·.event_id) = [some "e1", some "e2"])
    (s := ⟨worldOf buys, none⟩) ⟨buys_fresh, rfl⟩ (by decide +kernel)
  obtain ⟨hacked, hevents⟩ := of_decide_eq_true hp
  obtain ⟨honce, hinert, hcash⟩ :=
    effect_once (hs.mono (fun _ h => h) fun _ _ => growing_of_none)
  have hvalid : SchemaValid (envelope buyLoads firstBuy.fields) :=
    envelope_firstBuy ▸ firstBuy.schemaValid
  have hin : (envelope buyLoads firstBuy.fields).eventId ∈
      s.world.store.applied_events.map (·.event_id) := by
    rw [envelope_firstBuy, hevents]
    exact List.mem_cons_self ..
  exact ⟨s, hacked, hevents, honce, hinert firstBuy.fields hvalid hin, (hcash exactAddition_rat).1⟩

end TradePulse.Risk
