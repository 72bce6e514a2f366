import TradePulse.Risk.Worker

/-! # One pass over delivered ledger entries

`reclaim_ledger` and `drain_ledger` take the entries of a reply one by one:
apply, publish, acknowledge. An argument about the group and the event log
says what holds before an entry, after it and between passes; everything else
the worker does leaves both alone. -/
namespace TradePulse.Risk
open TradePulse.Core TradePulse.Core.Process
open TradePulse.Core.Prog (only_perform only_ofExcept only_ret)

variable {F : Type} [PyFloat F]

/-! ## Calls that leave the event log alone -/

section Store

variable {s s' : RiskStore F} {u : Unit}

/-! Each method writes one table. -/

theorem RiskStore.upsertPrice_only {y : Json F} {p : F} (h : s.upsertPrice y p = .ok (u, s')) :
    s' = { s with price_cache := s'.price_cache } := by
  obtain ⟨_, -, h⟩ := except_bind_ok.mp h
  split at h
  · cases h
  · split at h <;> cases h <;> rfl

omit [PyFloat F] in
theorem RiskStore.committed_some {called : Except PyError Unit × RiskStore F}
    (h : RiskStore.committed called = .ok (u, s')) : s' = called.2 := by
  rw [RiskStore.committed] at h
  cases hc : called.1 with
  | ok u => rw [hc] at h; cases h; rfl
  | error e => rw [hc] at h; cases h

theorem RiskStore.appendPrice_only {y : Json F} {p : F} {n : Int} {t : Json F}
    (h : RiskStore.committed (s.appendPrice y p n t) = .ok (u, s')) :
    s' = { s with price_history := s'.price_history } := by
  rw [RiskStore.committed_some h, RiskStore.appendPrice]
  cases RiskStore.priceRow y p t <;> rfl

theorem RiskStore.appendPv_only {a : Json F} {v : F} {n : Int} {t : Json F}
    (h : RiskStore.committed (s.appendPv a v n t) = .ok (u, s')) :
    s' = { s with pv_history := s'.pv_history } := by
  rw [RiskStore.committed_some h, RiskStore.appendPv]
  cases RiskStore.pvRow a v t <;> rfl

theorem RiskStore.applyLedgerEvent_only {e : RiskStore.LedgerEvent F} {b : Bool}
    (h : s.applyLedgerEvent e = .ok (b, s')) :
    s' = { s with applied_events := s'.applied_events } := by
  obtain ⟨row, -, h⟩ := except_bind_ok.mp h
  cases row <;> cases h <;> rfl

theorem RiskStore.saveRiskSnapshot_only {a : Json F} {m : RiskMetrics F} {t : String}
    (h : s.saveRiskSnapshot a m t = .ok (u, s')) :
    s' = { s with risk_snapshots := s'.risk_snapshots } := by
  obtain ⟨_, -, h⟩ := except_bind_ok.mp h
  split at h
  · split at h <;> cases h <;> rfl
  · cases h

end Store

/-- The calls that move the ledger group or the event log. -/
def RiskCall.onLedger : RiskCall F → Bool
  | .xreadgroup .ledger _ | .xautoclaim _ _ | .xack .ledger _ | .applyLedgerEvent _ => true
  | _ => false

/-- A call that leaves both alone. -/
def OffLedger (i : RiskCall F) : Prop := i.onLedger = false

omit [PyFloat F] in
theorem redis_some {α : Type} {o : RiskChoice F} {w w' w'' : RiskWorld F} {r : α}
    {x : Except PyError α} (h : redis o w r w' = some (x, w'')) :
    x = .ok r ∧ w'' = w' ∨ (∃ e, x = .error e) ∧ (w'' = w ∨ w'' = w') := by
  cases o <;> simp only [redis, Option.some.injEq, Prod.mk.injEq, reduceCtorEq] at h
  · exact .inl ⟨h.1.symm, h.2.symm⟩
  · exact .inr ⟨⟨_, h.1.symm⟩, .inl h.2.symm⟩
  · exact .inr ⟨⟨_, h.1.symm⟩, .inr h.2.symm⟩

omit [PyFloat F] in
theorem stored_some {α : Type} {o : RiskChoice F} {w w' : RiskWorld F}
    {y : Except PyError (α × RiskStore F)} {x : Except PyError α}
    (h : stored o w y = some (x, w')) :
    (∃ r store, y = .ok (r, store) ∧ x = .ok r ∧ w' = { w with store }) ∨
      ∃ e, y = .error e ∧ x = .error e ∧ w' = w := by
  cases o with
  | done =>
    cases y with
    | ok p =>
      simp only [stored, Option.some.injEq, Prod.mk.injEq] at h
      exact .inl ⟨p.1, p.2, rfl, h.1.symm, h.2.symm⟩
    | error e =>
      simp only [stored, Option.some.injEq, Prod.mk.injEq] at h
      exact .inr ⟨e, rfl, h.1.symm, h.2.symm⟩
  | _ => cases h

/-- The world once a method of the store is through. -/
def RiskWorld.wrote {α : Type} (w : RiskWorld F) (x : Except PyError (α × RiskStore F)) :
    RiskWorld F :=
  match x with
  | .ok (_, store) => { w with store }
  | .error _ => w

/-- What a call does to the world when it takes effect. -/
def RiskCall.effect : RiskCall F → RiskWorld F → RiskWorld F
  | .xreadgroup s n, w => w.setGroup s ((w.group s).readgroup n.toNat)
  | .xautoclaim m n, w => { w with ledger := w.ledger.autoclaim m.toNat n.toNat }
  | .xack s id, w => w.setGroup s ((w.group s).ack id)
  | .xadd fields, w => w.publish fields
  | .upsertPrice y p, w => w.wrote (w.store.upsertPrice y p)
  | .appendPrice y p n t, w => w.wrote (RiskStore.committed (w.store.appendPrice y p n t))
  | .appendPv a v n t, w => w.wrote (RiskStore.committed (w.store.appendPv a v n t))
  | .applyLedgerEvent e, w => w.wrote (w.store.applyLedgerEvent e)
  | .saveRiskSnapshot a m t, w =>
    { w.wrote (w.store.saveRiskSnapshot a m t) with unpublished := true }
  | .setLastRecompute t, w => { w with last := some t }
  | .select, w | .nowIso, w | .uuid4, w | .monotonic, w | .lastRecompute, w => w

omit [PyFloat F] in
theorem stored_effect {α : Type} {o : RiskChoice F} {w w' : RiskWorld F}
    {y : Except PyError (α × RiskStore F)} {x : Except PyError α}
    (h : stored o w y = some (x, w')) : w' = w.wrote y := by
  obtain ⟨r, store, rfl, -, rfl⟩ | ⟨_, rfl, -, rfl⟩ := stored_some h <;> rfl

omit [PyFloat F] in
theorem stored_wrote {α : Type} (w : RiskWorld F) (y : Except PyError (α × RiskStore F)) :
    stored .done w y = some (y.map Prod.fst, w.wrote y) := by
  cases y <;> rfl

omit [PyFloat F] in
theorem redis_effect {α : Type} {o : RiskChoice F} {w w' w'' : RiskWorld F} {r : α}
    {x : Except PyError α} (h : redis o w r w' = some (x, w'')) : w'' = w ∨ w'' = w' := by
  obtain ⟨-, rfl⟩ | ⟨-, h⟩ := redis_some h
  · exact .inr rfl
  · exact h

/-- A call takes effect, or leaves the world as it is. -/
theorem exec_effect {i : RiskCall F} {o : RiskChoice F} {w w' : RiskWorld F}
    {r : Except PyError i.Result} (h : riskExec i o w = some (r, w')) :
    w' = w ∨ w' = i.effect w := by
  cases i with
  | xreadgroup s n =>
    simp only [riskExec] at h
    split at h
    · exact redis_effect h
    · cases h
      exact .inl rfl
  | xautoclaim m n =>
    simp only [riskExec] at h
    split at h
    · exact redis_effect h
    · cases h
      exact .inl rfl
  | xack s id => exact redis_effect h
  | xadd fields => exact redis_effect h
  | upsertPrice y p => exact .inr (stored_effect h)
  | appendPrice y p n t => exact .inr (stored_effect h)
  | appendPv a v n t => exact .inr (stored_effect h)
  | applyLedgerEvent e => exact .inr (stored_effect h)
  | saveRiskSnapshot a m t =>
    cases o with
    | done =>
      simp only [riskExec] at h
      split at h
      · rename_i hs
        cases h
        exact .inr (by rw [RiskCall.effect, hs]; rfl)
      · cases h
        exact .inl rfl
    | _ => cases h
  | setLastRecompute t =>
    cases o <;> cases h
    exact .inr rfl
  | _ =>
    cases o <;> cases h
    exact .inl rfl

omit [PyFloat F] in
/-- A table that a method keeps. -/
theorem wrote_frame {α β : Type} {w : RiskWorld F} {x : Except PyError (α × RiskStore F)}
    (table : RiskStore F → β) (h : ∀ r s, x = .ok (r, s) → table s = table w.store) :
    table (w.wrote x).store = table w.store := by
  cases x with
  | ok a => exact h a.1 a.2 rfl
  | error e => rfl

omit [PyFloat F] in
@[simp] theorem ledger_wrote {α : Type} (w : RiskWorld F) (x : Except PyError (α × RiskStore F)) :
    (w.wrote x).ledger = w.ledger := by
  cases x <;> rfl

omit [PyFloat F] in
@[simp] theorem ticks_wrote {α : Type} (w : RiskWorld F) (x : Except PyError (α × RiskStore F)) :
    (w.wrote x).ticks = w.ticks := by
  cases x <;> rfl

omit [PyFloat F] in
@[simp] theorem risk_wrote {α : Type} (w : RiskWorld F) (x : Except PyError (α × RiskStore F)) :
    (w.wrote x).risk = w.risk := by
  cases x <;> rfl

omit [PyFloat F] in
@[simp] theorem last_wrote {α : Type} (w : RiskWorld F) (x : Except PyError (α × RiskStore F)) :
    (w.wrote x).last = w.last := by
  cases x <;> rfl

omit [PyFloat F] in
@[simp] theorem unpublished_wrote {α : Type} (w : RiskWorld F)
    (x : Except PyError (α × RiskStore F)) : (w.wrote x).unpublished = w.unpublished := by
  cases x <;> rfl

/-- All other calls leave both as they are. -/
theorem exec_frame {i : RiskCall F} (hi : OffLedger i) {o : RiskChoice F}
    {w w' : RiskWorld F} {r : Except PyError i.Result} (h : riskExec i o w = some (r, w')) :
    w'.ledger = w.ledger ∧ w'.store.applied_events = w.store.applied_events := by
  rcases exec_effect h with rfl | rfl
  · exact ⟨rfl, rfl⟩
  cases i with
  | xreadgroup s n =>
    cases s with
    | ledger => cases hi
    | ticks => exact ⟨rfl, rfl⟩
  | xautoclaim m n => cases hi
  | xack s id =>
    cases s with
    | ledger => cases hi
    | ticks => exact ⟨rfl, rfl⟩
  | applyLedgerEvent e => cases hi
  | upsertPrice y p =>
    exact ⟨ledger_wrote .., wrote_frame _ fun _ _ h => by rw [RiskStore.upsertPrice_only h]⟩
  | appendPrice y p n t =>
    exact ⟨ledger_wrote .., wrote_frame _ fun _ _ h => by rw [RiskStore.appendPrice_only h]⟩
  | appendPv a v n t =>
    exact ⟨ledger_wrote .., wrote_frame _ fun _ _ h => by rw [RiskStore.appendPv_only h]⟩
  | saveRiskSnapshot a m t =>
    exact ⟨ledger_wrote .., wrote_frame _ fun _ _ h => by rw [RiskStore.saveRiskSnapshot_only h]⟩
  | _ => exact ⟨rfl, rfl⟩

/-! ## What a program does not do -/

section Only

variable {P : RiskCall F → Prop} {config : Config F} {loads : String → Except PyError (Json F)}

omit [PyFloat F] in
theorem only_reads {α : Type} {f : RiskStore F → Except PyError α} (h : P .select) :
    (reads f).Only P := (only_perform h).bind fun _ => only_ofExcept _

theorem only_buildRiskEnvelope {a c : Json F} (hsel : P .select) (hnow : P .nowIso)
    (huuid : P .uuid4) (hsave : ∀ m t, P (.saveRiskSnapshot a m t)) :
    (buildRiskEnvelope config a c).Only P := by
  refine (only_reads hsel).bind fun cash => (only_reads hsel).bind fun positions =>
    (only_reads hsel).bind fun pv => (only_ofExcept _).bind fun metrics =>
    (only_perform hnow).bind fun t => (only_perform (hsave _ _)).bind fun _ =>
    (only_perform huuid).bind fun id => Prog.Only.bind ?_ fun _ => only_ret _
  unfold correlationOr
  split
  · exact only_ret _
  · exact (only_perform huuid).map

theorem only_processTickEnvelope {env : Json F} (hup : ∀ y p, P (.upsertPrice y p))
    (happ : ∀ y p n t, P (.appendPrice y p n t)) : (processTickEnvelope config env).Only P := by
  refine (only_ofExcept _).bind fun data => (only_ofExcept _).bind fun symbol =>
    (only_ofExcept _).bind fun price => ?_
  split
  · exact only_ret _
  · exact only_ret _
  · refine (only_ofExcept _).bind fun price => ?_
    cases price with
    | none => exact only_ret _
    | some price =>
      exact (only_perform (hup _ _)).bind fun _ => (only_ofExcept _).bind fun t =>
        (only_perform (happ _ _ _ _)).bind fun _ => only_ret _

theorem only_processLedgerEnvelope {env : Json F} (happly : ∀ e, P (.applyLedgerEvent e))
    (hsel : P .select) (hnow : P .nowIso) (huuid : P .uuid4)
    (hsave : ∀ a m t, P (.saveRiskSnapshot a m t)) :
    (processLedgerEnvelope config env).Only P := by
  refine (only_ofExcept _).bind fun event => ?_
  cases event with
  | none => exact only_ret _
  | some event =>
    refine (only_perform (happly event)).bind fun newlyApplied => ?_
    cases newlyApplied with
    | false => exact only_ret _
    | true => exact (only_buildRiskEnvelope hsel hnow huuid fun _ _ => hsave _ _ _).map

theorem only_refreshPrices (hread : ∀ n, P (.xreadgroup .ticks n))
    (hack : ∀ id, P (.xack .ticks id)) (hup : ∀ y p, P (.upsertPrice y p))
    (happ : ∀ y p n t, P (.appendPrice y p n t)) : (refreshPrices loads config).Only P := by
  refine (only_perform (hread _)).bind fun reply => ?_
  suffices h : ∀ (rs : List (Nat × Fields)) (n : Int), (refreshTicks loads config rs n).Only P from
    h reply 0
  intro rs
  induction rs with
  | nil => exact fun _ => only_ret _
  | cons x rs ih =>
    intro n
    refine Prog.Only.bind ((only_ofExcept _).bind fun env => ?_) fun _ =>
      (only_perform (hack _)).bind fun _ => ih _
    split
    · exact only_ret _
    · exact (only_processTickEnvelope hup happ).bind fun _ => only_ret _

/-- The calls behind an envelope. -/
structure Builds (P : RiskCall F → Prop) : Prop where
  select : P .select
  nowIso : P .nowIso
  uuid4 : P .uuid4
  save : ∀ a m t, P (.saveRiskSnapshot a m t)
  add : ∀ fields, P (.xadd fields)

theorem Builds.build (h : Builds P) (a c : Json F) : (buildRiskEnvelope config a c).Only P :=
  only_buildRiskEnvelope h.select h.nowIso h.uuid4 fun _ _ => h.save _ _ _

theorem Builds.handleLedger (h : Builds P) (happly : ∀ e, P (.applyLedgerEvent e))
    (fields : Fields) : (handleLedger loads config fields).Only P := by
  refine (only_ofExcept _).bind fun env => ?_
  split
  · exact only_ret _
  · refine (only_processLedgerEnvelope happly h.select h.nowIso h.uuid4 h.save).bind fun sent => ?_
    cases sent with
    | none => exact only_ret _
    | some env => exact (only_perform (h.add _)).bind fun _ => only_ret _

theorem Builds.reclaimLedger (h : Builds P) (happly : ∀ e, P (.applyLedgerEvent e))
    (hclaim : ∀ m n, P (.xautoclaim m n)) (hack : ∀ id, P (.xack .ledger id)) :
    (reclaimLedger loads config).Only P := by
  refine (only_perform (hclaim _ _)).bind fun reply => ?_
  suffices hentries : ∀ (rs : List (Nat × Fields)) (n : Int),
      (reclaimEntries loads config rs n).Only P from hentries reply 0
  intro rs
  induction rs with
  | nil => exact fun _ => only_ret _
  | cons x rs ih =>
    exact fun n => (h.handleLedger happly _).bind fun _ => (only_perform (hack _)).bind fun _ => ih _

theorem Builds.drainLedger (h : Builds P) (happly : ∀ e, P (.applyLedgerEvent e))
    (hread : ∀ n, P (.xreadgroup .ledger n)) (hack : ∀ id, P (.xack .ledger id)) :
    (drainLedger loads config).Only P := by
  refine (only_perform (hread _)).bind fun reply => ?_
  suffices hentries : ∀ (rs : List (Nat × Fields)) (n : Int),
      (drainEntries loads config rs n).Only P from hentries reply 0
  intro rs
  induction rs with
  | nil => exact fun _ => only_ret _
  | cons x rs ih =>
    exact fun n => (h.handleLedger happly _).bind fun _ => (only_perform (hack _)).bind fun _ => ih _

theorem Builds.recomputeAccounts (h : Builds P) (happend : ∀ a v n t, P (.appendPv a v n t))
    (config : Config F) (accounts : List String) :
    ∀ n, (recomputeAccounts config accounts n).Only P := by
  induction accounts with
  | nil => exact fun n => only_ret _
  | cons a accounts ih =>
    intro n
    refine Prog.Only.bind ((only_reads h.select).bind fun positions => ?_) fun env => ?_
    · split
      · exact only_ret _
      · exact (only_reads h.select).bind fun cash => (only_perform (happend _ _ _ _)).bind fun _ =>
          (h.build _ _).map
    · cases env with
      | none => exact ih n
      | some env => exact (only_perform (h.add _)).bind fun _ => ih _

theorem Builds.maybeRecompute (h : Builds P) (happend : ∀ a v n t, P (.appendPv a v n t))
    (hmono : P .monotonic) (hlast : P .lastRecompute) (hset : ∀ t, P (.setLastRecompute t))
    (now : Option F) : (maybeRecompute config now).Only P := by
  refine Prog.Only.bind ?_ fun current => (only_perform hlast).bind fun last => ?_
  · cases now with
    | none => exact only_perform hmono
    | some now => exact only_ret _
  · dsimp only
    split
    · exact only_ret _
    · exact (only_perform (hset _)).bind fun _ => (only_reads h.select).bind fun accounts =>
        h.recomputeAccounts happend config accounts 0

omit [PyFloat F] in
theorem builds_offLedger : Builds (OffLedger (F := F)) :=
  ⟨rfl, rfl, rfl, fun _ _ _ => rfl, fun _ => rfl⟩

theorem only_maybeRecompute (now : Option F) : (maybeRecompute config now).Only OffLedger :=
  builds_offLedger.maybeRecompute (fun _ _ _ _ => rfl) rfl rfl (fun _ => rfl) now

end Only

/-! ## Rules for a pass -/

section Pass

variable (loads : String → Except PyError (Json F)) (config : Config F)

/-- What an entry amounts to: the event to apply, if any. -/
def entryEvent (fields : Fields) : Except PyError (Option (RiskStore.LedgerEvent F)) := do
  match ← parseEvent loads fields with
  | .null => return none
  | env => ledgerEvent env

/-- Apply an event and publish what comes of it. -/
def applyAndPublish (event : RiskStore.LedgerEvent F) : RiskM F Bool := do
  let newlyApplied ← Prog.perform (RiskCall.applyLedgerEvent event)
  if !newlyApplied then return false
  let riskEnv ← buildRiskEnvelope config event.account_id event.correlation_id
  publish riskEnv
  return true

/-- What comes of an entry. -/
def applyEntry : Option (RiskStore.LedgerEvent F) → RiskM F Bool
  | none => .ret false
  | some event => applyAndPublish config event

theorem handleLedger_eq (fields : Fields) : handleLedger loads config fields =
    (Prog.ofExcept (entryEvent loads fields) >>= applyEntry config) := by
  unfold handleLedger entryEvent
  cases hp : parseEvent loads fields with
  | error e => rfl
  | ok env =>
    have hproc : ∀ env : Json F, (processLedgerEnvelope config env >>= fun r : Option (RiskEnvelope F) =>
        r.elim (pure false) fun riskEnv => publish riskEnv >>= fun _ => (pure true : RiskM F Bool)) =
          (Prog.ofExcept (ledgerEvent env) >>= applyEntry config) := by
      intro env
      unfold processLedgerEnvelope
      cases ledgerEvent env with
      | error e => rfl
      | ok event =>
        cases event with
        | none => rfl
        | some event =>
          simp only [Prog.ofExcept, Prog.ret_bind, applyEntry, applyAndPublish, Prog.bind_assoc]
          congr 1
          funext newlyApplied
          cases newlyApplied with
          | false => rfl
          | true => exact Prog.map_bind ..
    cases env with
    | null => rfl
    | _ =>
      show (processLedgerEnvelope config _ >>= _) = _
      refine Eq.trans (congrArg (processLedgerEnvelope config _ >>= ·) (funext fun r => ?_)) (hproc _)
      cases r <;> rfl

variable {loads config}

/-- Where a pass stands: outside of one, before the first of some entries, and
before the acknowledgement of one. -/
structure LedgerPoints (F : Type) where
  rest : ConsumerGroup Fields → List (AppliedEvent F) → Prop
  todo : List (Nat × Fields) → ConsumerGroup Fields → List (AppliedEvent F) → Prop
  done : Nat → List (Nat × Fields) → ConsumerGroup Fields → List (AppliedEvent F) → Prop

/-- An assertion about the group and the event log, of a world. -/
def onLedger (A : ConsumerGroup Fields → List (AppliedEvent F) → Prop) (w : RiskWorld F) : Prop :=
  A w.ledger w.store.applied_events

variable (loads config)

/-- What an argument about passes has to show of its assertions. -/
structure LedgerRules (G : WorkerGuard F) (A : LedgerPoints F) : Prop where
  rest_stable : Stable (worker loads config) G (onLedger A.rest)
  todo_stable : ∀ rs, Stable (worker loads config) G (onLedger (A.todo rs))
  done_stable : ∀ id rs, Stable (worker loads config) G (onLedger (A.done id rs))
  todo_rest : ∀ rs g es, A.todo rs g es → A.rest g es
  done_rest : ∀ id rs g es, A.done id rs g es → A.rest g es
  read : ∀ w n o, onLedger A.rest w → G.call (.xreadgroup .ledger n) o w →
    A.todo (w.ledger.unread n.toNat) (w.ledger.readgroup n.toNat) w.store.applied_events
  claim : ∀ w m n o, onLedger A.rest w → G.call (.xautoclaim m n) o w →
    A.todo (w.ledger.claimable m.toNat n.toNat) (w.ledger.autoclaim m.toNat n.toNat)
      w.store.applied_events
  skip : ∀ id fields rs g es, A.todo ((id, fields) :: rs) g es →
    entryEvent loads fields = .ok none → A.done id rs g es
  ignore : ∀ id fields rs g es event, A.todo ((id, fields) :: rs) g es →
    entryEvent loads fields = .ok (some event) → event.row = .ok none → A.done id rs g es
  apply : ∀ id fields rs g es event row, A.todo ((id, fields) :: rs) g es →
    entryEvent loads fields = .ok (some event) → event.row = .ok (some row) →
    A.done id rs g (RiskStore.insertOrIgnore es row).2
  ack : ∀ id rs g es, A.done id rs g es → A.todo rs (g.ack id) es

variable {loads config} {G : WorkerGuard F} {A : LedgerPoints F} {β : Type}

/-- `Safe` for the worker: `A.rest` wherever it is cut off and when it ends. -/
abbrev WorkerSafe (loads : String → Except PyError (Json F)) (config : Config F)
    (G : WorkerGuard F) (A : LedgerPoints F) (p : RiskM F β) (w : RiskWorld F) : Prop :=
  Safe (worker loads config) G (onLedger A.rest) (fun _ => onLedger A.rest) p w

namespace LedgerRules

/-- A program that keeps away from the group and the event log. -/
theorem quiet {B : ConsumerGroup Fields → List (AppliedEvent F) → Prop}
    (hst : Stable (worker loads config) G (onLedger B))
    (hB : ∀ w, onLedger B w → onLedger A.rest w) {Q : Except PyError β → RiskWorld F → Prop}
    (hQ : ∀ r w, onLedger B w → Q r w) {p : RiskM F β}
    (hp : p.Only OffLedger) {w : RiskWorld F} (h : onLedger B w) :
    Safe (worker loads config) G (onLedger A.rest) Q p w := by
  refine Safe.only hst hB (fun i o w r w' hi hw _ hx => ?_) hQ hp h
  obtain ⟨hl, he⟩ := exec_frame hi hx
  rw [onLedger, hl, he]
  exact hw

theorem raise (R : LedgerRules loads config G A) {e : PyError} {w : RiskWorld F}
    (h : onLedger A.rest w) : WorkerSafe (β := β) loads config G A (.raise e) w :=
  Safe.raise R.rest_stable (fun _ h => h) (fun _ h => h) h

theorem ret (R : LedgerRules loads config G A) {b : β} {w : RiskWorld F}
    (h : onLedger A.rest w) : WorkerSafe loads config G A (.ret b) w :=
  Safe.ret R.rest_stable (fun _ h => h) (fun _ h => h) h

/-- One entry: it ends before the acknowledgement, or raises. -/
theorem handleLedger (R : LedgerRules loads config G A) {id : Nat} {fields : Fields}
    {rs : List (Nat × Fields)} {w : RiskWorld F} (h : onLedger (A.todo ((id, fields) :: rs)) w) :
    Safe (worker loads config) G (onLedger A.rest)
      (fun r w => match r with
        | .ok _ => onLedger (A.done id rs) w
        | .error _ => onLedger A.rest w) (handleLedger loads config fields) w := by
  have hdone : ∀ w, onLedger (A.done id rs) w → onLedger A.rest w :=
    fun _ h => R.done_rest id rs _ _ h
  have htodo : ∀ w, onLedger (A.todo ((id, fields) :: rs)) w → onLedger A.rest w :=
    fun _ h => R.todo_rest _ _ _ h
  rw [handleLedger_eq]
  cases hev : entryEvent loads fields with
  | error e => exact Safe.raise (R.todo_stable _) htodo htodo h
  | ok event =>
    cases event with
    | none =>
      exact Safe.ret (R.todo_stable _) htodo (fun w h => R.skip id fields rs _ _ h hev) h
    | some event =>
      refine Safe.perform (R.todo_stable _) htodo ?_ ?_ h
      · intro w o newlyApplied w' hw _ hx
        have hdone' : onLedger (A.done id rs) w' := by
          obtain ⟨r, store, hy, hr, rfl⟩ | ⟨_, _, hr, _⟩ := stored_some hx
          · obtain ⟨row, hrow, hy⟩ := except_bind_ok.mp hy
            cases row with
            | none =>
              cases hy
              exact R.ignore id fields rs _ _ event hw hev hrow
            | some row =>
              cases hy
              exact R.apply id fields rs _ _ event row hw hev hrow
          · cases hr
        cases newlyApplied with
        | false => exact Safe.ret (R.done_stable id rs) hdone (fun _ h => h) hdone'
        | true =>
          refine quiet (R.done_stable id rs) hdone (fun r w h => ?_) ?_ hdone'
          · cases r with
            | ok _ => exact h
            | error _ => exact hdone w h
          · exact (only_buildRiskEnvelope (P := OffLedger) rfl rfl rfl fun _ _ => rfl).bind
              fun env => (only_perform (P := OffLedger) (i := .xadd _) rfl).bind fun _ => only_ret _
      · intro w o e w' hw _ hx
        obtain ⟨_, _, _, hr, _⟩ | ⟨_, _, _, rfl⟩ := stored_some hx
        · cases hr
        · exact Safe.raise (R.todo_stable _) htodo htodo hw

/-- The acknowledgement of an entry leads on to the next. -/
theorem xack (R : LedgerRules loads config G A) {id : Nat} {rs : List (Nat × Fields)}
    {f : Unit → RiskM F β}
    (hf : ∀ w, onLedger (A.todo rs) w → WorkerSafe loads config G A (f ()) w) {w : RiskWorld F}
    (h : onLedger (A.done id rs) w) :
    WorkerSafe loads config G A (Prog.perform (RiskCall.xack .ledger id) >>= f) w := by
  refine Safe.perform (R.done_stable id rs) (fun _ h => R.done_rest id rs _ _ h) ?_ ?_ h
  · intro w o r w' hw _ hx
    obtain ⟨-, rfl⟩ | ⟨⟨_, hr⟩, -⟩ := redis_some hx
    · exact hf _ (R.ack id rs _ _ hw)
    · cases hr
  · intro w o e w' hw _ hx
    obtain ⟨hr, -⟩ | ⟨-, rfl | rfl⟩ := redis_some hx
    · cases hr
    · exact R.raise (R.done_rest id rs _ _ hw)
    · exact R.raise (R.todo_rest rs _ _ (R.ack id rs _ _ hw))

/-- One entry and its acknowledgement. -/
theorem entry (R : LedgerRules loads config G A) {id : Nat} {fields : Fields}
    {rs : List (Nat × Fields)} {f : Bool → RiskM F β}
    (hf : ∀ sent w, onLedger (A.todo rs) w → WorkerSafe loads config G A (f sent) w)
    {w : RiskWorld F} (h : onLedger (A.todo ((id, fields) :: rs)) w) :
    WorkerSafe loads config G A (do
      let sent ← Risk.handleLedger loads config fields
      Prog.perform (RiskCall.xack .ledger id)
      f sent) w := by
  refine Safe.bind ((R.handleLedger h).mono fun r w hw => ?_)
  cases r with
  | ok sent => exact R.xack (fun w hw => hf sent w hw) hw
  | error e => exact hw

theorem reclaimEntries (R : LedgerRules loads config G A) (rs : List (Nat × Fields)) :
    ∀ (n : Int) (w : RiskWorld F), onLedger (A.todo rs) w →
      WorkerSafe loads config G A (reclaimEntries loads config rs n) w := by
  induction rs with
  | nil => exact fun n w h => R.ret (R.todo_rest _ _ _ h)
  | cons x rs ih => exact fun n w h => R.entry (fun _ w hw => ih _ w hw) h

theorem drainEntries (R : LedgerRules loads config G A) (rs : List (Nat × Fields)) :
    ∀ (n : Int) (w : RiskWorld F), onLedger (A.todo rs) w →
      WorkerSafe loads config G A (drainEntries loads config rs n) w := by
  induction rs with
  | nil => exact fun n w h => R.ret (R.todo_rest _ _ _ h)
  | cons x rs ih => exact fun n w h => R.entry (fun _ w hw => ih _ w hw) h

theorem reclaimLedger (R : LedgerRules loads config G A) {w : RiskWorld F}
    (h : onLedger A.rest w) : WorkerSafe loads config G A (reclaimLedger loads config) w := by
  refine Safe.perform R.rest_stable (fun _ h => h) ?_ ?_ h
  · intro w o r w' hw hg hx
    simp only [worker, riskExec] at hx
    split at hx
    · obtain ⟨hr, rfl⟩ | ⟨⟨_, hr⟩, -⟩ := redis_some hx
      · cases hr
        exact R.reclaimEntries _ 0 _ (R.claim w _ _ o hw hg)
      · cases hr
    · cases hx
  · intro w o e w' hw hg hx
    simp only [worker, riskExec] at hx
    split at hx
    · obtain ⟨hr, -⟩ | ⟨-, rfl | rfl⟩ := redis_some hx
      · cases hr
      · exact R.raise hw
      · exact R.raise (R.todo_rest _ _ _ (R.claim w _ _ o hw hg))
    · cases hx
      exact R.raise hw

theorem drainLedger (R : LedgerRules loads config G A) {w : RiskWorld F}
    (h : onLedger A.rest w) : WorkerSafe loads config G A (drainLedger loads config) w := by
  refine Safe.perform R.rest_stable (fun _ h => h) ?_ ?_ h
  · intro w o r w' hw hg hx
    simp only [worker, riskExec] at hx
    split at hx
    · obtain ⟨hr, rfl⟩ | ⟨⟨_, hr⟩, -⟩ := redis_some hx
      · cases hr
        exact R.drainEntries _ 0 _ (R.read w _ o hw hg)
      · cases hr
    · cases hx
  · intro w o e w' hw hg hx
    simp only [worker, riskExec] at hx
    split at hx
    · obtain ⟨hr, -⟩ | ⟨-, rfl | rfl⟩ := redis_some hx
      · cases hr
      · exact R.raise hw
      · exact R.raise (R.todo_rest _ _ _ (R.read w _ o hw hg))
    · cases hx
      exact R.raise hw

theorem cycle (R : LedgerRules loads config G A) {w : RiskWorld F} (h : onLedger A.rest w) :
    WorkerSafe loads config G A (cycle loads config) w := by
  refine Safe.bind ((R.reclaimLedger h).mono fun r w hw => ?_)
  cases r with
  | error e => exact hw
  | ok n =>
    have honly : (refreshPrices loads config).Only OffLedger :=
      only_refreshPrices (fun _ => rfl) (fun _ => rfl) (fun _ _ => rfl) fun _ _ _ _ => rfl
    have hquiet := quiet (A := A) (Q := fun _ => onLedger A.rest) R.rest_stable (fun _ h => h)
      (fun _ _ h => h) honly hw
    refine Safe.bind (hquiet.mono fun r w hw => ?_)
    cases r with
    | error e => exact hw
    | ok n => exact R.drainLedger hw

theorem maybeRecompute (R : LedgerRules loads config G A) (now : Option F) {w : RiskWorld F}
    (h : onLedger A.rest w) : WorkerSafe loads config G A (maybeRecompute config now) w :=
  quiet R.rest_stable (fun _ h => h) (fun _ _ h => h) (only_maybeRecompute now) h

/-- **The worker keeps the assertions about its passes.** -/
theorem proof (R : LedgerRules loads config G A) :
    Proof (worker loads config) G (onLedger A.rest) (onLedger A.rest)
      (fun _ => onLedger A.rest) where
  enter c w h _ := by
    cases c with
    | cycle => exact R.cycle h
    | maybeRecompute now => exact R.maybeRecompute now h
  leave _ _ h := h
  crash _ h _ := h
  idle_crash _ h _ := h
  idle_env := R.rest_stable

end LedgerRules

end Pass

end TradePulse.Risk
