import TradePulse.Risk.Portfolio
import TradePulse.Risk.Windows
import Mathlib.Tactic.Linarith

/-! # The recompute throttle

Ticks, ledger events and throttle calls share one store, and the throttle its
own clock. In exact arithmetic a throttle call fires when it is the first or
when an interval has passed; each firing publishes one envelope and takes one
sample for each account that has traded, and nothing else takes samples. But
where SQLite refuses the limit of a window, a firing raises at its first
account. -/
namespace TradePulse.Risk
open TradePulse.Core TradePulse.Core.Process
open TradePulse.Core.Prog (only_perform only_ofExcept only_ret)

/-! ## The property -/

/-- The calls that share the store. -/
inductive EngineCall (F : Type) where
  | tick (envelope : Json F)
  | ledger (envelope : Json F)
  | recompute (now : F)

namespace EngineCall

def now? {F : Type} : EngineCall F → Option F
  | .recompute now => some now
  | _ => none

def code {F : Type} [PyFloat F] (config : Config F) : EngineCall F → RiskM F Unit
  | .tick envelope => (fun _ => ()) <$> processTickEnvelope config envelope
  | .ledger envelope => (fun _ => ()) <$> processLedgerEnvelope config envelope
  | .recompute now => (fun _ => ()) <$> maybeRecompute config (some now)

end EngineCall

def RiskCall.setsLast {F : Type} : RiskCall F → Bool
  | .setLastRecompute _ => true
  | _ => false

/-- A firing: when it was, and on which store. -/
structure Firing where
  now : ℚ
  store : RiskStore ℚ

section Property

variable (config : Config ℚ) (supply : Supply ℚ)

/-- The world after one call; an exception ends the call only. Nothing is said
of what follows a refused limit, which leaves the connection an uncommitted row. -/
def serve (w : RiskWorld ℚ × Nat) (c : EngineCall ℚ) : RiskWorld ℚ × Nat :=
  (calmly supply (c.code config) w).2

/-- The world after some calls. -/
def play (cs : List (EngineCall ℚ)) (w : RiskWorld ℚ × Nat) : RiskWorld ℚ × Nat :=
  cs.foldl (serve config supply) w

/-- A throttle call fires: it sets `_last_recompute`. -/
def fires (w : RiskWorld ℚ × Nat) (now : ℚ) : Bool :=
  ((maybeRecompute config (some now)).calls (calm supply).answer w).any RiskCall.setsLast

def firing (w : RiskWorld ℚ × Nat) : EngineCall ℚ → List Firing
  | .recompute now => if fires config supply w now then [⟨now, w.1.store⟩] else []
  | _ => []

/-- The firings of a run. -/
def firings : List (EngineCall ℚ) → RiskWorld ℚ × Nat → List Firing
  | [], _ => []
  | c :: cs, w => firing config supply w c ++ firings cs (serve config supply w c)

/-- The interval has passed since `last`. -/
def Elapsed (last now : ℚ) : Prop := (config.recompute_interval_ms : ℚ) ≤ (now - last) * 1000

/-- What each firing samples of an account, from its first event on. -/
def samples (a : String) (fs : List Firing) : List ℚ :=
  (fs.filter fun f => HasEvents f.store a).map fun f => portfolioValue f.store a config.seed_cash

/-- The throttle call at `now` from `w` publishes one envelope for each account
with an event, if it fires, and nothing otherwise. -/
structure PublishesAtFirings (w : RiskWorld ℚ × Nat) (now : ℚ) : Prop where
  fired : fires config supply w now = true →
    ∃ (accounts : List String) (envs : List (RiskEnvelope ℚ)),
      accounts.Nodup ∧ (∀ a, a ∈ accounts ↔ HasEvents w.1.store a) ∧
      envs.map (·.data.account_id) = accounts.map .str ∧
      (serve config supply w (.recompute now)).1.risk = w.1.risk ++ envs.map streamFields
  quiet : fires config supply w now = false →
    (serve config supply w (.recompute now)).1.risk = w.1.risk

/-- The throttle over the run `cs` from `w`. -/
structure Throttled (cs : List (EngineCall ℚ)) (w : RiskWorld ℚ × Nat) : Prop where
  fires_iff : ∀ before now later, cs = before ++ .recompute now :: later →
    (fires config supply (play config supply before w) now = true ↔
      (∀ c ∈ before, c.now? = none) ∨
      ∃ f, (firings config supply before w).getLast? = some f ∧ Elapsed config f.now now)
  apart : (firings config supply cs w).Pairwise fun f g => Elapsed config f.now g.now
  publishes : ∀ before now later, cs = before ++ .recompute now :: later →
    PublishesAtFirings config supply (play config supply before w) now
  window : ∀ a, (play config supply cs w).1.store.pvWindow (.str a) =
    .ok (RiskStore.lastN (RiskStore.kept config.window_size)
      (samples config a (firings config supply cs w)))
  untouched : ∀ before c later, cs = before ++ c :: later → c.now? = none →
    (serve config supply (play config supply before w) c).1.store.pv_history =
      (play config supply before w).1.store.pv_history

end Property

/-! ## What the other calls leave alone -/

section Frame

variable {F : Type} [PyFloat F]

/-- The calls that sample, publish or set the throttle's clock. -/
def RiskCall.onThrottle : RiskCall F → Bool
  | .appendPv _ _ _ _ | .xadd _ | .setLastRecompute _ => true
  | _ => false

/-- A call that does neither. -/
def OffThrottle (i : RiskCall F) : Prop := i.onThrottle = false

/-- The samples, the published envelopes and the throttle's clock. -/
structure SameThrottle (w w' : RiskWorld F) : Prop where
  pv_history : w'.store.pv_history = w.store.pv_history
  risk : w'.risk = w.risk
  last : w'.last = w.last

theorem throttle_frame {i : RiskCall F} (hi : OffThrottle i) {o : RiskChoice F}
    {w w' : RiskWorld F} {r : Except PyError i.Result} (h : riskExec i o w = some (r, w')) :
    SameThrottle w w' := by
  rcases exec_effect h with rfl | rfl
  · exact ⟨rfl, rfl, rfl⟩
  cases i with
  | xreadgroup s n => cases s <;> exact ⟨rfl, rfl, rfl⟩
  | xack s id => cases s <;> exact ⟨rfl, rfl, rfl⟩
  | xadd fields => cases hi
  | appendPv a v n t => cases hi
  | setLastRecompute t => cases hi
  | upsertPrice y p =>
    exact ⟨wrote_frame _ fun _ _ h => by rw [RiskStore.upsertPrice_only h], risk_wrote ..,
      last_wrote ..⟩
  | appendPrice y p n t =>
    exact ⟨wrote_frame _ fun _ _ h => by rw [RiskStore.appendPrice_only h], risk_wrote ..,
      last_wrote ..⟩
  | applyLedgerEvent e =>
    exact ⟨wrote_frame _ fun _ _ h => by rw [RiskStore.applyLedgerEvent_only h], risk_wrote ..,
      last_wrote ..⟩
  | saveRiskSnapshot a m t =>
    exact ⟨wrote_frame _ fun _ _ h => by rw [RiskStore.saveRiskSnapshot_only h], risk_wrote ..,
      last_wrote ..⟩
  | _ => exact ⟨rfl, rfl, rfl⟩

end Frame

section Serve

variable {config : Config ℚ} {supply : Supply ℚ} {w : RiskWorld ℚ × Nat}

theorem SameThrottle.trans {F : Type} {w w' w'' : RiskWorld F} (h : SameThrottle w w')
    (h' : SameThrottle w' w'') : SameThrottle w w'' where
  pv_history := h'.pv_history.trans h.pv_history
  risk := h'.risk.trans h.risk
  last := h'.last.trans h.last

/-- Ticks and ledger events neither sample nor publish. -/
theorem serve_other {c : EngineCall ℚ} (hc : c.now? = none) :
    SameThrottle w.1 (serve config supply w c).1 := by
  have frame : ∀ {α : Type} {p : RiskM ℚ α}, p.Only OffThrottle →
      SameThrottle w.1 (calmly supply p w).2.1 := fun hp =>
    calmly_only (A := SameThrottle w.1)
      (fun i o w' r w'' hi h hx => h.trans (throttle_frame hi hx)) hp ⟨rfl, rfl, rfl⟩
  cases c with
  | tick env =>
    exact frame (only_processTickEnvelope (P := OffThrottle) (fun _ _ => rfl) fun _ _ _ _ => rfl).map
  | ledger env =>
    exact frame (only_processLedgerEnvelope (P := OffThrottle) (fun _ => rfl) rfl rfl rfl
      fun _ _ _ => rfl).map
  | recompute now => cases hc

/-! ## When a call fires -/

/-- The first call, or an interval after the last firing. -/
def Due (config : Config ℚ) (last : Option ℚ) (now : ℚ) : Prop :=
  ∀ t, last = some t → Elapsed config t now

theorem early_iff (last : Option ℚ) (now : ℚ) :
    (last.any fun last => PyFloat.ltInt ((now - last) * PyFloat.thousand)
      config.recompute_interval_ms) = true ↔ ¬ Due config last now := by
  cases last with
  | none => simp [Due]
  | some t => simp [Due, Elapsed, PyFloat.ltInt, PyFloat.thousand]

/-- What a throttle call does once it knows the last firing. -/
def recomputeSince (config : Config ℚ) (now : ℚ) (last : Option ℚ) : RiskM ℚ Int :=
  if (last.any fun last => PyFloat.ltInt ((now - last) * PyFloat.thousand)
      config.recompute_interval_ms) = true
  then .ret 0
  else do
    Prog.perform (RiskCall.setLastRecompute now)
    let accounts ← reads fun store => .ok store.accounts
    recomputeAccounts config accounts 0

theorem maybeRecompute_eq (now : ℚ) : maybeRecompute config (some now) =
    (Prog.perform RiskCall.lastRecompute >>= recomputeSince config now) := rfl

theorem fires_iff_due (now : ℚ) :
    fires config supply w now = true ↔ Due config w.1.last now := by
  have hcalls : (maybeRecompute config (some now)).calls (calm supply).answer w =
      .lastRecompute ::
        (recomputeSince config now w.1.last).calls (calm supply).answer (w.1, w.2 + 1) := rfl
  rw [fires, hcalls, recomputeSince]
  split
  · rename_i h
    simp [Prog.calls, RiskCall.setsLast, (early_iff _ _).mp h]
  · rename_i h
    rw [early_iff, not_not] at h
    simp [Prog.perform_bind, Prog.calls, RiskCall.setsLast, h]

theorem serve_recompute (now : ℚ) : serve config supply w (.recompute now) =
    (calmly supply (recomputeSince config now w.1.last) (w.1, w.2 + 1)).2 := by
  have hlast : calmly supply (Prog.perform RiskCall.lastRecompute) w =
      (.ok w.1.last, w.1, w.2 + 1) := calmly_perform rfl
  rw [serve, EngineCall.code, calmly, Prog.eval_map_world, maybeRecompute_eq,
    Prog.eval_bind_ok hlast]

/-- A call before the interval has passed does nothing. -/
theorem serve_early {now : ℚ} (h : ¬ Due config w.1.last now) :
    serve config supply w (.recompute now) = (w.1, w.2 + 1) := by
  rw [serve_recompute, recomputeSince, if_pos ((early_iff _ _).mpr h)]
  rfl

/-! ## A firing -/

/-- The samples that a store holds of an account. -/
def windowOf (s : RiskStore ℚ) (a : String) : List ℚ :=
  (s.pv_history.filter fun row => row.account_id = a).map (·.pv)

theorem pvWindow_eq (s : RiskStore ℚ) (a : String) :
    s.pvWindow (.str a) = .ok (windowOf s a) := by
  simp only [RiskStore.pvWindow, Json.bindText, bind, Except.bind, pure, Except.pure, windowOf,
    Option.some.injEq]

/-- `pv_history` with one more sample. -/
def pushed (config : Config ℚ) (s : RiskStore ℚ) (a : String) : List (PvSample ℚ) :=
  RiskStore.evict (·.account_id = a) (RiskStore.kept config.window_size)
    (s.pv_history ++ [⟨a, portfolioValue s a config.seed_cash, none⟩])

theorem window_pushed (s : RiskStore ℚ) (a b : String) :
    windowOf { s with pv_history := pushed config s a } b =
      if b = a then RiskStore.lastN (RiskStore.kept config.window_size)
        (windowOf s a ++ [portfolioValue s a config.seed_cash])
      else windowOf s b := by
  split
  · rename_i h
    subst h
    simp only [windowOf, pushed, RiskStore.evict_filter, RiskStore.lastN_map, List.filter_append,
      List.map_append]
    simp
  · rename_i h
    simp only [windowOf, pushed]
    rw [RiskStore.evict_filter_other (by simpa using fun _ h' hb => h (h'.symm.trans hb))]
    simp [Ne.symm h]

/-- What a firing does about these accounts. -/
structure Sampled (config : Config ℚ) (accounts : List String) (w w' : RiskWorld ℚ) : Prop where
  applied : w'.store.applied_events = w.store.applied_events
  cache : w'.store.price_cache = w.store.price_cache
  last : w'.last = w.last
  published : ∃ envs : List (RiskEnvelope ℚ), envs.map (·.data.account_id) = accounts.map .str ∧
    w'.risk = w.risk ++ envs.map streamFields
  window : ∀ a, windowOf w'.store a =
    if a ∈ accounts then RiskStore.lastN (RiskStore.kept config.window_size)
      (windowOf w.store a ++ [portfolioValue w.store a config.seed_cash])
    else windowOf w.store a

theorem portfolioValue_congr {s s' : RiskStore ℚ} (happlied : s'.applied_events = s.applied_events)
    (hcache : s'.price_cache = s.price_cache) (a : String) (seedCash : ℚ) :
    portfolioValue s' a seedCash = portfolioValue s a seedCash := by
  simp only [portfolioValue, symbolsOf, rowsFor, positionOf, markOf, lastRow, RiskStore.getPrice,
    happlied, hcache]

theorem pvRow_str (a : String) (v : ℚ) :
    RiskStore.pvRow (.str a : Json ℚ) v .null = .ok ⟨a, v, none⟩ := rfl

/-- An account with events is valued, and its value goes to the window. -/
theorem calmly_recomputeAccount_eq {w : RiskWorld ℚ} (n : Nat) {a : String}
    (h : HasEvents w.store a) : calmly supply (recomputeAccount config (.str a) .null) (w, n) =
      calmly supply (Prog.perform (RiskCall.appendPv (.str a)
          (portfolioValue w.store a config.seed_cash) config.window_size .null) >>= fun _ =>
        some <$> buildRiskEnvelope config (.str a) .null) (w, n + 1 + 1) := by
  obtain ⟨positions, hpos, hne⟩ := resolvedPositions_ne_nil w.store a h
  obtain ⟨cash, positions', hcash, hpos', hvalue⟩ :=
    portfolioValue_eq w.store a config.seed_cash
  obtain rfl : positions' = positions := Except.ok.inj (hpos'.symm.trans hpos)
  rw [calmly, recomputeAccount, Prog.eval_bind_ok ((calmly_reads _).trans (by rw [hpos])),
    if_neg (by simpa using hne), Prog.eval_bind_ok ((calmly_reads _).trans (by rw [hcash])),
    hvalue]

theorem calmly_recomputeAccount (hw : config.window_size < 2 ^ 63 - 1) {w : RiskWorld ℚ} (n : Nat)
    {a : String} (h : HasEvents w.store a) : ∃ env snapshots n',
      calmly supply (recomputeAccount config (.str a) .null) (w, n) = (.ok (some env),
        { w with
          store := { w.store with
            pv_history := pushed config w.store a
            risk_snapshots := snapshots }
          unpublished := true }, n') ∧
      env.data.account_id = .str a := by
  have happend : RiskStore.committed (w.store.appendPv (.str a)
      (portfolioValue w.store a config.seed_cash) config.window_size .null) =
        .ok ((), { w.store with pv_history := pushed config w.store a }) :=
    w.store.appendPv_ok (pvRow_str a _) hw
  obtain ⟨env, snapshots, n', hbuild, hof⟩ := calmly_build supply (n := n + 1 + 1 + 1)
    (c := .null) (valued_exact config { w.store with pv_history := pushed config w.store a }
      (a := .str a) rfl) (w := { w with
        store := { w.store with pv_history := pushed config w.store a } })
  refine ⟨env, snapshots, n', ?_, hof.account_id⟩
  rw [calmly_recomputeAccount_eq n h, calmly,
    Prog.eval_bind_ok (calmly_perform (i := .appendPv _ _ _ _) (stored_ok happend))]
  exact Prog.eval_map_ok hbuild

/-- Where the limit is refused, nothing is sampled. -/
theorem calmly_recomputeAccount_error (hlarge : ¬ config.window_size < 2 ^ 63 - 1)
    {w : RiskWorld ℚ} (n : Nat) {a : String} (h : HasEvents w.store a) :
    calmly supply (recomputeAccount config (.str a) .null) (w, n) =
      (.error .OverflowError, w, n + 1 + 1 + 1) := by
  have happend : RiskStore.committed (w.store.appendPv (.str a)
      (portfolioValue w.store a config.seed_cash) config.window_size .null) =
        .error .OverflowError := w.store.appendPv_error (pvRow_str a _) hlarge
  rw [calmly_recomputeAccount_eq n h]
  exact Prog.eval_bind_error (calmly_perform (i := .appendPv ..) (stored_error happend))

theorem calmly_publish {w : RiskWorld ℚ} {n : Nat} (env : RiskEnvelope ℚ) :
    calmly supply (publish env) (w, n) = (.ok (), w.publish (streamFields env), n + 1) :=
  calmly_perform (i := .xadd _) rfl

/-- One account: its sample is taken and its envelope published. -/
theorem account_samples (hw : config.window_size < 2 ^ 63 - 1) {a : String} {w : RiskWorld ℚ}
    (n : Nat) (h : HasEvents w.store a) :
    ∃ w' n', Sampled config [a] w w' ∧ ∀ rest k,
      calmly supply (recomputeAccounts config (a :: rest) k) (w, n) =
        calmly supply (recomputeAccounts config rest (k + 1)) (w', n') := by
  obtain ⟨env, snapshots, n', heval, hid⟩ := calmly_recomputeAccount hw n h
  refine ⟨_, n' + 1, ?_, fun rest k => (Prog.eval_bind_ok heval).trans
    (Prog.eval_bind_ok (calmly_publish env))⟩
  refine ⟨rfl, rfl, rfl, ⟨[env], by simp [hid], rfl⟩, fun b => ?_⟩
  refine (window_pushed w.store a b).trans ?_
  by_cases hb : b = a
  · subst hb
    simp
  · simp [hb]

theorem Sampled.cons {a : String} {rest : List String} {w w' w'' : RiskWorld ℚ} (ha : a ∉ rest)
    (h : Sampled config [a] w w') (h' : Sampled config rest w' w'') :
    Sampled config (a :: rest) w w'' := by
  obtain ⟨envs, hids, hrisk⟩ := h.published
  obtain ⟨envs', hids', hrisk'⟩ := h'.published
  refine ⟨h'.applied.trans h.applied, h'.cache.trans h.cache, h'.last.trans h.last,
    ⟨envs ++ envs', ?_, ?_⟩, fun b => ?_⟩
  · rw [List.map_append, hids, hids']
    rfl
  · rw [hrisk', hrisk, List.map_append, List.append_assoc]
  · rw [h'.window b, h.window b, portfolioValue_congr h.applied h.cache]
    by_cases hb : b = a
    · subst hb
      simp [ha]
    · simp [hb]

/-- One envelope and one sample for each account. -/
theorem recompute_samples (hw : config.window_size < 2 ^ 63 - 1) (accounts : List String) :
    ∀ (w : RiskWorld ℚ) (n : Nat) (k : Int), accounts.Nodup →
      (∀ a ∈ accounts, HasEvents w.store a) →
      Sampled config accounts w (calmly supply (recomputeAccounts config accounts k) (w, n)).2.1 := by
  induction accounts with
  | nil =>
    exact fun w n k _ _ => ⟨rfl, rfl, rfl, ⟨[], rfl, (List.append_nil _).symm⟩,
      fun b => (if_neg List.not_mem_nil).symm⟩
  | cons a rest ih =>
    intro w n k hnodup hall
    obtain ⟨ha, hnodup⟩ := List.nodup_cons.mp hnodup
    obtain ⟨w', n', hfirst, hnext⟩ := account_samples hw n (hall a (List.mem_cons_self ..))
    rw [hnext]
    refine hfirst.cons ha (ih w' n' (k + 1) hnodup fun b hb => ?_)
    obtain ⟨row, hrow, hacc⟩ := hall b (List.mem_cons_of_mem _ hb)
    exact ⟨row, hfirst.applied.symm ▸ hrow, hacc⟩

/-- `SELECT DISTINCT`. -/
theorem eraseDups_nodup (xs : List String) : xs.eraseDups.Nodup := by
  induction hn : xs.length using Nat.strong_induction_on generalizing xs with
  | _ n ih =>
    cases xs with
    | nil => exact List.nodup_nil
    | cons x xs =>
      rw [List.eraseDups_cons]
      refine List.nodup_cons.mpr ⟨by simp, ih _ ?_ _ rfl⟩
      subst hn
      exact Nat.lt_succ_of_le (List.length_filter_le ..)

theorem mem_accounts (s : RiskStore ℚ) (a : String) : a ∈ s.accounts ↔ HasEvents s a := by
  rw [RiskStore.accounts, List.mem_eraseDups, List.mem_map, HasEvents]

/-- A call that is due goes through the accounts. -/
theorem serve_due {now : ℚ} (h : Due config w.1.last now) :
    serve config supply w (.recompute now) =
      (calmly supply (recomputeAccounts config w.1.store.accounts 0)
        ({ w.1 with last := some now }, w.2 + 1 + 1 + 1)).2 := by
  have hset : calmly supply (Prog.perform (RiskCall.setLastRecompute now)) (w.1, w.2 + 1) =
      (.ok (), { w.1 with last := some now }, w.2 + 1 + 1) :=
    calmly_perform (i := .setLastRecompute now) rfl
  rw [serve_recompute, recomputeSince, if_neg (by rw [early_iff, not_not]; exact h), calmly,
    Prog.eval_bind_ok hset, Prog.eval_bind_ok (calmly_reads fun store => .ok store.accounts)]

variable (supply) in
/-- A call that fires. -/
theorem serve_fired (hw : config.window_size < 2 ^ 63 - 1) {now : ℚ}
    (h : Due config w.1.last now) :
    Sampled config w.1.store.accounts { w.1 with last := some now }
      (serve config supply w (.recompute now)).1 := by
  rw [serve_due h]
  exact recompute_samples hw _ _ _ _ (eraseDups_nodup _) fun a ha => (mem_accounts _ a).mp ha

variable (supply) in
/-- Where the limit is refused, nothing is published of the accounts there are. -/
theorem serve_refused (hlarge : ¬ config.window_size < 2 ^ 63 - 1) {now : ℚ}
    (h : Due config w.1.last now) {a : String} (ha : HasEvents w.1.store a) :
    (serve config supply w (.recompute now)).1.risk = w.1.risk := by
  rw [serve_due h]
  have hall : ∀ a ∈ w.1.store.accounts, HasEvents w.1.store a := fun a => (mem_accounts _ a).mp
  cases haccounts : w.1.store.accounts with
  | nil =>
    have hmem := (mem_accounts w.1.store a).mpr ha
    rw [haccounts] at hmem
    cases hmem
  | cons b rest =>
    have hb : HasEvents w.1.store b := hall b (haccounts ▸ List.mem_cons_self ..)
    have hraise : calmly supply (recomputeAccounts config (b :: rest) 0)
        ({ w.1 with last := some now }, w.2 + 1 + 1 + 1) =
          (.error .OverflowError, { w.1 with last := some now }, _) :=
      Prog.eval_bind_error (calmly_recomputeAccount_error hlarge _ hb)
    rw [hraise]

/-! ## Runs -/

section Run

variable {cs : List (EngineCall ℚ)}

theorem play_snoc (cs : List (EngineCall ℚ)) (c : EngineCall ℚ) (w : RiskWorld ℚ × Nat) :
    play config supply (cs ++ [c]) w = serve config supply (play config supply cs w) c := by
  rw [play, List.foldl_append]
  rfl

theorem firings_snoc (cs : List (EngineCall ℚ)) (c : EngineCall ℚ) (w : RiskWorld ℚ × Nat) :
    firings config supply (cs ++ [c]) w =
      firings config supply cs w ++ firing config supply (play config supply cs w) c := by
  induction cs generalizing w with
  | nil => exact List.append_nil _
  | cons d cs ih =>
    rw [List.cons_append, firings, ih, ← List.append_assoc]
    rfl

/-- What a run has come to: the clock of the throttle and every window. -/
structure Kept (config : Config ℚ) (supply : Supply ℚ) (w : RiskWorld ℚ × Nat)
    (cs : List (EngineCall ℚ)) : Prop where
  last : (play config supply cs w).1.last =
    (firings config supply cs w).getLast?.map (·.now)
  never : firings config supply cs w = [] ↔ ∀ c ∈ cs, c.now? = none
  window : ∀ a, windowOf (play config supply cs w).1.store a =
    RiskStore.lastN (RiskStore.kept config.window_size)
      (samples config a (firings config supply cs w))

theorem Kept.due_iff (h : Kept config supply w cs) (now : ℚ) :
    Due config (play config supply cs w).1.last now ↔ (∀ c ∈ cs, c.now? = none) ∨
      ∃ f, (firings config supply cs w).getLast? = some f ∧ Elapsed config f.now now := by
  rw [← h.never, h.last, Due]
  cases hlast : (firings config supply cs w).getLast? with
  | none => simp [List.getLast?_eq_none_iff.mp hlast]
  | some f =>
    have hne : firings config supply cs w ≠ [] := by
      intro hnil
      rw [hnil] at hlast
      cases hlast
    simp [hne]

theorem samples_snoc (a : String) (fs : List Firing) (f : Firing) :
    samples config a (fs ++ [f]) = samples config a fs ++
      if HasEvents f.store a then [portfolioValue f.store a config.seed_cash] else [] := by
  rw [samples, List.filter_append, List.map_append, samples]
  by_cases h : HasEvents f.store a <;> simp [h]

/-- A call that neither samples nor fires. -/
theorem Kept.snoc_quiet (h : Kept config supply w cs) {c : EngineCall ℚ}
    (hfiring : firing config supply (play config supply cs w) c = [])
    (hsame : SameThrottle (play config supply cs w).1
      (serve config supply (play config supply cs w) c).1)
    (hnever : c.now? = none ∨ ¬ ∀ c ∈ cs, c.now? = none) : Kept config supply w (cs ++ [c]) := by
  refine ⟨?_, ?_, fun a => ?_⟩
  · rw [play_snoc, firings_snoc, hfiring, List.append_nil, hsame.last, h.last]
  · rw [firings_snoc, hfiring, List.append_nil, h.never]
    simp only [List.forall_mem_append, List.forall_mem_singleton]
    tauto
  · rw [play_snoc, firings_snoc, hfiring, List.append_nil, windowOf, hsame.pv_history]
    exact h.window a

/-- A call that fires. -/
theorem Kept.snoc_fired (h : Kept config supply w cs) (hw : config.window_size < 2 ^ 63 - 1)
    {now : ℚ} (hdue : Due config (play config supply cs w).1.last now) :
    Kept config supply w (cs ++ [.recompute now]) := by
  have hfiring : firing config supply (play config supply cs w) (.recompute now) =
      [⟨now, (play config supply cs w).1.store⟩] := if_pos ((fires_iff_due now).mpr hdue)
  have hfired := serve_fired supply hw hdue
  refine ⟨?_, ?_, fun a => ?_⟩
  · rw [play_snoc, firings_snoc, hfiring, List.getLast?_append_of_ne_nil _ (by simp), hfired.last]
    rfl
  · rw [firings_snoc, hfiring]
    simp [EngineCall.now?]
  · rw [play_snoc, firings_snoc, hfiring, samples_snoc, hfired.window a]
    by_cases ha : HasEvents (play config supply cs w).1.store a
    · rw [if_pos ((mem_accounts _ a).mpr ha), if_pos ha, h.window a]
      exact RiskStore.lastN_lastN_snoc ..
    · rw [if_neg (mt (mem_accounts _ a).mp ha), if_neg ha, List.append_nil]
      exact h.window a

/-- One more call. -/
theorem Kept.snoc (h : Kept config supply w cs) (hw : config.window_size < 2 ^ 63 - 1)
    (c : EngineCall ℚ) : Kept config supply w (cs ++ [c]) := by
  cases c with
  | tick env => exact h.snoc_quiet rfl (serve_other rfl) (.inl rfl)
  | ledger env => exact h.snoc_quiet rfl (serve_other rfl) (.inl rfl)
  | recompute now =>
    by_cases hdue : Due config (play config supply cs w).1.last now
    · exact h.snoc_fired hw hdue
    · refine h.snoc_quiet (if_neg (mt (fires_iff_due now).mp hdue)) ?_
        (.inr fun hnone => hdue ((h.due_iff now).mpr (.inl hnone)))
      rw [serve_early hdue]
      exact ⟨rfl, rfl, rfl⟩

/-- In every run from an empty store and a throttle that has never fired. -/
theorem kept_run (hw : config.window_size < 2 ^ 63 - 1) (hstore : w.1.store = .empty)
    (hlast : w.1.last = none) (cs : List (EngineCall ℚ)) : Kept config supply w cs := by
  induction cs using List.reverseRecOn with
  | nil =>
    refine ⟨hlast, by simp [firings], fun a => ?_⟩
    simp [play, windowOf, hstore, RiskStore.empty, firings, samples, RiskStore.lastN]
  | append_singleton cs c ih => exact ih.snoc hw c

theorem firings_sublist (cs : List (EngineCall ℚ)) (w : RiskWorld ℚ × Nat) :
    ((firings config supply cs w).map (·.now)).Sublist (cs.filterMap EngineCall.now?) := by
  induction cs generalizing w with
  | nil => exact .refl _
  | cons c cs ih =>
    rw [firings, List.map_append]
    cases c with
    | tick env => exact ih _
    | ledger env => exact ih _
    | recompute now =>
      rw [List.filterMap_cons_some (rfl : (EngineCall.recompute now).now? = some now), firing]
      split
      · exact (ih _).cons_cons now
      · exact (ih _).cons now

theorem le_last {fs : List Firing} {f g : Firing} (h : (fs.map (·.now)).Pairwise (· ≤ ·))
    (hg : fs.getLast? = some g) (hf : f ∈ fs) : f.now ≤ g.now := by
  obtain ⟨before, rfl⟩ := List.getLast?_eq_some_iff.mp hg
  rw [List.map_append] at h
  rcases List.mem_append.mp hf with hf | hf
  · exact (List.pairwise_append.mp h).2.2 _ (List.mem_map_of_mem hf) _ (by simp)
  · rw [List.mem_singleton.mp hf]

/-- Firings are an interval apart, whatever lies between them. -/
theorem firings_apart (hw : config.window_size < 2 ^ 63 - 1) (hstore : w.1.store = .empty)
    (hlast : w.1.last = none) (cs : List (EngineCall ℚ))
    (hnow : (cs.filterMap EngineCall.now?).Pairwise (· ≤ ·)) :
    (firings config supply cs w).Pairwise fun f g => Elapsed config f.now g.now := by
  induction cs using List.reverseRecOn with
  | nil => exact List.Pairwise.nil
  | append_singleton cs c ih =>
    have hkept : Kept config supply w cs := kept_run hw hstore hlast cs
    have hsorted : ((firings config supply cs w).map (·.now)).Pairwise (· ≤ ·) :=
      (List.pairwise_append.mp (by rwa [List.filterMap_append] at hnow)).1.sublist
        (firings_sublist cs w)
    rw [firings_snoc]
    refine List.pairwise_append.mpr ⟨ih (hnow.sublist ?_), ?_, fun f hf g hg => ?_⟩
    · rw [List.filterMap_append]
      exact List.sublist_append_left ..
    · cases c with
      | recompute now =>
        rw [firing]
        split
        · exact List.pairwise_singleton ..
        · exact List.Pairwise.nil
      | _ => exact List.Pairwise.nil
    · cases c with
      | recompute now =>
        rw [firing] at hg
        split at hg
        · rename_i hfires
          cases List.mem_singleton.mp hg
          rcases (hkept.due_iff now).mp ((fires_iff_due now).mp hfires) with hnone | ⟨l, hl, helapsed⟩
          · rw [hkept.never.mpr hnone] at hf
            cases hf
          · have hle := le_last hsorted hl hf
            rw [Elapsed] at helapsed ⊢
            linarith
        · cases hg
      | _ => cases hg

end Run

end Serve

/-- In a run whose windows SQLite can cut. -/
theorem throttled (config : Config ℚ) (supply : Supply ℚ) (hw : config.window_size < 2 ^ 63 - 1)
    (cs : List (EngineCall ℚ)) (w : RiskWorld ℚ × Nat) (hstore : w.1.store = .empty)
    (hlast : w.1.last = none) (hnow : (cs.filterMap EngineCall.now?).Pairwise (· ≤ ·)) :
    Throttled config supply cs w where
  fires_iff before now later _ :=
    (fires_iff_due now).trans ((kept_run hw hstore hlast before).due_iff now)
  apart := firings_apart hw hstore hlast cs hnow
  publishes before now later _ := by
    refine ⟨fun hfires => ?_, fun hfires => ?_⟩
    · have hfired := serve_fired supply hw ((fires_iff_due now).mp hfires)
      obtain ⟨envs, hids, hrisk⟩ := hfired.published
      exact ⟨_, envs, eraseDups_nodup _, mem_accounts _, hids, hrisk⟩
    · have hdue : ¬ Due config (play config supply before w).1.last now := fun hdue =>
        Bool.eq_false_iff.mp hfires ((fires_iff_due now).mpr hdue)
      rw [serve_early hdue]
  window a := by rw [pvWindow_eq, (kept_run hw hstore hlast cs).window a]
  untouched before c later _ hc := (serve_other hc).pv_history

/-! ## A window that SQLite cannot cut -/

section Refused

variable {config : Config ℚ} {supply : Supply ℚ}

/-- A firing that finds an account and publishes nothing. -/
theorem not_publishesAtFirings {w : RiskWorld ℚ × Nat} {now : ℚ} {a : String}
    (ha : HasEvents w.1.store a) (hfires : fires config supply w now = true)
    (hrisk : (serve config supply w (.recompute now)).1.risk = w.1.risk) :
    ¬ PublishesAtFirings config supply w now := by
  intro h
  obtain ⟨accounts, envs, -, haccounts, hids, happended⟩ := h.fired hfires
  have henvs : envs = [] := by
    rw [hrisk] at happended
    exact List.map_eq_nil_iff.mp (List.self_eq_append_right.mp happended)
  rw [henvs, List.map_nil] at hids
  have hnone : accounts = [] := List.map_eq_nil_iff.mp hids.symm
  have hmem := (haccounts a).mpr ha
  rw [hnone] at hmem
  cases hmem

variable (config supply) in
/-- A purchase is applied whatever the settings. -/
theorem hasEvents_firstBuy (n : Nat) :
    HasEvents (serve config supply (worldOf [], n) (.ledger firstBuy.json)).1.store "A" := by
  obtain ⟨row, hrow, haccount⟩ : ∃ row, (eventOf firstBuy.json).row = .ok (some row) ∧
      row.account_id = "A" := ⟨_, rfl, rfl⟩
  have hnew : (worldOf []).store.IsNew row := fun h => List.not_mem_nil h.2
  obtain ⟨env, snapshots, n', hbuild, -⟩ := calmly_build supply (n := n + 1)
    (w := { worldOf [] with store := (worldOf []).store.withRow row })
    (c := (eventOf firstBuy.json).correlation_id)
    (valued_exact config ((worldOf []).store.withRow row)
      (a := (eventOf firstBuy.json).account_id) rfl)
  have hserve : serve config supply (worldOf [], n) (.ledger firstBuy.json) =
      ({ worldOf [] with
          store := { (worldOf []).store.withRow row with risk_snapshots := snapshots }
          unpublished := true }, n') := by
    rw [serve, EngineCall.code, calmly, Prog.eval_map_world, processLedgerEnvelope,
      firstBuy.schemaValid.ledgerEvent, Prog.eval_bind_ok (Prog.eval_ofExcept _ _),
      Prog.eval_bind_ok (calmly_perform (i := .applyLedgerEvent _)
        (stored_ok (apply_new hrow hnew)))]
    exact congrArg Prod.snd (Prog.eval_map_ok hbuild)
  rw [hserve]
  exact ⟨row, List.mem_append_right _ (List.mem_singleton_self row), haccount⟩

/-- A purchase and a throttle call. -/
def buyAndRecompute : List (EngineCall ℚ) := [.ledger firstBuy.json, .recompute 0]

theorem not_throttled (hlarge : ¬ config.window_size < 2 ^ 63 - 1) :
    ¬ Throttled config supply buyAndRecompute (worldOf [], 0) := by
  intro h
  have ha := hasEvents_firstBuy config supply 0
  have hlast : (serve config supply (worldOf [], 0) (.ledger firstBuy.json)).1.last = none :=
    (serve_other rfl).last
  have hdue : Due config (serve config supply (worldOf [], 0) (.ledger firstBuy.json)).1.last 0 := by
    rw [hlast]
    nofun
  exact not_publishesAtFirings ha ((fires_iff_due 0).mpr hdue) (serve_refused supply hlarge hdue ha)
    (h.publishes [.ledger firstBuy.json] 0 [] rfl)

end Refused

/-- **The throttle is rate limited, skips no due sample, and is the only
sampler**, in every run of ticks, ledger events and throttle calls at
non-decreasing times from an empty store, in exact arithmetic, if and only if
the limit of a window is an integer of SQLite. -/
theorem throttle_samples_iff (config : Config ℚ) (supply : Supply ℚ) :
    (∀ (cs : List (EngineCall ℚ)) (w : RiskWorld ℚ × Nat), w.1.store = .empty →
      w.1.last = none → (cs.filterMap EngineCall.now?).Pairwise (· ≤ ·) →
      Throttled config supply cs w) ↔ config.window_size < 2 ^ 63 - 1 := by
  constructor
  · intro h
    by_contra hlarge
    exact not_throttled hlarge (h buyAndRecompute (worldOf [], 0) rfl rfl (by decide +kernel))
  · exact throttled config supply

/-! ## A burst -/

def priceTick (price : Int) : Json ℚ :=
  .obj [("data", .obj [("symbol", .str "X"), ("price", .int price)])]

/-- A throttle call before any trade, a purchase, and ticks between throttle
calls of which the third comes too early. -/
def burst : List (EngineCall ℚ) :=
  [.recompute 0, .ledger firstBuy.json, .recompute 1, .tick (priceTick 7), .recompute (3 / 2),
    .tick (priceTick 9), .recompute 2]

theorem throttle_samples_burst :
    (firings settings sameSupply burst (worldOf [], 0)).map (·.now) = [0, 1, 2] ∧
    ((play settings sameSupply burst (worldOf [], 0)).1.store.pvWindow (.str "A")).toOption =
      some [1000, 1005] ∧
    Throttled settings sameSupply burst (worldOf [], 0) :=
  ⟨by decide +kernel, by decide +kernel,
    (throttle_samples_iff settings sameSupply).mpr (by decide) burst (worldOf [], 0) rfl rfl
      (by decide +kernel)⟩

/-- A window of 2⁶³ - 1 returns, whose limit has more than 64 bits. -/
def longWindow : Config ℚ := { settings with window_size := 2 ^ 63 - 1 }

/-- The throttle fires with an account to sample, and raises: nothing is
sampled and nothing published. -/
theorem throttle_can_overflow :
    let w := play longWindow sameSupply [.ledger firstBuy.json] (worldOf [], 0)
    w.1.store.accounts = ["A"] ∧ fires longWindow sameSupply w 0 = true ∧
    (calmly sameSupply (maybeRecompute longWindow (some 0)) w).1 = .error .OverflowError ∧
    (serve longWindow sameSupply w (.recompute 0)).1.risk.isEmpty = true ∧
    (serve longWindow sameSupply w (.recompute 0)).1.store.pv_history = [] ∧
    ¬ Throttled longWindow sameSupply buyAndRecompute (worldOf [], 0) :=
  ⟨by decide +kernel, by decide +kernel, by decide +kernel, by decide +kernel, by decide +kernel,
    not_throttled (by decide)⟩

end TradePulse.Risk
