import TradePulse.Risk.ExactlyOnce
import TradePulse.Core.Rows

/-! # Snapshots and the live stream

The snapshot an account is served is committed before its envelope is added to
`risk.updates`. The two agree between calls as long as nothing comes between
the commit and the addition: no crash, and no addition that raises without
having taken effect. -/
namespace TradePulse.Risk
open TradePulse.Core TradePulse.Core.Process TradePulse.Core.Runs
open TradePulse.Core.Prog (only_perform only_ofExcept only_ret)

variable {F : Type}

/-! ## The property -/

/-- The data of the last `RiskComputed` envelope of an account. -/
def lastData (risk : List (RiskFields F)) (a : String) : Option (RiskData F) :=
  ((risk.map (·.event.data)).filter (·.account_id.text? = some a)).getLast?

/-- What each account is served is what was last published for it. -/
def Coherent (w : RiskWorld F) : Prop :=
  ∀ a, w.store.getRiskSnapshot a = lastData w.risk a

def RiskChoice.lost : RiskChoice F → Bool
  | .raiseBefore => true
  | _ => false

/-- An addition to `risk.updates` is not lost, and a snapshot is only saved
under a string. -/
def publishedCall : RiskCall F → RiskChoice F → Bool
  | .xadd _, o => !o.lost
  | .saveRiskSnapshot a _ _, _ => a.text?.isSome
  | _, _ => true

/-- No crash between a snapshot and its envelope. Other crashes and Redis
errors are not restricted. -/
def allPublished : WorkerGuard F where
  enter _ _ := True
  call i o _ := publishedCall i o
  crash w := !w.unpublished
  env _ _ := True

instance (c : WorkerCall F) (w : RiskWorld F) : Decidable (allPublished.enter c w) :=
  .isTrue trivial
instance (i : RiskCall F) (o : RiskChoice F) (w : RiskWorld F) :
    Decidable (allPublished.call i o w) := inferInstanceAs (Decidable (publishedCall i o = true))
instance (w : RiskWorld F) : Decidable (allPublished.crash w) :=
  inferInstanceAs (Decidable ((!w.unpublished) = true))
instance (e : RiskEnv) (w : RiskWorld F) : Decidable ((allPublished (F := F)).env e w) :=
  .isTrue trivial

/-! ## One snapshot and its envelope -/

theorem lastData_snoc (risk : List (RiskFields F)) (fields : RiskFields F) (a : String) :
    lastData (risk ++ [fields]) a =
      if fields.event.data.account_id.text? = some a then some fields.event.data
      else lastData risk a := by
  rw [lastData, List.map_append, List.filter_append, List.map_singleton, List.filter_singleton]
  by_cases h : fields.event.data.account_id.text? = some a <;> simp [h, lastData]

/-! ## Between a save and its publication -/

/-- The snapshots, the published envelopes and what is still to be published. -/
structure SameRisk (w w' : RiskWorld F) : Prop where
  risk_snapshots : w'.store.risk_snapshots = w.store.risk_snapshots
  risk : w'.risk = w.risk
  unpublished : w'.unpublished = w.unpublished

theorem SameRisk.env (e : RiskEnv) (w : RiskWorld F) : SameRisk w (riskEnv e w) := by
  cases e with
  | setId s n => cases s <;> exact ⟨rfl, rfl, rfl⟩
  | _ => exact ⟨rfl, rfl, rfl⟩

/-- Adding an envelope with these data would make both copies agree. -/
structure Saved (data : RiskData F) (w : RiskWorld F) : Prop where
  unpublished : w.unpublished = true
  get : ∀ a, w.store.getRiskSnapshot a =
    if data.account_id.text? = some a then some data else lastData w.risk a

theorem Coherent.same {w w' : RiskWorld F} (h : Coherent w) (hw : SameRisk w w') :
    Coherent w' := by
  intro a
  rw [RiskStore.getRiskSnapshot, hw.risk_snapshots, hw.risk]
  exact h a

theorem Saved.same {data : RiskData F} {w w' : RiskWorld F} (h : Saved data w)
    (hw : SameRisk w w') : Saved data w' := by
  refine ⟨hw.unpublished.trans h.unpublished, fun a => ?_⟩
  rw [RiskStore.getRiskSnapshot, hw.risk_snapshots, hw.risk]
  exact h.get a

theorem Saved.publish {env : RiskEnvelope F} {w : RiskWorld F} (h : Saved env.data w) :
    Coherent (w.publish (streamFields env)) := by
  intro a
  change w.store.getRiskSnapshot a = lastData (w.risk ++ [_]) a
  rw [lastData_snoc]
  exact h.get a

/-- What holds wherever the worker is cut off. -/
def CutOff (w : RiskWorld F) : Prop := w.unpublished = false → Coherent w

theorem Coherent.cutOff {w : RiskWorld F} (h : Coherent w) : CutOff w := fun _ => h

theorem Saved.cutOff {data : RiskData F} {w : RiskWorld F} (h : Saved data w) : CutOff w := by
  intro hw
  rw [h.unpublished] at hw
  cases hw

/-! ## Calls -/

variable [PyFloat F] {loads : String → Except PyError (Json F)} {config : Config F}

/-- After a save, only the account's own snapshot differs. -/
theorem getRiskSnapshot_save {s s' : RiskStore F} {a : String} {m : RiskMetrics F} {t : String}
    {u : Unit} (h : s.saveRiskSnapshot (.str a) m t = .ok (u, s')) (b : String) :
    s'.getRiskSnapshot b =
      if a = b then some { account_id := .str a, metrics := m, computed_at := t }
      else s.getRiskSnapshot b := by
  obtain ⟨_, hbind, h⟩ := except_bind_ok.mp h
  cases hbind
  split at h
  · split at h
    · rename_i hany
      cases h
      obtain ⟨old, hold⟩ := Option.isSome_iff_exists.mp
        (List.find?_isSome.mpr (List.any_eq_true.mp hany.2))
      rw [RiskStore.getRiskSnapshot, find?_key_update fun _ _ => by rfl]
      by_cases hab : a = b
      · simp [hab ▸ hold, hab]
      · simp [hab, Ne.symm hab, RiskStore.getRiskSnapshot]
    · rename_i hnone
      cases h
      rw [RiskStore.getRiskSnapshot, find?_insert (by simpa using hnone)]
      by_cases hab : a = b
      · simp [hab]
      · simp [hab, Ne.symm hab, RiskStore.getRiskSnapshot]
  · cases h

/-- The calls that move a snapshot or the published envelopes. -/
def RiskCall.onRisk : RiskCall F → Bool
  | .saveRiskSnapshot _ _ _ | .xadd _ => true
  | _ => false

/-- A call that leaves both copies alone. -/
def OffRisk (i : RiskCall F) : Prop := i.onRisk = false

theorem risk_frame {i : RiskCall F} (hi : OffRisk i) {o : RiskChoice F}
    {w w' : RiskWorld F} {r : Except PyError i.Result} (h : riskExec i o w = some (r, w')) :
    SameRisk w w' := by
  rcases exec_effect h with rfl | rfl
  · exact ⟨rfl, rfl, rfl⟩
  cases i with
  | xreadgroup s n => cases s <;> exact ⟨rfl, rfl, rfl⟩
  | xack s id => cases s <;> exact ⟨rfl, rfl, rfl⟩
  | xadd fields => cases hi
  | saveRiskSnapshot a m t => cases hi
  | upsertPrice y p =>
    exact ⟨wrote_frame _ fun _ _ h => by rw [RiskStore.upsertPrice_only h], risk_wrote ..,
      unpublished_wrote ..⟩
  | appendPrice y p n t =>
    exact ⟨wrote_frame _ fun _ _ h => by rw [RiskStore.appendPrice_only h], risk_wrote ..,
      unpublished_wrote ..⟩
  | appendPv a v n t =>
    exact ⟨wrote_frame _ fun _ _ h => by rw [RiskStore.appendPv_only h], risk_wrote ..,
      unpublished_wrote ..⟩
  | applyLedgerEvent e =>
    exact ⟨wrote_frame _ fun _ _ h => by rw [RiskStore.applyLedgerEvent_only h], risk_wrote ..,
      unpublished_wrote ..⟩
  | _ => exact ⟨rfl, rfl, rfl⟩

variable (loads config) in
theorem coherent_stable : Stable (worker loads config) allPublished Coherent := by
  intro w e w' h _ hx
  cases hx
  exact h.same (.env e w)

variable (loads config) in
theorem saved_stable (data : RiskData F) :
    Stable (worker loads config) allPublished (Saved data) := by
  intro w e w' h _ hx
  cases hx
  exact h.same (.env e w)

/-! ## Programs -/

section Programs

variable {β γ : Type} {Q : Except PyError β → RiskWorld F → Prop} {w : RiskWorld F}

variable (loads config) in
/-- `Safe` for the worker, cut off wherever it may be. -/
abbrev RiskSafe (Q : Except PyError β → RiskWorld F → Prop) (p : RiskM F β) (w : RiskWorld F) :
    Prop := Safe (worker loads config) allPublished CutOff Q p w

theorem RiskSafe.quiet {p : RiskM F β} (hp : p.Only OffRisk) (hQ : ∀ r w, Coherent w → Q r w)
    (h : Coherent w) : RiskSafe loads config Q p w :=
  Safe.only (coherent_stable loads config) (fun _ h => h.cutOff)
    (fun _ _ _ _ _ hi hw _ hx => hw.same (risk_frame hi hx)) hQ hp h

/-- A program that leaves both copies alone, and what follows. -/
theorem RiskSafe.quiet_bind {p : RiskM F γ} {f : γ → RiskM F β} (hp : p.Only OffRisk)
    (hQ : ∀ e w, Coherent w → Q (.error e) w)
    (hf : ∀ c w, Coherent w → RiskSafe loads config Q (f c) w) (h : Coherent w) :
    RiskSafe loads config Q (p >>= f) w := by
  refine Safe.bind (RiskSafe.quiet hp (fun r w hw => ?_) h)
  cases r with
  | ok c => exact hf c w hw
  | error e => exact hQ e w hw

theorem RiskSafe.ret {b : β} (hQ : ∀ w, Coherent w → Q (.ok b) w) (h : Coherent w) :
    RiskSafe loads config Q (.ret b) w :=
  Safe.ret (coherent_stable loads config) (fun _ h => h.cutOff) hQ h

/-- A fresh identifier between a save and its publication. -/
theorem RiskSafe.uuid4_bind {data : RiskData F} {f : String → RiskM F β}
    (hf : ∀ s w, Saved data w → RiskSafe loads config Q (f s) w) (h : Saved data w) :
    RiskSafe loads config Q (uuid4 >>= f) w := by
  refine Safe.perform (saved_stable loads config data) (fun _ h => h.cutOff) ?_ ?_ h
  · intro w o s w' hw _ hx
    exact hf s w' (hw.same (risk_frame (i := .uuid4) rfl hx))
  · intro w o e w' hw _ hx
    cases o <;> cases hx

theorem RiskSafe.correlationOr_bind {data : RiskData F} {c : Json F} {f : Json F → RiskM F β}
    (hf : ∀ c w, Saved data w → RiskSafe loads config Q (f c) w) (h : Saved data w) :
    RiskSafe loads config Q (correlationOr c >>= f) w := by
  unfold correlationOr
  split
  · exact hf c w h
  · rw [Prog.map_bind]
    exact RiskSafe.uuid4_bind (fun s w hw => hf (.str s) w hw) h

/-- The addition of an envelope whose snapshot is saved. -/
theorem RiskSafe.publish_bind {env : RiskEnvelope F} {f : Unit → RiskM F β}
    (hQ : ∀ e w, Coherent w → Q (.error e) w)
    (hf : ∀ w, Coherent w → RiskSafe loads config Q (f ()) w) (h : Saved env.data w) :
    RiskSafe loads config Q (publish env >>= f) w := by
  refine Safe.perform (saved_stable loads config env.data) (fun _ h => h.cutOff) ?_ ?_ h
  · intro w o r w' hw _ hx
    obtain ⟨-, rfl⟩ | ⟨⟨_, hr⟩, -⟩ := redis_some hx
    · exact hf _ hw.publish
    · cases hr
  · intro w o e w' hw hg hx
    cases o with
    | raiseBefore => cases hg
    | raiseAfter =>
      cases hx
      exact Safe.raise (coherent_stable loads config) (fun _ h => h.cutOff) (hQ _) hw.publish
    | _ => cases hx

/-- What `_build_risk_envelope` leaves: a saved snapshot, if it returns. -/
def Built (r : Except PyError (RiskEnvelope F)) (w : RiskWorld F) : Prop :=
  match r with
  | .ok env => Saved env.data w
  | .error _ => Coherent w

theorem RiskSafe.save_bind {a : Json F} {m : RiskMetrics F} {t : String} {f : Unit → RiskM F β}
    (hQ : ∀ e w, Coherent w → Q (.error e) w)
    (hf : ∀ w, Saved ⟨a, m, t⟩ w → RiskSafe loads config Q (f ()) w) (h : Coherent w) :
    RiskSafe loads config Q (Prog.perform (RiskCall.saveRiskSnapshot a m t) >>= f) w := by
  refine Safe.perform (coherent_stable loads config) (fun _ h => h.cutOff) ?_ ?_ h
  · intro w o r w' hw hg hx
    obtain ⟨s, hs⟩ := Option.isSome_iff_exists.mp hg
    obtain rfl := Json.eq_str_of_text? hs
    cases o with
    | done =>
      simp only [worker, riskExec] at hx
      split at hx
      · rename_i hsave
        cases hx
        refine hf _ ⟨rfl, fun b => ?_⟩
        rw [getRiskSnapshot_save hsave, hw b]
        simp [Json.text?]
      · cases hx
    | _ => cases hx
  · intro w o e w' hw _ hx
    cases o with
    | done =>
      simp only [worker, riskExec] at hx
      split at hx
      · cases hx
      · cases hx
        exact Safe.raise (coherent_stable loads config) (fun _ h => h.cutOff) (hQ _) hw
    | _ => cases hx

theorem buildRiskEnvelope_safe {a c : Json F} (h : Coherent w) :
    RiskSafe loads config Built (buildRiskEnvelope config a c) w := by
  refine RiskSafe.quiet_bind (only_reads rfl) (fun _ _ h => h) (fun cash w h => ?_) h
  refine RiskSafe.quiet_bind (only_reads rfl) (fun _ _ h => h) (fun positions w h => ?_) h
  refine RiskSafe.quiet_bind (only_reads rfl) (fun _ _ h => h) (fun pvReturns w h => ?_) h
  refine RiskSafe.quiet_bind (only_ofExcept _) (fun _ _ h => h) (fun metrics w h => ?_) h
  refine RiskSafe.quiet_bind (only_perform rfl) (fun _ _ h => h) (fun computedAt w h => ?_) h
  refine RiskSafe.save_bind (fun _ _ h => h) (fun w h => ?_) h
  refine RiskSafe.uuid4_bind (fun eventId w h => ?_) h
  refine RiskSafe.correlationOr_bind (fun correlationId w h => ?_) h
  exact Safe.ret (saved_stable loads config _) (fun _ h => h.cutOff) (fun _ h => h) h

/-- A program between whose calls both copies agree. -/
abbrev Keeps (loads : String → Except PyError (Json F)) (config : Config F) (p : RiskM F β) :
    Prop := ∀ w, Coherent w → RiskSafe loads config (fun _ => Coherent) p w

theorem Keeps.bind {p : RiskM F γ} {f : γ → RiskM F β} (hp : Keeps loads config p)
    (hf : ∀ c, Keeps loads config (f c)) : Keeps loads config (p >>= f) := by
  intro w h
  refine Safe.bind ((hp w h).mono fun r w hw => ?_)
  cases r with
  | ok c => exact hf c w hw
  | error e => exact hw

theorem Keeps.only {p : RiskM F β} (hp : p.Only OffRisk) : Keeps loads config p :=
  fun _ h => RiskSafe.quiet hp (fun _ _ h => h) h

/-- Build an envelope and publish it. -/
theorem Keeps.build_publish {a c : Json F} {f : RiskEnvelope F → RiskM F β}
    (hf : ∀ env w, Saved env.data w → RiskSafe loads config (fun _ => Coherent) (f env) w) :
    Keeps loads config (buildRiskEnvelope config a c >>= f) := by
  intro w h
  refine Safe.bind ((buildRiskEnvelope_safe h).mono fun r w hw => ?_)
  cases r with
  | ok env => exact hf env w hw
  | error e => exact hw

theorem keeps_handleLedger (fields : Fields) :
    Keeps loads config (handleLedger loads config fields) := by
  rw [handleLedger_eq]
  refine Keeps.bind (.only (only_ofExcept _)) fun event => ?_
  cases event with
  | none => exact .only (only_ret _)
  | some event =>
    refine Keeps.bind (.only (only_perform rfl)) fun newlyApplied => ?_
    cases newlyApplied with
    | false => exact .only (only_ret _)
    | true =>
      exact Keeps.build_publish fun env w hw => RiskSafe.publish_bind (fun _ _ h => h)
        (fun w hw => RiskSafe.ret (fun _ h => h) hw) hw

theorem keeps_reclaimEntries (rs : List (Nat × Fields)) :
    ∀ n, Keeps loads config (reclaimEntries loads config rs n) := by
  induction rs with
  | nil => exact fun n => .only (only_ret _)
  | cons x rs ih =>
    exact fun n => (keeps_handleLedger x.2).bind fun _ =>
      Keeps.bind (.only (only_perform (P := OffRisk) (i := .xack .ledger x.1) rfl)) fun _ => ih _

theorem keeps_drainEntries (rs : List (Nat × Fields)) :
    ∀ n, Keeps loads config (drainEntries loads config rs n) := by
  induction rs with
  | nil => exact fun n => .only (only_ret _)
  | cons x rs ih =>
    exact fun n => (keeps_handleLedger x.2).bind fun _ =>
      Keeps.bind (.only (only_perform (P := OffRisk) (i := .xack .ledger x.1) rfl)) fun _ => ih _

theorem keeps_cycle : Keeps loads config (cycle loads config) := by
  have hreclaim : Keeps loads config (reclaimLedger loads config) :=
    Keeps.bind (.only (only_perform (P := OffRisk) (i := .xautoclaim _ _) rfl)) fun entries =>
      keeps_reclaimEntries entries 0
  have hdrain : Keeps loads config (drainLedger loads config) :=
    Keeps.bind (.only (only_perform (P := OffRisk) (i := .xreadgroup .ledger _) rfl)) fun reply =>
      keeps_drainEntries reply 0
  have hrefresh : Keeps loads config (refreshPrices loads config) :=
    .only (only_refreshPrices (fun _ => rfl) (fun _ => rfl) (fun _ _ => rfl) fun _ _ _ _ => rfl)
  exact hreclaim.bind fun _ => hrefresh.bind fun _ => hdrain

/-- Recompute an account and publish what comes of it. -/
theorem Keeps.recompute_publish {a c : Json F} {f : Option (RiskEnvelope F) → RiskM F β}
    (hnone : Keeps loads config (f none))
    (hf : ∀ env w, Saved env.data w → RiskSafe loads config (fun _ => Coherent) (f (some env)) w) :
    Keeps loads config (recomputeAccount config a c >>= f) := by
  have hsel : OffRisk (.select : RiskCall F) := rfl
  rw [recomputeAccount, Prog.bind_assoc]
  refine Keeps.bind (.only (only_reads hsel)) fun positions => ?_
  split
  · exact hnone
  · rw [Prog.bind_assoc]
    refine Keeps.bind (.only (only_reads hsel)) fun cash => ?_
    rw [Prog.bind_assoc]
    refine Keeps.bind (.only (only_perform (P := OffRisk) (i := .appendPv ..) rfl)) fun _ => ?_
    rw [Prog.map_bind]
    exact Keeps.build_publish hf

theorem keeps_recomputeAccounts (accounts : List String) :
    ∀ n, Keeps loads config (recomputeAccounts config accounts n) := by
  induction accounts with
  | nil => exact fun n => .only (only_ret _)
  | cons a accounts ih =>
    exact fun n => Keeps.recompute_publish (ih n) fun env w hw =>
      RiskSafe.publish_bind (fun _ _ h => h) (fun w hw => ih (n + 1) w hw) hw

theorem keeps_maybeRecompute (now : Option F) :
    Keeps loads config (maybeRecompute config now) := by
  have hsel : OffRisk (.select : RiskCall F) := rfl
  refine Keeps.bind (.only ?_) fun current =>
    Keeps.bind (.only (only_perform (P := OffRisk) (i := .lastRecompute) rfl)) fun last => ?_
  · cases now with
    | none => exact only_perform (P := OffRisk) (i := .monotonic) rfl
    | some now => exact only_ret _
  · dsimp only
    split
    · exact .only (only_ret _)
    · exact Keeps.bind (.only (only_perform (P := OffRisk) (i := .setLastRecompute _) rfl)) fun _ =>
        Keeps.bind (.only (only_reads hsel)) fun accounts => keeps_recomputeAccounts accounts 0

end Programs

theorem coherent_proof :
    Proof (worker loads config) allPublished Coherent CutOff (fun _ => Coherent) where
  enter c w h _ := by
    cases c with
    | cycle => exact keeps_cycle w h
    | maybeRecompute now => exact keeps_maybeRecompute now w h
  leave _ _ h := h
  crash w h hg := h (by simpa [allPublished] using hg)
  idle_crash _ h _ := h
  idle_env := coherent_stable loads config

/-- **What is served is what was published.** In every run in which nothing
comes between a snapshot and its envelope, each account is served the data of
its last envelope, after every call and every restart. -/
theorem snapshots_coherent {s : WorkerState F}
    (h : Reach (step (worker loads config)) allPublished.ok (idle Coherent) s)
    (hs : s.running = none) : Coherent s.world := coherent_proof.between h hs

/-! ## One purchase -/

def oneBuy : RiskWorld ℚ := worldOf [firstBuy.fields]

theorem oneBuy_coherent : Coherent oneBuy := fun _ => rfl

/-- A crash before the entry is applied, and one after it is published. -/
def crashAround : List (WorkerAct ℚ) :=
  opening ++ [.crash, .env (.elapse 30000), .enter .cycle, .call .done] ++ applyNew "t1" ++
    [.call (.text "r1"), .call .done, .crash]

theorem snapshots_coherent_crashAround : ∃ s : WorkerState ℚ,
    (s.world.store.getRiskSnapshot "A").isSome ∧ Coherent s.world := by
  obtain ⟨s, hs, hp⟩ := Reach.exists_of_run (step (worker buyLoads settings))
    allPublished.ok (idle Coherent) crashAround
    (fun s => (s.world.store.getRiskSnapshot "A").isSome ∧ s.running.isNone)
    (s := ⟨oneBuy, none⟩) ⟨oneBuy_coherent, rfl⟩ (by decide +kernel)
  obtain ⟨hsome, hidle⟩ := of_decide_eq_true hp
  exact ⟨s, hsome, snapshots_coherent hs (by simpa using hidle)⟩

/-- A crash between the snapshot and its envelope; the entry is reclaimed, known
by now, and acknowledged. -/
def crashBetween : List (WorkerAct ℚ) :=
  opening ++ applyNew "t1" ++ [.crash, .env (.elapse 30000), .enter .cycle, .call .done] ++
    applyKnown ++ [.call .done, .call .done, .leave]

/-- The envelope is never published: after the next complete cycle, an account
is served a snapshot for which there is none. -/
theorem snapshots_can_part : ∃ s : WorkerState ℚ,
    Reach (step (worker buyLoads settings)) Guard.any.ok (idle Coherent) s ∧
    s.running = none ∧ ¬ Coherent s.world := by
  obtain ⟨s, hs, hp⟩ := Reach.exists_of_run (step (worker buyLoads settings))
    Guard.any.ok (idle Coherent) crashBetween
    (fun s => (s.world.store.getRiskSnapshot "A").isSome ∧ s.world.risk.isEmpty ∧
      s.running.isNone)
    (s := ⟨oneBuy, none⟩) ⟨oneBuy_coherent, rfl⟩ (by decide +kernel)
  obtain ⟨hsome, hrisk, hidle⟩ := of_decide_eq_true hp
  refine ⟨s, hs, by simpa using hidle, fun h => ?_⟩
  rw [h "A", List.isEmpty_iff.mp hrisk] at hsome
  cases hsome

end TradePulse.Risk
