import TradePulse.Core.ConsumerGroup
import TradePulse.Core.Process
import TradePulse.Risk.Consumer

/-! # The risk worker in its world

Redis with the group's streams and `risk.updates`, the SQLite file, and what
the process itself remembers. A Redis call may raise before or after it took
effect; a method of the store that writes commits or raises. A crash leaves
the world as it is and forgets the process. -/
namespace TradePulse.Risk
open TradePulse.Core TradePulse.Core.Process

variable {F : Type} [PyFloat F]

/-- `unpublished` records that a snapshot was committed whose envelope has not
been added to `risk.updates` since. -/
structure RiskWorld (F : Type) where
  ledger : ConsumerGroup Fields
  ticks : ConsumerGroup Fields
  risk : List (RiskFields F)
  store : RiskStore F
  last : Option F
  unpublished : Bool

namespace RiskWorld

def group (w : RiskWorld F) : StreamName → ConsumerGroup Fields
  | .ledger => w.ledger
  | .ticks => w.ticks

def setGroup (w : RiskWorld F) (s : StreamName) (g : ConsumerGroup Fields) : RiskWorld F :=
  match s with
  | .ledger => { w with ledger := g }
  | .ticks => { w with ticks := g }

def publish (w : RiskWorld F) (fields : RiskFields F) : RiskWorld F :=
  { w with risk := w.risk ++ [fields], unpublished := false }

end RiskWorld

/-- How the world answers a call. -/
inductive RiskChoice (F : Type) where
  | done
  | text (s : String)
  | time (t : F)
  | raiseBefore
  | raiseAfter

/-- A Redis call that takes effect as `w'` and answers `r`. -/
def redis {α : Type} (o : RiskChoice F) (w : RiskWorld F) (r : α) (w' : RiskWorld F) :
    Option (Except PyError α × RiskWorld F) :=
  match o with
  | .done => some (.ok r, w')
  | .raiseBefore => some (.error .RedisError, w)
  | .raiseAfter => some (.error .RedisError, w')
  | _ => none

/-- A method of the store. -/
def stored {α : Type} (o : RiskChoice F) (w : RiskWorld F)
    (x : Except PyError (α × RiskStore F)) : Option (Except PyError α × RiskWorld F) :=
  match o with
  | .done => match x with
    | .ok (r, store) => some (.ok r, { w with store })
    | .error e => some (.error e, w)
  | _ => none

/-- An argument that is too low is refused by redis-py, and one that is too
high by Redis. -/
def refused (low : Bool) : PyError := if low then .DataError else .RedisError

/-- `LONG_MAX / 16`: an `XAUTOCLAIM` makes room for as many ids of 16 bytes as
it may claim. -/
def maxClaim : Int := (2 ^ 63 - 1) / 16

def riskExec : (i : RiskCall F) → RiskChoice F → RiskWorld F →
    Option (Except PyError i.Result × RiskWorld F)
  | .xreadgroup s n, o, w =>
    if 1 ≤ n ∧ n < 2 ^ 63 then
      let g := w.group s
      redis o w (g.unread n.toNat) (w.setGroup s (g.readgroup n.toNat))
    else some (.error (refused (n < 1)), w)
  | .xautoclaim m n, o, w =>
    if (0 ≤ m ∧ m < 2 ^ 63) ∧ 1 ≤ n ∧ n ≤ maxClaim then
      redis o w (w.ledger.claimable m.toNat n.toNat)
        { w with ledger := w.ledger.autoclaim m.toNat n.toNat }
    else some (.error (refused (m < 0 ∨ n < 1)), w)
  | .xack s id, o, w => redis o w () (w.setGroup s ((w.group s).ack id))
  | .xadd fields, o, w => redis o w () (w.publish fields)
  | .select, .done, w => some (.ok w.store, w)
  | .upsertPrice y p, o, w => stored o w (w.store.upsertPrice y p)
  | .appendPrice y p n t, o, w => stored o w (RiskStore.committed (w.store.appendPrice y p n t))
  | .appendPv a v n t, o, w => stored o w (RiskStore.committed (w.store.appendPv a v n t))
  | .applyLedgerEvent e, o, w => stored o w (w.store.applyLedgerEvent e)
  | .saveRiskSnapshot a m t, .done, w =>
    match w.store.saveRiskSnapshot a m t with
    | .ok (r, store) => some (.ok r, { w with store, unpublished := true })
    | .error e => some (.error e, w)
  | .nowIso, .text s, w => some (.ok s, w)
  | .uuid4, .text s, w => some (.ok s, w)
  | .monotonic, .time t, w => some (.ok t, w)
  | .lastRecompute, .done, w => some (.ok w.last, w)
  | .setLastRecompute t, .done, w => some (.ok (), { w with last := some t })
  | _, _, _ => none

/-- What happens beside the worker: producers add entries, time passes, and an
operator resets the cursor of the group. -/
inductive RiskEnv where
  | addLedger (fields : Fields)
  | addTick (fields : Fields)
  | elapse (ms : Nat)
  | setId (s : StreamName) (n : Nat)

def riskEnv : RiskEnv → RiskWorld F → RiskWorld F
  | .addLedger f, w => { w with ledger := w.ledger.add f }
  | .addTick f, w => { w with ticks := w.ticks.add f }
  | .elapse d, w => { w with ledger := w.ledger.tick d, ticks := w.ticks.tick d }
  | .setId s n, w => w.setGroup s ((w.group s).setId n)

inductive WorkerCall (F : Type) where
  | cycle
  | maybeRecompute (now : Option F)

/-- The worker; every restart opens the same file under the same settings. -/
def worker (loads : String → Except PyError (Json F)) (config : Config F) :
    Machine (RiskCall F) RiskCall.Result PyError (WorkerCall F) (RiskChoice F) RiskEnv
      (RiskWorld F) Int where
  code
    | .cycle => cycle loads config
    | .maybeRecompute now => maybeRecompute config now
  exec := riskExec
  enter _ w := w
  leave _ w := w
  crash w := { w with last := none }
  env e w := some (riskEnv e w)

abbrev WorkerState (F : Type) := State (RiskCall F) RiskCall.Result PyError (RiskWorld F) Int

abbrev WorkerAct (F : Type) := Act (WorkerCall F) (RiskChoice F) RiskEnv

abbrev WorkerGuard (F : Type) :=
  Guard (RiskCall F) (WorkerCall F) (RiskChoice F) RiskEnv (RiskWorld F)

/-- New entries keep `P` true of `ledger.updates`. -/
def growsAs (P : List Fields → Prop) : RiskEnv → RiskWorld F → Prop
  | .addLedger f, w => P (w.ledger.log ++ [f])
  | _, _ => True

instance : (e : RiskEnv) → (w : RiskWorld F) → Decidable (growsAs (fun _ => False) e w)
  | .addLedger _, _ => .isFalse id
  | .addTick _, _ | .elapse _, _ | .setId _ _, _ => .isTrue trivial

omit [PyFloat F] in
/-- No new entry, no condition. -/
theorem growsAs_of_none {P : List Fields → Prop} {e : RiskEnv} {w : RiskWorld F}
    (h : growsAs (fun _ => False) e w) : growsAs P e w := by
  cases e with
  | addLedger f => exact h.elim
  | _ => trivial

omit [PyFloat F] in
/-- What the environment does to the ledger's group. -/
theorem ledger_env {P : List Fields → Prop} {e : RiskEnv} {w : RiskWorld F} (hg : growsAs P e w)
    (hP : P w.ledger.log) :
    w.ledger.log <+: (riskEnv e w).ledger.log ∧ (riskEnv e w).ledger.acked = w.ledger.acked ∧
      P (riskEnv e w).ledger.log ∧ (riskEnv e w).store = w.store := by
  cases e with
  | addLedger f => exact ⟨List.prefix_append .., rfl, hg, rfl⟩
  | setId s n => cases s <;> exact ⟨List.prefix_refl _, rfl, hP, rfl⟩
  | _ => exact ⟨List.prefix_refl _, rfl, hP, rfl⟩

/-- As `G` has it, and new entries keep `P` true of `ledger.updates`. -/
def growing (G : WorkerGuard F) (P : List Fields → Prop) : WorkerGuard F :=
  { G with env := fun e w => G.env e w ∧ growsAs P e w }

section Growing

variable {G : WorkerGuard F} {P : List Fields → Prop}

instance [∀ c w, Decidable (G.enter c w)] (c : WorkerCall F) (w : RiskWorld F) :
    Decidable ((growing G P).enter c w) := inferInstanceAs (Decidable (G.enter c w))
instance [∀ i o w, Decidable (G.call i o w)] (i : RiskCall F) (o : RiskChoice F)
    (w : RiskWorld F) : Decidable ((growing G P).call i o w) :=
  inferInstanceAs (Decidable (G.call i o w))
instance [∀ w, Decidable (G.crash w)] (w : RiskWorld F) : Decidable ((growing G P).crash w) :=
  inferInstanceAs (Decidable (G.crash w))
instance [∀ e w, Decidable (G.env e w)] (e : RiskEnv) (w : RiskWorld F) :
    Decidable ((growing G fun _ => False).env e w) :=
  inferInstanceAs (Decidable (G.env e w ∧ growsAs (fun _ => False) e w))

omit [PyFloat F] in
theorem growing_of_none {s : WorkerState F} {a : WorkerAct F}
    (h : (growing G fun _ => False).ok s a) : (growing G P).ok s a :=
  Guard.ok_mono (G := growing G fun _ => False) (H := growing G P) (fun _ _ h => h)
    (fun _ _ _ h => h) (fun _ h => h) (fun _ _ h => ⟨h.1, growsAs_of_none h.2⟩) h

end Growing

end TradePulse.Risk
