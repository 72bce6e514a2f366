import TradePulse.Web.Controllers
import TradePulse.Ledger.Cash
import TradePulse.Ledger.Replays

/-! # The ledger over HTTP

Any number of requests at a time, each as far as it has come; the transactions
that they begin interleave statement by statement. A request passes the filter
chain, then `CorrelationIdFilter`, then its controller. -/
namespace TradePulse.Ledger.Web
open TradePulse.Core TradePulse.Core.Runs TradePulse.Core.Transactions

variable {τ : Type}

inductive Progress (τ : Type) where
  | reading (q : Query)
  | checking (accountId : String) (c : Call)
  | serving (txn : Nat)
  | answered (txn : Option Nat) (a : Answer τ)

structure Exchange (τ : Type) where
  request : Request τ
  arrived : OffsetDateTime
  principal : Option Claims
  /-- What is bound for the request and echoed to it. -/
  correlationId : Option String
  progress : Progress τ

def Next.progress : Next τ → Progress τ
  | .answer a => .answered none a
  | .read q => .reading q
  | .serve accountId c => .checking accountId c

def receive (cfg : Config τ) (r : Request τ) (w : Ambient) : Exchange τ :=
  match filterChain cfg.jwt w.clock r.bearer r.path with
  | .error denial => ⟨r, w.clock, none, none, .answered none denial.answer⟩
  | .ok principal =>
    let id := correlate r.correlationId w.uuid
    ⟨r, w.clock, principal, some id, (dispatch cfg id w.clock r).progress⟩

structure App (τ : Type) where
  ledger : LedgerState
  exchanges : List (Exchange τ)

def App.put (s : App τ) (n : Nat) (x : Exchange τ) (p : Progress τ) : App τ :=
  { s with exchanges := s.exchanges.set n { x with progress := p } }

/-- A finished transaction is answered; one that was rolled back by 500. -/
def outcome (t : LedgerTxn) : Option (Answer τ) :=
  match t.status, t.rest with
  | .committed, .ret r => some (reply r)
  | .aborted, _ => some ⟨500, .none⟩
  | _, _ => none

inductive Act (τ : Type) where
  | request (r : Request τ) (w : Ambient)
  /-- The one statement that a request makes outside of a transaction. -/
  | proceed (n : Nat)
  | transaction (a : LedgerAct)
  | reply (n : Nat)

/-- `AdminController` and `TradeController` after their checks. -/
def serve (cfg : Config τ) (s : App τ) (n : Nat) (x : Exchange τ) (accountId : String) (c : Call) :
    Option (App τ) :=
  if s.ledger.db.getCash accountId = none then
    some (s.put n x (.answered none ⟨404, .reason "unknown account_id"⟩))
  else
    (ledgerStep cfg.rules (.begin c) s.ledger).map fun ledger =>
      { s.put n x (.serving s.ledger.txns.length) with ledger }

def step (cfg : Config τ) : Act τ → App τ → Option (App τ)
  | .request r w, s => some { s with exchanges := s.exchanges ++ [receive cfg r w] }
  | .proceed n, s => do
    let x ← s.exchanges[n]?
    match x.progress with
    | .reading q => return s.put n x (.answered none ⟨200, q.run cfg.database s.ledger.db⟩)
    | .checking accountId c => serve cfg s n x accountId c
    | _ => none
  | .transaction (.begin _), _ => none
  | .transaction a, s => (ledgerStep cfg.rules a s.ledger).map fun ledger => { s with ledger }
  | .reply n, s => do
    let x ← s.exchanges[n]?
    match x.progress with
    | .serving txn => do
      let t ← s.ledger.txns[txn]?
      let a ← outcome t
      return s.put n x (.answered (some txn) a)
    | _ => none

/-- The service as it starts. -/
def start (P : Db → Prop) (s : App τ) : Prop := initial P s.ledger ∧ s.exchanges = []

/-! ## What one step does -/

inductive Step (cfg : Config τ) (s : App τ) : Act τ → App τ → Prop
  | request (r : Request τ) (w : Ambient) :
      Step cfg s (.request r w) { s with exchanges := s.exchanges ++ [receive cfg r w] }
  | read {n : Nat} {x : Exchange τ} {q : Query} (get : s.exchanges[n]? = some x)
      (progress : x.progress = .reading q) :
      Step cfg s (.proceed n) (s.put n x (.answered none ⟨200, q.run cfg.database s.ledger.db⟩))
  | missing {n : Nat} {x : Exchange τ} {accountId : String} {c : Call}
      (get : s.exchanges[n]? = some x) (progress : x.progress = .checking accountId c) :
      Step cfg s (.proceed n) (s.put n x (.answered none ⟨404, .reason "unknown account_id"⟩))
  | begin {n : Nat} {x : Exchange τ} {accountId : String} {c : Call}
      (get : s.exchanges[n]? = some x) (progress : x.progress = .checking accountId c)
      (known : s.ledger.db.getCash accountId ≠ none) :
      Step cfg s (.proceed n) { s.put n x (.serving s.ledger.txns.length) with
        ledger := { s.ledger with
          txns := s.ledger.txns ++ [⟨c, [], service cfg.rules c, .active⟩] } }
  | transaction {a : LedgerAct} {ledger : LedgerState} (later : ∀ c, a ≠ .begin c)
      (h : ledgerStep cfg.rules a s.ledger = some ledger) :
      Step cfg s (.transaction a) { s with ledger }
  | reply {n txn : Nat} {x : Exchange τ} {t : LedgerTxn} {a : Answer τ}
      (get : s.exchanges[n]? = some x) (progress : x.progress = .serving txn)
      (txn_get : s.ledger.txns[txn]? = some t) (answer : outcome t = some a) :
      Step cfg s (.reply n) (s.put n x (.answered (some txn) a))

theorem step_inv {cfg : Config τ} {a : Act τ} {s s' : App τ} (h : step cfg a s = some s') :
    Step cfg s a s' := by
  cases a with
  | request r w =>
    cases h
    exact .request r w
  | proceed n =>
    obtain ⟨x, get, h⟩ := Option.bind_eq_some_iff.mp h
    split at h
    · rename_i q hq
      cases h
      exact .read get hq
    · rename_i accountId c hc
      unfold serve at h
      split at h
      · cases h
        exact .missing get hc
      · rename_i known
        obtain ⟨ledger, hledger, rfl⟩ := Option.map_eq_some_iff.mp h
        cases hledger
        exact .begin get hc known
    · cases h
  | transaction a =>
    have later : ∀ c, a ≠ .begin c := by
      rintro c rfl
      cases h
    cases a with
    | begin c => exact absurd rfl (later c)
    | stmt n w =>
      obtain ⟨ledger, hledger, rfl⟩ := Option.map_eq_some_iff.mp h
      exact .transaction later hledger
    | commit n =>
      obtain ⟨ledger, hledger, rfl⟩ := Option.map_eq_some_iff.mp h
      exact .transaction later hledger
    | abort n =>
      obtain ⟨ledger, hledger, rfl⟩ := Option.map_eq_some_iff.mp h
      exact .transaction later hledger
  | reply n =>
    obtain ⟨x, get, h⟩ := Option.bind_eq_some_iff.mp h
    split at h
    · rename_i txn hserving
      obtain ⟨t, ht, h⟩ := Option.bind_eq_some_iff.mp h
      obtain ⟨a, ha, h⟩ := Option.bind_eq_some_iff.mp h
      cases h
      exact .reply get hserving ht ha
    · cases h

/-! ## Where an exchange stands -/

/-- The transaction of an exchange, if it has come to one. -/
def Exchange.txn (x : Exchange τ) : Option Nat :=
  match x.progress with
  | .serving k => some k
  | .answered k _ => k
  | _ => none

/-- How far a request has come after its controller's checks. -/
inductive Stands (cfg : Config τ) (txns : List LedgerTxn) (x : Exchange τ) (id : String) : Prop
  | answered {a : Answer τ} (next : dispatch cfg id x.arrived x.request = .answer a)
      (progress : x.progress = .answered none a)
  | reading {q : Query} (next : dispatch cfg id x.arrived x.request = .read q)
      (progress : x.progress = .reading q)
  | read {q : Query} {db : Db} (next : dispatch cfg id x.arrived x.request = .read q)
      (progress : x.progress = .answered none ⟨200, q.run cfg.database db⟩)
  | checking {accountId : String} {c : Call}
      (next : dispatch cfg id x.arrived x.request = .serve accountId c)
      (progress : x.progress = .checking accountId c)
  | missing {accountId : String} {c : Call}
      (next : dispatch cfg id x.arrived x.request = .serve accountId c)
      (progress : x.progress = .answered none ⟨404, .reason "unknown account_id"⟩)
  | serving {accountId : String} {c : Call} {k : Nat} {t : LedgerTxn}
      (next : dispatch cfg id x.arrived x.request = .serve accountId c)
      (fits : accountId.length ≤ 64) (get : txns[k]? = some t) (call : t.call = c)
      (progress : x.progress = .serving k)
  | served {accountId : String} {c : Call} {k : Nat} {t : LedgerTxn} {a : Answer τ}
      (next : dispatch cfg id x.arrived x.request = .serve accountId c)
      (fits : accountId.length ≤ 64) (get : txns[k]? = some t) (call : t.call = c)
      (progress : x.progress = .answered (some k) a) (answer : outcome t = some a)

/-- An exchange stands where its request has led it. -/
inductive Came (cfg : Config τ) (txns : List LedgerTxn) (x : Exchange τ) : Prop
  | denied {d : Denial}
      (chain : filterChain cfg.jwt x.arrived x.request.bearer x.request.path = .error d)
      (principal : x.principal = none) (correlationId : x.correlationId = none)
      (progress : x.progress = .answered none d.answer)
  | passed {id : String}
      (chain : filterChain cfg.jwt x.arrived x.request.bearer x.request.path = .ok x.principal)
      (correlationId : x.correlationId = some id) (stands : Stands cfg txns x id)

/-- Transactions keep their calls, and finished ones their outcomes. -/
def Later (txns txns' : List LedgerTxn) : Prop :=
  ∀ (k : Nat) (t : LedgerTxn), txns[k]? = some t →
    ∃ t', txns'[k]? = some t' ∧ t'.call = t.call ∧ (t.status ≠ .active → t' = t)

theorem Later.refl (txns : List LedgerTxn) : Later txns txns :=
  fun _ t ht => ⟨t, ht, rfl, fun _ => rfl⟩

theorem later_put {l : LedgerState} {n : Nat} {t u : LedgerTxn} (get : l.txns[n]? = some t)
    (active : t.status = .active) (call : u.call = t.call) : Later l.txns (l.put n u).txns := by
  intro k v hv
  by_cases hk : k = n
  · subst hk
    rw [get] at hv
    cases hv
    refine ⟨u, ?_, call, fun hne => absurd active hne⟩
    rw [State.put, List.getElem?_set_self (List.getElem?_eq_some_iff.mp get).1]
  · refine ⟨v, ?_, rfl, fun _ => rfl⟩
    rw [State.put, List.getElem?_set_ne (Ne.symm hk), hv]

theorem later_of_step {rules : ComplianceRules} {a : LedgerAct} {l l' : LedgerState}
    (h : ledgerStep rules a l = some l') : Later l.txns l'.txns := by
  cases step_cases h with
  | begin c =>
    intro k t ht
    refine ⟨t, ?_, rfl, fun _ => rfl⟩
    rw [List.getElem?_append_left (List.getElem?_eq_some_iff.mp ht).1, ht]
  | stmt get exec free => exact later_put get rfl rfl
  | commit get => exact later_put (l := l) get rfl rfl
  | stop get active => exact later_put get active rfl

theorem outcome_finished {t : LedgerTxn} {a : Answer τ} (h : outcome t = some a) :
    t.status ≠ .active := by
  intro hactive
  unfold outcome at h
  rw [hactive] at h
  cases h

theorem outcome_cases {t : LedgerTxn} {a : Answer τ} (h : outcome t = some a) :
    (t.status = .committed ∧ ∃ r, t.rest = .ret r ∧ a = reply r) ∨
      (t.status = .aborted ∧ a = ⟨500, .none⟩) := by
  unfold outcome at h
  split at h
  · rename_i r hstatus hrest
    cases h
    exact .inl ⟨hstatus, r, hrest, rfl⟩
  · rename_i hstatus
    cases h
    exact .inr ⟨hstatus, rfl⟩
  · cases h

theorem Came.later {cfg : Config τ} {txns txns' : List LedgerTxn} {x : Exchange τ}
    (h : Came cfg txns x) (hl : Later txns txns') : Came cfg txns' x := by
  cases h with
  | denied chain principal correlationId progress =>
    exact .denied chain principal correlationId progress
  | passed chain correlationId stands =>
    refine .passed chain correlationId ?_
    cases stands with
    | answered next progress => exact .answered next progress
    | reading next progress => exact .reading next progress
    | read next progress => exact .read next progress
    | checking next progress => exact .checking next progress
    | missing next progress => exact .missing next progress
    | serving next fits get call progress =>
      obtain ⟨t', get', call', -⟩ := hl _ _ get
      exact .serving next fits get' (call'.trans call) progress
    | served next fits get call progress answer =>
      obtain ⟨t', get', call', hfin⟩ := hl _ _ get
      exact .served next fits get' (call'.trans call) progress
        (hfin (outcome_finished answer) ▸ answer)

theorem came_receive (cfg : Config τ) (txns : List LedgerTxn) (r : Request τ) (w : Ambient) :
    Came cfg txns (receive cfg r w) := by
  unfold receive
  split
  · rename_i d hd
    exact .denied hd rfl rfl rfl
  · rename_i principal hp
    refine .passed hp rfl ?_
    cases hn : dispatch cfg (correlate r.correlationId w.uuid) w.clock r with
    | answer a => exact .answered hn (by dsimp only; rw [hn]; rfl)
    | read q => exact .reading hn (by dsimp only; rw [hn]; rfl)
    | serve accountId c => exact .checking hn (by dsimp only; rw [hn]; rfl)

/-- Every exchange stands where its request has led it, and every transaction
is that of one exchange. -/
structure Wired (cfg : Config τ) (s : App τ) : Prop where
  came : ∀ x ∈ s.exchanges, Came cfg s.ledger.txns x
  owner : ∀ k, k < s.ledger.txns.length →
    ∃ (n : Nat) (x : Exchange τ), s.exchanges[n]? = some x ∧ x.txn = some k
  single : ∀ (n m : Nat) (x y : Exchange τ) (k : Nat), s.exchanges[n]? = some x →
    s.exchanges[m]? = some y → x.txn = some k → y.txn = some k → n = m

/-- The controllers answer by themselves before there is a transaction. -/
theorem Came.txn_lt {cfg : Config τ} {txns : List LedgerTxn} {x : Exchange τ} {k : Nat}
    (h : Came cfg txns x) (hk : x.txn = some k) : k < txns.length := by
  unfold Exchange.txn at hk
  cases h with
  | denied chain principal correlationId progress =>
    rw [progress] at hk
    cases hk
  | passed chain correlationId stands =>
    cases stands with
    | serving next fits get call progress =>
      rw [progress] at hk
      cases hk
      exact (List.getElem?_eq_some_iff.mp get).1
    | served next fits get call progress answer =>
      rw [progress] at hk
      cases hk
      exact (List.getElem?_eq_some_iff.mp get).1
    | answered next progress | read next progress | missing next progress
    | reading next progress | checking next progress =>
      rw [progress] at hk
      cases hk

section Steps

variable {cfg : Config τ} {s : App τ}

/-- The parts of an exchange that stay. -/
structure Exchange.Same (x y : Exchange τ) : Prop where
  request : x.request = y.request
  arrived : x.arrived = y.arrived
  principal : x.principal = y.principal
  correlationId : x.correlationId = y.correlationId

/-- Where an exchange is from. -/
theorem mem_exchanges {a : Act τ} {s' : App τ} (hstep : Step cfg s a s') {y : Exchange τ}
    (hy : y ∈ s'.exchanges) :
    (∃ x ∈ s.exchanges, x.Same y) ∨ ∃ r w, a = .request r w ∧ y = receive cfg r w := by
  have hput : ∀ (n : Nat) (x : Exchange τ) (p : Progress τ), s.exchanges[n]? = some x →
      y ∈ (s.put n x p).exchanges → ∃ x ∈ s.exchanges, x.Same y := by
    intro n x p get hy
    obtain hy | rfl := List.mem_or_eq_of_mem_set hy
    · exact ⟨y, hy, rfl, rfl, rfl, rfl⟩
    · exact ⟨x, List.mem_of_getElem? get, rfl, rfl, rfl, rfl⟩
  cases hstep with
  | request r w =>
    obtain hy | hy := List.mem_append.mp hy
    · exact .inl ⟨y, hy, rfl, rfl, rfl, rfl⟩
    · exact .inr ⟨r, w, rfl, List.mem_singleton.mp hy⟩
  | read get progress => exact .inl (hput _ _ _ get hy)
  | missing get progress => exact .inl (hput _ _ _ get hy)
  | begin get progress known => exact .inl (hput _ _ _ get hy)
  | transaction later hledger => exact .inl ⟨y, hy, rfl, rfl, rfl, rfl⟩
  | reply get progress txn_get answer => exact .inl (hput _ _ _ get hy)

theorem getElem?_set_cases {α : Type} {xs : List α} {n m : Nat} {x y : α}
    (h : (xs.set n x)[m]? = some y) : (m = n ∧ y = x) ∨ (m ≠ n ∧ xs[m]? = some y) := by
  by_cases hmn : m = n
  · subst hmn
    have hlt : m < xs.length := by
      simpa using (List.getElem?_eq_some_iff.mp h).1
    rw [List.getElem?_set_self hlt] at h
    exact .inl ⟨rfl, (Option.some.inj h).symm⟩
  · rw [List.getElem?_set_ne (Ne.symm hmn)] at h
    exact .inr ⟨hmn, h⟩

/-- Who is served of an exchange that stays without a transaction. -/
theorem Wired.put (h : Wired cfg s) {n : Nat} {x : Exchange τ} {p : Progress τ}
    (get : s.exchanges[n]? = some x) (hp : ({ x with progress := p } : Exchange τ).txn = x.txn)
    (hcame : Came cfg s.ledger.txns { x with progress := p }) : Wired cfg (s.put n x p) := by
  have hlt := (List.getElem?_eq_some_iff.mp get).1
  refine ⟨fun y hy => ?_, fun k hk => ?_, fun m m' y y' k hy hy' hk hk' => ?_⟩
  · obtain hy | rfl := List.mem_or_eq_of_mem_set hy
    · exact h.came y hy
    · exact hcame
  · obtain ⟨m, y, hy, hyk⟩ := h.owner k hk
    by_cases hmn : m = n
    · subst hmn
      rw [get] at hy
      cases hy
      exact ⟨m, _, List.getElem?_set_self hlt, hp.trans hyk⟩
    · exact ⟨m, y, by rw [App.put, List.getElem?_set_ne (Ne.symm hmn), hy], hyk⟩
  · obtain ⟨rfl, rfl⟩ | ⟨hne, hold⟩ := getElem?_set_cases hy <;>
      obtain ⟨rfl, rfl⟩ | ⟨hne', hold'⟩ := getElem?_set_cases hy'
    · rfl
    · exact h.single _ _ _ _ k get hold' (hp.symm.trans hk) hk'
    · exact h.single _ _ _ _ k hold get hk (hp.symm.trans hk')
    · exact h.single _ _ _ _ k hold hold' hk hk'

theorem Wired.ledger (h : Wired cfg s) {ledger : LedgerState}
    (hl : Later s.ledger.txns ledger.txns) (hlen : ledger.txns.length = s.ledger.txns.length) :
    Wired cfg { s with ledger } :=
  ⟨fun x hx => (h.came x hx).later hl, fun k hk => h.owner k (hlen ▸ hk), h.single⟩

theorem length_of_later {rules : ComplianceRules} {a : LedgerAct} {l l' : LedgerState}
    (h : ledgerStep rules a l = some l') (later : ∀ c, a ≠ .begin c) :
    l'.txns.length = l.txns.length := by
  cases step_cases h with
  | begin c => exact absurd rfl (later c)
  | stmt get exec free => exact List.length_set ..
  | commit get => exact List.length_set ..
  | stop get active => exact List.length_set ..

/-- What a request checks next is what its dispatch says. -/
theorem Came.checking {txns : List LedgerTxn} {x : Exchange τ} {accountId : String} {c : Call}
    (h : Came cfg txns x) (hp : x.progress = .checking accountId c) :
    ∃ id, filterChain cfg.jwt x.arrived x.request.bearer x.request.path = .ok x.principal ∧
      x.correlationId = some id ∧
      dispatch cfg id x.arrived x.request = .serve accountId c := by
  cases h with
  | denied chain principal correlationId progress =>
    rw [progress] at hp
    cases hp
  | @passed id chain correlationId stands =>
    refine ⟨id, chain, correlationId, ?_⟩
    cases stands with
    | checking next progress =>
      rw [progress] at hp
      cases hp
      exact next
    | answered next progress | read next progress | missing next progress
    | reading next progress =>
      rw [progress] at hp
      cases hp
    | serving next fits get call progress =>
      rw [progress] at hp
      cases hp
    | served next fits get call progress answer =>
      rw [progress] at hp
      cases hp

theorem Came.reading {txns : List LedgerTxn} {x : Exchange τ} {q : Query}
    (h : Came cfg txns x) (hp : x.progress = .reading q) :
    ∃ id, filterChain cfg.jwt x.arrived x.request.bearer x.request.path = .ok x.principal ∧
      x.correlationId = some id ∧ dispatch cfg id x.arrived x.request = .read q := by
  cases h with
  | denied chain principal correlationId progress =>
    rw [progress] at hp
    cases hp
  | @passed id chain correlationId stands =>
    refine ⟨id, chain, correlationId, ?_⟩
    cases stands with
    | reading next progress =>
      rw [progress] at hp
      cases hp
      exact next
    | answered next progress | read next progress | missing next progress
    | checking next progress =>
      rw [progress] at hp
      cases hp
    | serving next fits get call progress =>
      rw [progress] at hp
      cases hp
    | served next fits get call progress answer =>
      rw [progress] at hp
      cases hp

/-- The transaction that an exchange waits for is that of its call. -/
theorem Came.serving {txns : List LedgerTxn} {x : Exchange τ} {k : Nat}
    (h : Came cfg txns x) (hp : x.txn = some k) :
    ∃ id accountId t, filterChain cfg.jwt x.arrived x.request.bearer x.request.path =
        .ok x.principal ∧ x.correlationId = some id ∧ accountId.length ≤ 64 ∧
      txns[k]? = some t ∧ dispatch cfg id x.arrived x.request = .serve accountId t.call := by
  unfold Exchange.txn at hp
  cases h with
  | denied chain principal correlationId progress =>
    rw [progress] at hp
    cases hp
  | @passed id chain correlationId stands =>
    cases stands with
    | @serving accountId c k t next fits get call progress =>
      rw [progress] at hp
      cases hp
      exact ⟨id, accountId, t, chain, correlationId, fits, get, by rw [call]; exact next⟩
    | @served accountId c k t a next fits get call progress answer =>
      rw [progress] at hp
      cases hp
      exact ⟨id, accountId, t, chain, correlationId, fits, get, by rw [call]; exact next⟩
    | answered next progress | read next progress | missing next progress
    | reading next progress | checking next progress =>
      rw [progress] at hp
      cases hp

/-- How an answer has come about. -/
theorem Came.answered {txns : List LedgerTxn} {x : Exchange τ} {k : Option Nat} {a : Answer τ}
    (h : Came cfg txns x) (hp : x.progress = .answered k a) :
    (k = none ∧ a.IsLocal) ∨
      (∃ q db id, k = none ∧ filterChain cfg.jwt x.arrived x.request.bearer x.request.path =
        .ok x.principal ∧ dispatch cfg id x.arrived x.request = .read q ∧
        a = ⟨200, q.run cfg.database db⟩) ∨
      ∃ j t, k = some j ∧ txns[j]? = some t ∧ outcome t = some a := by
  cases h with
  | @denied d chain principal correlationId progress =>
    rw [progress] at hp
    cases hp
    exact .inl ⟨rfl, by cases d <;> exact ⟨rfl, nofun⟩⟩
  | @passed id chain correlationId stands =>
    cases stands with
    | answered next progress =>
      rw [progress] at hp
      cases hp
      exact .inl ⟨rfl, dispatch_isLocal next⟩
    | missing next progress =>
      rw [progress] at hp
      cases hp
      exact .inl ⟨rfl, rfl, nofun⟩
    | @read q db next progress =>
      rw [progress] at hp
      cases hp
      exact .inr (.inl ⟨q, db, id, rfl, chain, next, rfl⟩)
    | @served accountId c j t a next fits get call progress answer =>
      rw [progress] at hp
      cases hp
      exact .inr (.inr ⟨j, t, rfl, get, answer⟩)
    | reading next progress | checking next progress | serving next fits get call progress =>
      rw [progress] at hp
      cases hp

theorem Wired.step {a : Act τ} {s' : App τ} (h : Wired cfg s) (hstep : Step cfg s a s') :
    Wired cfg s' := by
  cases hstep with
  | request r w =>
    have hnew : (receive cfg r w).txn = none := by
      cases hk : (receive cfg r w).txn with
      | none => rfl
      | some k => exact absurd ((came_receive cfg [] r w).txn_lt hk) (Nat.not_lt_zero k)
    have hcases : ∀ (n : Nat) (x : Exchange τ) (k : Nat),
        (s.exchanges ++ [receive cfg r w])[n]? = some x → x.txn = some k →
          s.exchanges[n]? = some x := by
      intro n x k hx hk
      obtain hlt | hle := Nat.lt_or_ge n s.exchanges.length
      · rwa [List.getElem?_append_left hlt] at hx
      · rw [List.getElem?_append_right hle] at hx
        obtain rfl := List.mem_singleton.mp (List.mem_of_getElem? hx)
        rw [hnew] at hk
        cases hk
    refine ⟨fun x hx => ?_, fun k hk => ?_, fun n m x y k hx hy hxk hyk => ?_⟩
    · obtain hx | hx := List.mem_append.mp hx
      · exact h.came x hx
      · rw [List.mem_singleton.mp hx]
        exact came_receive cfg _ r w
    · obtain ⟨n, x, hx, hxk⟩ := h.owner k hk
      exact ⟨n, x, by rw [List.getElem?_append_left (List.getElem?_eq_some_iff.mp hx).1, hx], hxk⟩
    · exact h.single n m x y k (hcases _ _ _ hx hxk) (hcases _ _ _ hy hyk) hxk hyk
  | @read n x q get progress =>
    obtain ⟨id, chain, correlationId, next⟩ :=
      (h.came x (List.mem_of_getElem? get)).reading progress
    refine h.put get ?_ (.passed chain correlationId (.read next rfl))
    unfold Exchange.txn
    rw [progress]
  | @missing n x accountId c get progress =>
    obtain ⟨id, chain, correlationId, next⟩ :=
      (h.came x (List.mem_of_getElem? get)).checking progress
    refine h.put get ?_ (.passed chain correlationId (.missing next rfl))
    unfold Exchange.txn
    rw [progress]
  | @begin n x accountId c get progress known =>
    obtain ⟨id, chain, correlationId, next⟩ :=
      (h.came x (List.mem_of_getElem? get)).checking progress
    obtain ⟨cash, hcash⟩ := Option.ne_none_iff_exists'.mp known
    have hx : x.txn = none := by
      unfold Exchange.txn
      rw [progress]
    have hlt := (List.getElem?_eq_some_iff.mp get).1
    have hlater : Later s.ledger.txns
        (s.ledger.txns ++ [⟨c, [], service cfg.rules c, .active⟩]) := fun k t ht =>
      ⟨t, by rw [List.getElem?_append_left (List.getElem?_eq_some_iff.mp ht).1, ht], rfl,
        fun _ => rfl⟩
    have hnew : (s.ledger.txns ++ [⟨c, [], service cfg.rules c, .active⟩])[s.ledger.txns.length]? =
        some (⟨c, [], service cfg.rules c, .active⟩ : LedgerTxn) := by
      rw [List.getElem?_append_right (Nat.le_refl _), Nat.sub_self]
      rfl
    have hold : ∀ (m : Nat) (y : Exchange τ), s.exchanges[m]? = some y →
        y.txn ≠ some s.ledger.txns.length := fun m y hy hk =>
      absurd ((h.came y (List.mem_of_getElem? hy)).txn_lt hk) (Nat.lt_irrefl _)
    refine ⟨fun y hy => ?_, fun k hk => ?_, fun m m' y y' k hy hy' hk hk' => ?_⟩
    · obtain hy | rfl := List.mem_or_eq_of_mem_set hy
      · exact (h.came y hy).later hlater
      · exact .passed chain correlationId
          (.serving next (length_of_getCash hcash) hnew rfl rfl)
    · rw [List.length_append, List.length_singleton] at hk
      obtain hk | rfl := Nat.lt_succ_iff_lt_or_eq.mp hk
      · obtain ⟨m, y, hy, hyk⟩ := h.owner k hk
        have hmn : m ≠ n := by
          rintro rfl
          rw [get] at hy
          cases hy
          rw [hx] at hyk
          cases hyk
        exact ⟨m, y, by rw [App.put, List.getElem?_set_ne (Ne.symm hmn), hy], hyk⟩
      · exact ⟨n, _, List.getElem?_set_self hlt, rfl⟩
    · obtain ⟨rfl, rfl⟩ | ⟨hne, hold₁⟩ := getElem?_set_cases hy <;>
        obtain ⟨rfl, rfl⟩ | ⟨hne', hold₂⟩ := getElem?_set_cases hy'
      · rfl
      · cases hk
        exact absurd hk' (hold _ _ hold₂)
      · cases hk'
        exact absurd hk (hold _ _ hold₁)
      · exact h.single _ _ _ _ k hold₁ hold₂ hk hk'
  | transaction later hledger =>
    exact h.ledger (later_of_step hledger) (length_of_later hledger later)
  | @reply n txn x t a get progress txn_get answer =>
    obtain ⟨id, accountId, t', chain, correlationId, fits, get', next⟩ :=
      (h.came x (List.mem_of_getElem? get)).serving (k := txn) (by
        unfold Exchange.txn
        rw [progress])
    cases txn_get.symm.trans get'
    refine h.put get ?_ (.passed chain correlationId (.served next fits get' rfl rfl answer))
    unfold Exchange.txn
    rw [progress]

end Steps

theorem wired_of_reach {cfg : Config τ} {ok : App τ → Act τ → Prop} {P : Db → Prop} {s : App τ}
    (h : Reach (step cfg) ok (start P) s) : Wired cfg s := by
  refine h.invariant (fun s hs => ?_) fun s a s' hs _ hstep => hs.step (step_inv hstep)
  obtain ⟨⟨-, htxns⟩, hexchanges⟩ := hs
  refine ⟨?_, ?_, ?_⟩
  · rw [hexchanges]
    exact fun x hx => absurd hx List.not_mem_nil
  · rw [htxns]
    exact fun k hk => absurd hk (Nat.not_lt_zero k)
  · rw [hexchanges]
    intro n m x y k hx
    cases hx

/-- The transactions are those of a run of the ledger. -/
theorem ledger_of_reach {cfg : Config τ} {ok : App τ → Act τ → Prop}
    {okl : LedgerState → LedgerAct → Prop} {P : Db → Prop}
    (hbegin : ∀ s n x accountId c, Reach (step cfg) ok (start P) s → ok s (.proceed n) →
      s.exchanges[n]? = some x → x.progress = .checking accountId c → okl s.ledger (.begin c))
    (hlater : ∀ s a, (∀ c, a ≠ .begin c) → ok s (.transaction a) → okl s.ledger a) {s : App τ}
    (h : Reach (step cfg) ok (start P) s) :
    Reach (ledgerStep cfg.rules) okl (initial P) s.ledger := by
  induction h with
  | init h => exact .init h.1
  | @step s s' a hs ha hstep ih =>
    cases a with
    | transaction a =>
      have later : ∀ c, a ≠ .begin c := by
        rintro c rfl
        cases hstep
      cases a with
      | begin c => cases hstep
      | stmt n w =>
        obtain ⟨ledger, hledger, rfl⟩ := Option.map_eq_some_iff.mp hstep
        exact ih.step (hlater _ _ later ha) hledger
      | commit n =>
        obtain ⟨ledger, hledger, rfl⟩ := Option.map_eq_some_iff.mp hstep
        exact ih.step (hlater _ _ later ha) hledger
      | abort n =>
        obtain ⟨ledger, hledger, rfl⟩ := Option.map_eq_some_iff.mp hstep
        exact ih.step (hlater _ _ later ha) hledger
    | request r w =>
      cases hstep
      exact ih
    | proceed n =>
      obtain ⟨x, get, hstep⟩ := Option.bind_eq_some_iff.mp hstep
      split at hstep
      · cases hstep
        exact ih
      · rename_i accountId c hc
        unfold serve at hstep
        split at hstep
        · cases hstep
          exact ih
        · obtain ⟨ledger, hledger, rfl⟩ := Option.map_eq_some_iff.mp hstep
          exact ih.step (hbegin s n x accountId c hs ha get hc) hledger
      · cases hstep
    | reply n =>
      obtain ⟨x, get, hstep⟩ := Option.bind_eq_some_iff.mp hstep
      split at hstep
      · obtain ⟨t, -, hstep⟩ := Option.bind_eq_some_iff.mp hstep
        obtain ⟨a, -, hstep⟩ := Option.bind_eq_some_iff.mp hstep
        cases hstep
        exact ih
      · cases hstep

/-! ## One request after the other -/

/-- What reaches the service has passed its controller's validation. -/
theorem Orders.valid {r : Request τ} {accountId : String} {c : Call} (h : Orders r accountId c) :
    c.Valid := by
  cases h with
  | trade method path sent valid => exact validate_iff.mp ⟨_, valid⟩
  | credit method path sent positive => exact positive

/-- No transaction begins while another is active. -/
def OneByOne (s : App τ) : Act τ → Prop
  | .proceed _ => ∀ t ∈ s.ledger.txns, t.status ≠ .active
  | _ => True

/-- The ledger sees one validated call after the other. -/
theorem ledger_serial {cfg : Config τ} {P : Db → Prop} {s : App τ}
    (h : Reach (step cfg) OneByOne (start P) s) :
    Reach (ledgerStep cfg.rules) serialCalls (initial P) s.ledger := by
  refine ledger_of_reach (fun s n x accountId c hs ha get hc => ?_) (fun s a ha _ => ?_) h
  · obtain ⟨id, -, -, hnext⟩ := ((wired_of_reach hs).came x (List.mem_of_getElem? get)).checking hc
    exact ⟨(dispatch_serve hnext).1.valid, ha⟩
  · cases a with
    | begin c => exact absurd rfl (ha c)
    | stmt n w | commit n | abort n => trivial

/-- Over HTTP, too, a balance is apart from the journal by a stored unit for
each tied purchase. -/
theorem cash_over_http {cfg : Config τ} {db₀ : Db} (hjournal : db₀.journal_lines = [])
    (hcash : ∀ a ∈ db₀.accounts, 0 ≤ a.cash_balance.toRat) {i : String} (hs : i ≠ "securities")
    (hf : i ≠ "funding") {s : App τ} (h : Reach (step cfg) OneByOne (start (· = db₀)) s) :
    CashBooks db₀ i s.ledger :=
  books hjournal hcash hs hf (ledger_serial h)

/-! ## A run -/

/-- A library whose tokens are their claims. -/
def plainJwt : JwtLibrary Claims where
  encode c := c
  decode now c := if now ≤ c.expiresAt + CLOCK_SKEW then some c else none

theorem plainJwt_documented : plainJwt.Documented where
  reads now c d h := by
    simp only [plainJwt] at h
    split at h
    · rename_i hexpiry
      cases h
      exact ⟨rfl, rfl, hexpiry⟩
    · cases h
  accepts now c h := by
    have hexpiry : now ≤ c.expiresAt + CLOCK_SKEW :=
      Int.le_trans h (Int.le_add_of_nonneg_right (by decide))
    simp [plainJwt, hexpiry]

def demo : Config Claims where
  rules := ⟨100⟩
  passwords := ⟨"trader-pw", "viewer-pw", "compliance-pw", "admin-pw"⟩
  jwt := plainJwt
  ttlSeconds := 3600
  database := ⟨fun p q => p / q, fun a b => a ≤ b⟩

def noBody : Body := ⟨none, none, none⟩

def loginAs (username password : String) : Request Claims :=
  ⟨.POST, ["auth", "login"], none, none, { noBody with login := some ⟨username, password⟩ }, none,
    none⟩

/-- The token of a login at 0. -/
def tokenOf (username role : String) : Claims := mint demo.jwt demo.ttlSeconds 0 username role

def creditOf (token : Claims) (amount : BigDecimal) : Request Claims :=
  ⟨.POST, ["admin", "accounts", "A", "credit"], some token, none,
    { noBody with credit := some ⟨some amount, none⟩ }, none, none⟩

def tradeOf (token : Claims) (correlationId : Option String) (request : Nat)
    (quantity price : BigDecimal) : Request Claims :=
  ⟨.POST, ["trades"], some token, correlationId, { noBody with
    trade := some ⟨some (uuid request), some "A", some "X", some "BUY", some quantity, some price,
      none⟩ }, none, none⟩

def getAudit (token : Claims) : Request Claims :=
  ⟨.GET, ["audit"], some token, none, noBody, none, none⟩

/-- Two logins, a trader's credit that is refused, the administrator's, and a trade. -/
def daily : List (Act Claims) :=
  [.request (loginAs "admin" "admin-pw") ⟨uuid 900, 0⟩,
    .request (loginAs "demo_trader" "trader-pw") ⟨uuid 901, 0⟩,
    .request (creditOf (tokenOf "demo_trader" "trader") 5) ⟨uuid 902, seconds 1⟩,
    .request (creditOf (tokenOf "admin" "admin") 5) ⟨uuid 903, seconds 2⟩,
    .request (tradeOf (tokenOf "demo_trader" "trader") (some "c") 1 2 10) ⟨uuid 904, seconds 3⟩,
    .proceed 3, .proceed 4] ++ (stmts 1 16 100 0).map .transaction ++
  [.transaction (.commit 1)] ++ (stmts 0 10 140 0).map .transaction ++
  [.transaction (.commit 0), .reply 3, .reply 4, .request (getAudit (tokenOf "admin" "admin")) ⟨uuid 905, seconds 4⟩,
    .proceed 5]

end TradePulse.Ledger.Web
