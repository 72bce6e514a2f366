import TradePulse.Risk.Exact
import TradePulse.Risk.Windows

/-! # Entries of any shape

An entry's `event` may be any text. What parses to nothing, or lacks a key the
guards ask for, is acknowledged and changes nothing. What passes the guards
goes through float conversions and SQLite bindings that the guards do not
foresee, that of the window's limit among them: one that raises leaves the
entry pending, and a tick may by then be in one table and not in the other. -/
namespace TradePulse.Risk
open TradePulse.Core TradePulse.Core.Process

variable {F : Type} [PyFloat F]

/-! ## Passes over single entries -/

/-- The loops over the entries of a reply. -/
inductive Pass where
  | drainLedger
  | reclaimLedger
  | refreshPrices
  deriving DecidableEq

namespace Pass

def stream : Pass → StreamName
  | .drainLedger | .reclaimLedger => .ledger
  | .refreshPrices => .ticks

section

variable (loads : String → Except PyError (Json F)) (config : Config F)

/-- The loop of the pass, over these entries, from a count on. -/
def take : Pass → List (Nat × Fields) → Int → RiskM F Int
  | .drainLedger => drainEntries loads config
  | .reclaimLedger => reclaimEntries loads config
  | .refreshPrices => refreshTicks loads config

/-- Its body up to the `XACK`; what it answers is counted. -/
def handle : Pass → Fields → RiskM F Bool
  | .drainLedger, fields | .reclaimLedger, fields => handleLedger loads config fields
  | .refreshPrices, fields => (fun _ => true) <$> handleTick loads config fields

end

def count : Pass → Bool → Int → Int
  | .drainLedger, sent, n => if sent then n + 1 else n
  | .reclaimLedger, _, n | .refreshPrices, _, n => n + 1

variable {loads : String → Except PyError (Json F)} {config : Config F}

theorem take_cons (pass : Pass) (id : Nat) (fields : Fields) (rest : List (Nat × Fields)) (n : Int) :
    pass.take loads config ((id, fields) :: rest) n = (do
      let sent ← pass.handle loads config fields
      Prog.perform (RiskCall.xack pass.stream id)
      pass.take loads config rest (pass.count sent n)) := by
  cases pass with
  | drainLedger => rfl
  | reclaimLedger => rfl
  | refreshPrices =>
    rw [handle, Prog.map_bind]
    rfl

theorem take_nil (pass : Pass) (n : Int) : pass.take loads config [] n = .ret n := by
  cases pass <;> rfl

end Pass

/-! ## The property -/

/-- `data or {}`. -/
def payload (env : Json F) : Json F := (env.field "data").or (.obj [])

/-- The ledger event that an envelope carries. -/
def carried (env : Json F) : RiskStore.LedgerEvent F where
  event_id := env.field "event_id"
  account_id := (payload env).field "account_id"
  symbol := (payload env).field "symbol"
  side := (payload env).field "side"
  quantity := ((payload env).field "quantity").asFloat.toOption.join
  price := ((payload env).field "price").asFloat.toOption.join
  cash_delta := ((payload env).field "cash_delta").number
  position_after := ((payload env).field "position_after").number
  correlation_id := env.field "correlation_id"
  posted_at := (payload env).field "posted_at"

/-- The event an envelope carries is in `applied_events`. -/
def EventRecorded (env : Json F) (s : RiskStore F) : Prop :=
  ∃ row, (carried env).row = .ok (some row) ∧ row ∈ s.applied_events

/-- The tick an envelope carries is in both price tables. -/
def TickRecorded (env : Json F) (s : RiskStore F) : Prop :=
  ∃ y p t, ((payload env).field "symbol").bindText = .ok (some y) ∧
    ((payload env).field "price").toFloat = .ok p ∧
    ((payload env).field "tick_time").bindText = .ok t ∧
    (some y, p) ∈ s.price_cache ∧ ⟨y, p, t⟩ ∈ s.price_history

def Pass.Recorded : Pass → Json F → RiskStore F → Prop
  | .drainLedger, env, s | .reclaimLedger, env, s => EventRecorded env s
  | .refreshPrices, env, s => TickRecorded env s

/-- The entry does not wedge the worker: taking it up does not raise, it is
acknowledged, and its effect is all or nothing. -/
structure Handled (pass : Pass) (env : Json F) (id : Nat) (w : RiskWorld F)
    (r : Except PyError Int) (w' : RiskWorld F) : Prop where
  returns : ∃ n, r = .ok n
  acked : id ∈ (w'.group pass.stream).acked ∧ (w'.group pass.stream).pending id = none
  effect : w'.store = w.store ∨ pass.Recorded env w'.store

/-! ## What fits -/

/-- An object, and its `data` an object or a falsy value. -/
def Shaped (env : Json F) : Prop :=
  (∃ kvs, env = .obj kvs) ∧ ((env.field "data").truthy = false ∨ ∃ kvs, env.field "data" = .obj kvs)

/-- A tick whose symbol is given is of a price that does not overflow; and one
whose price is a number has values that the columns take, and a window whose
limit is an integer of SQLite. -/
structure TickFits (config : Config F) (env : Json F) : Prop where
  shaped : Shaped env
  overflow : ((payload env).field "symbol").truthy = true →
    ((payload env).field "price").toFloat ≠ .error .OverflowError
  columns : ((payload env).field "symbol").truthy = true →
    ∀ p, ((payload env).field "price").toFloat = .ok p → PyFloat.isNaN p = false ∧
      (∃ y, ((payload env).field "symbol").bindText = .ok (some y)) ∧
      ∃ t, ((payload env).field "tick_time").bindText = .ok t
  window : ((payload env).field "symbol").truthy = true →
    ∀ p, ((payload env).field "price").toFloat = .ok p → config.window_size < 2 ^ 63 - 1

/-- No key that the guards ask for is missing. -/
structure Complete (env : Json F) : Prop where
  event_id : (env.field "event_id").truthy = true
  account_id : ((payload env).field "account_id").truthy = true
  symbol : ((payload env).field "symbol").truthy = true
  cash_delta : (payload env).field "cash_delta" ≠ .null
  position_after : (payload env).field "position_after" ≠ .null

/-- What SQLite is given for the `TEXT` columns. -/
def RiskStore.LedgerEvent.texts (e : RiskStore.LedgerEvent F) : List (Json F) :=
  [e.event_id, e.account_id, e.symbol, e.side, e.correlation_id, e.posted_at]

/-- The numbers of the envelope convert, its texts bind, and with the event
counted the account has metrics. -/
structure Postable (config : Config F) (s : RiskStore F) (env : Json F) : Prop where
  quantity : ((payload env).field "quantity").toFloat ≠ .error .OverflowError
  price : ((payload env).field "price").toFloat ≠ .error .OverflowError
  cash_delta : ∃ x, ((payload env).field "cash_delta").toFloat = .ok x
  position_after : ∃ x, ((payload env).field "position_after").toFloat = .ok x
  texts : ∀ v ∈ (carried env).texts, ∃ t, v.bindText = .ok t
  valued : ∀ row, (carried env).row = .ok (some row) → s.IsNew row →
    Valued config (s.withRow row) ((payload env).field "account_id")

structure LedgerFits (config : Config F) (s : RiskStore F) (env : Json F) : Prop where
  shaped : Shaped env
  postable : Complete env → Postable config s env

def Pass.Fits (config : Config F) : Pass → RiskStore F → Json F → Prop
  | .drainLedger, s, env | .reclaimLedger, s, env => LedgerFits config s env
  | .refreshPrices, _, env => TickFits config env

/-- The entry parses to nothing, or to an envelope that fits. -/
def EntryFits (loads : String → Except PyError (Json F)) (config : Config F) (pass : Pass)
    (s : RiskStore F) (fields : Fields) : Prop :=
  ∃ env, parseEvent loads fields = .ok env ∧ (env = .null ∨ pass.Fits config s env)

/-! ## Reading an envelope -/

section Read

variable {env x : Json F}

omit [PyFloat F] in
theorem get_of_obj (h : ∃ kvs, x = .obj kvs) (key : String) : x.get key = .ok (x.field key) := by
  obtain ⟨kvs, rfl⟩ := h
  rfl

omit [PyFloat F] in
theorem get_error (h : ¬ ∃ kvs, x = .obj kvs) (key : String) :
    x.get key = .error .AttributeError := by
  cases x with
  | obj kvs => exact absurd ⟨kvs, rfl⟩ h
  | _ => rfl

theorem shaped_iff : Shaped env ↔ (∃ kvs, env = .obj kvs) ∧ ∃ kvs, payload env = .obj kvs := by
  refine and_congr_right fun _ => ?_
  rw [payload, Json.or]
  constructor
  · rintro (h | ⟨kvs, h⟩)
    · exact ⟨[], by rw [if_neg (by rw [h]; nofun)]⟩
    · split
      · exact ⟨kvs, h⟩
      · exact ⟨[], rfl⟩
  · intro h
    split at h
    · exact .inr h
    · exact .inl (Bool.eq_false_iff.mpr ‹_›)

theorem Shaped.get (h : Shaped env) (key : String) : env.get key = .ok (env.field key) :=
  get_of_obj h.1 key

theorem Shaped.payload_get (h : Shaped env) (key : String) :
    ((env.field "data").or (.obj [])).get key = .ok ((payload env).field key) :=
  get_of_obj (shaped_iff.mp h).2 key

/-- What is misshapen has no attribute `get`, somewhere. -/
theorem misshapen (h : ¬ Shaped env) : (∀ key, env.get key = .error .AttributeError) ∨
    (∀ key, env.get key = .ok (env.field key)) ∧
      ∀ key, ((env.field "data").or (.obj [])).get key = .error .AttributeError := by
  by_cases hobj : ∃ kvs, env = .obj kvs
  · exact .inr ⟨get_of_obj hobj, get_error fun hp => h (shaped_iff.mpr ⟨hobj, hp⟩)⟩
  · exact .inl (get_error hobj)

/-! Conversions to float. -/

theorem asFloat_ok (h : x.toFloat ≠ .error .OverflowError) : ∃ o, x.asFloat = .ok o := by
  cases x with
  | int n =>
    cases hn : PyFloat.ofInt (F := F) n with
    | some y => exact ⟨some y, by simp only [Json.asFloat, Json.toFloat, hn]⟩
    | none => exact absurd (by simp only [Json.toFloat, hn]) h
  | str s =>
    cases hs : PyFloat.ofString (F := F) s with
    | some y => exact ⟨some y, by simp only [Json.asFloat, Json.toFloat, hs]⟩
    | none => exact ⟨none, by simp only [Json.asFloat, Json.toFloat, hs]⟩
  | _ => exact ⟨_, rfl⟩

theorem asFloat_error (h : x.toFloat = .error .OverflowError) :
    x.asFloat = .error .OverflowError := by
  cases x with
  | null => cases h
  | _ => simp only [Json.asFloat, h]

theorem tickPrice_some {p : F} (h : x.toFloat = .ok p) : tickPrice x = .ok (some p) := by
  rw [tickPrice, h]

theorem tickPrice_error (h : x.toFloat = .error .OverflowError) :
    tickPrice x = .error .OverflowError := by
  rw [tickPrice, h]

theorem toFloat_cases (x : Json F) : (∃ p, x.toFloat = .ok p) ∨
    x.toFloat = .error .OverflowError ∨ tickPrice x = .ok none := by
  cases x with
  | int n =>
    cases hn : PyFloat.ofInt (F := F) n with
    | some y => exact .inl ⟨y, by simp only [Json.toFloat, hn]⟩
    | none => exact .inr (.inl (by simp only [Json.toFloat, hn]))
  | str s =>
    cases hs : PyFloat.ofString (F := F) s with
    | some y => exact .inl ⟨y, by simp only [Json.toFloat, hs]⟩
    | none => exact .inr (.inr (by simp only [tickPrice, Json.toFloat, hs]))
  | bool b => exact .inl ⟨_, rfl⟩
  | float y => exact .inl ⟨_, rfl⟩
  | _ => exact .inr (.inr rfl)

end Read

/-! ## What an envelope amounts to -/

section Amounts

variable {env : Json F}

theorem ledgerEvent_misshapen (h : ¬ Shaped env) : ∃ e, ledgerEvent env = .error e := by
  refine ⟨.AttributeError, ?_⟩
  rcases misshapen h with henv | ⟨henv, hdata⟩
  · simp only [ledgerEvent, bind, Except.bind, henv]
  · simp only [ledgerEvent, bind, Except.bind, henv, hdata]

/-- A missing key is guarded against. -/
theorem ledgerEvent_incomplete (hs : Shaped env) (hc : ¬ Complete env) :
    ledgerEvent env = .ok none := by
  simp only [ledgerEvent, bind, Except.bind, hs.get, hs.payload_get]
  split
  · rfl
  · rename_i htruthy
    simp only [Bool.or_eq_true, Bool.not_eq_true', not_or, Bool.not_eq_false] at htruthy
    obtain ⟨⟨hid, hacc⟩, hsym⟩ := htruthy
    split
    · rfl
    · rfl
    · rename_i hcash hpos
      exact absurd ⟨hid, hacc, hsym, hcash, hpos⟩ hc

/-- A complete envelope is the event it carries, as far as its numbers convert. -/
theorem ledgerEvent_complete (hs : Shaped env) (hc : Complete env) : ledgerEvent env = (do
    let quantity ← ((payload env).field "quantity").asFloat
    let price ← ((payload env).field "price").asFloat
    let cash_delta ← ((payload env).field "cash_delta").toFloat
    let position_after ← ((payload env).field "position_after").toFloat
    return some { carried env with quantity, price, cash_delta, position_after }) := by
  simp only [ledgerEvent, bind, Except.bind, hs.get, hs.payload_get, hc.event_id, hc.account_id,
    hc.symbol, Bool.not_true, Bool.or_self, Bool.false_eq_true, if_false]
  split
  · exact absurd ‹_› hc.cash_delta
  · exact absurd ‹_› hc.position_after
  · rfl

theorem ledgerEvent_carried (hs : Shaped env) (hc : Complete env)
    (hq : ((payload env).field "quantity").toFloat ≠ .error .OverflowError)
    (hp : ((payload env).field "price").toFloat ≠ .error .OverflowError)
    (hcash : ∃ x, ((payload env).field "cash_delta").toFloat = .ok x)
    (hpos : ∃ x, ((payload env).field "position_after").toFloat = .ok x) :
    ledgerEvent env = .ok (some (carried env)) := by
  obtain ⟨q, hq⟩ := asFloat_ok hq
  obtain ⟨p, hp⟩ := asFloat_ok hp
  obtain ⟨c, hcash⟩ := hcash
  obtain ⟨a, hpos⟩ := hpos
  rw [ledgerEvent_complete hs hc, hq, hp, hcash, hpos]
  simp only [bind, Except.bind, pure, Except.pure, carried, hq, hp, hcash, hpos, Json.number,
    Except.toOption, Option.join_some, Option.getD_some]

/-- A number that does not convert raises. -/
theorem ledgerEvent_error (hs : Shaped env) (hc : Complete env)
    (h : ¬ (((payload env).field "quantity").toFloat ≠ .error .OverflowError ∧
      ((payload env).field "price").toFloat ≠ .error .OverflowError ∧
      (∃ x, ((payload env).field "cash_delta").toFloat = .ok x) ∧
      ∃ x, ((payload env).field "position_after").toFloat = .ok x)) :
    ∃ e, ledgerEvent env = .error e := by
  rw [ledgerEvent_complete hs hc]
  by_cases hq : ((payload env).field "quantity").toFloat = .error .OverflowError
  · exact ⟨_, by rw [asFloat_error hq]; rfl⟩
  obtain ⟨q, hq'⟩ := asFloat_ok hq
  by_cases hp : ((payload env).field "price").toFloat = .error .OverflowError
  · exact ⟨_, by rw [hq', asFloat_error hp]; rfl⟩
  obtain ⟨p, hp'⟩ := asFloat_ok hp
  rw [hq', hp']
  cases hcash : ((payload env).field "cash_delta").toFloat with
  | error e => exact ⟨e, rfl⟩
  | ok c =>
    cases hpos : ((payload env).field "position_after").toFloat with
    | error e => exact ⟨e, rfl⟩
    | ok a => exact absurd ⟨hq, hp, ⟨c, hcash⟩, ⟨a, hpos⟩⟩ h

/-- The row of an event can be built if and only if its texts bind. -/
theorem row_ok_iff (e : RiskStore.LedgerEvent F) :
    (∃ row?, e.row = .ok row?) ↔ ∀ v ∈ e.texts, ∃ t, v.bindText = .ok t := by
  simp only [RiskStore.LedgerEvent.texts, List.forall_mem_cons, List.not_mem_nil, false_implies,
    implies_true, and_true]
  constructor
  · rintro ⟨row?, h⟩
    obtain ⟨t₁, h₁, h⟩ := except_bind_ok.mp h
    obtain ⟨t₂, h₂, h⟩ := except_bind_ok.mp h
    obtain ⟨t₃, h₃, h⟩ := except_bind_ok.mp h
    obtain ⟨t₄, h₄, h⟩ := except_bind_ok.mp h
    obtain ⟨t₅, h₅, h⟩ := except_bind_ok.mp h
    obtain ⟨t₆, h₆, -⟩ := except_bind_ok.mp h
    exact ⟨⟨t₁, h₁⟩, ⟨t₂, h₂⟩, ⟨t₃, h₃⟩, ⟨t₄, h₄⟩, ⟨t₅, h₅⟩, t₆, h₆⟩
  · rintro ⟨⟨t₁, h₁⟩, ⟨t₂, h₂⟩, ⟨t₃, h₃⟩, ⟨t₄, h₄⟩, ⟨t₅, h₅⟩, t₆, h₆⟩
    simp only [RiskStore.LedgerEvent.row, h₁, h₂, h₃, h₄, h₅, h₆, bind, Except.bind]
    split <;> exact ⟨_, rfl⟩

/-! Ticks. -/

theorem tickOf_misshapen (h : ¬ Shaped env) : ∃ e, tickOf env = .error e := by
  refine ⟨.AttributeError, ?_⟩
  rcases misshapen h with henv | ⟨henv, hdata⟩
  · simp only [tickOf, bind, Except.bind, henv]
  · simp only [tickOf, bind, Except.bind, henv, hdata]

theorem tickOf_unnamed (hs : Shaped env) (h : ((payload env).field "symbol").truthy = false) :
    tickOf env = .ok none := by
  simp only [tickOf, bind, Except.bind, hs.get, hs.payload_get, h]
  rfl

theorem tickOf_named (hs : Shaped env) (h : ((payload env).field "symbol").truthy = true) :
    tickOf env = (do
      let some price ← tickPrice ((payload env).field "price") | return none
      return some ((payload env).field "symbol", price, (payload env).field "tick_time")) := by
  simp only [tickOf, bind, Except.bind, hs.get, hs.payload_get, h]
  cases (payload env).field "price" <;> rfl

end Amounts

/-! ## Taking up an entry -/

section Outcomes

variable {loads : String → Except PyError (Json F)} {config : Config F} {supply : Supply F}
  {w : RiskWorld F} {n : Nat} {env : Json F} {fields : Fields}

/-- What the rest of a program does to the streams. -/
structure SameGroups (w w' : RiskWorld F) : Prop where
  ledger : w'.ledger = w.ledger
  ticks : w'.ticks = w.ticks

/-- The body returned: the store is as before, or holds what the envelope carries. -/
def Returned (pass : Pass) (env : Json F) (w : RiskWorld F)
    (a : Except PyError Bool × (RiskWorld F × Nat)) : Prop :=
  ∃ sent w' n', a = (.ok sent, w', n') ∧ SameGroups w w' ∧
    (w'.store = w.store ∨ pass.Recorded env w'.store)

def Raised {α : Type} (a : Except PyError α × (RiskWorld F × Nat)) : Prop :=
  ∃ e w' n', a = (.error e, w', n')

/-! Ledger events. -/

theorem calmly_handleLedger (henv : parseEvent loads fields = .ok env) (hne : env ≠ .null) :
    calmly supply (handleLedger loads config fields) (w, n) =
      calmly supply (Prog.ofExcept (ledgerEvent env) >>= applyEntry config) (w, n) := by
  have hentry : entryEvent loads fields = ledgerEvent env := by
    rw [entryEvent, henv]
    cases env with
    | null => exact absurd rfl hne
    | _ => rfl
  rw [handleLedger_eq, hentry]

theorem ledger_returns (h : LedgerFits config w.store env) :
    Returned .drainLedger env w
      (calmly supply (Prog.ofExcept (ledgerEvent env) >>= applyEntry config) (w, n)) := by
  by_cases hc : Complete env
  · have hp := h.postable hc
    rw [ledgerEvent_carried h.shaped hc hp.quantity hp.price hp.cash_delta hp.position_after]
    obtain ⟨row?, hrow⟩ := (row_ok_iff (carried env)).mpr hp.texts
    change Returned .drainLedger env w (calmly supply (applyAndPublish config (carried env)) (w, n))
    cases row? with
    | none => exact ⟨false, w, n + 1, calmly_skip (apply_incomplete hrow), ⟨rfl, rfl⟩, .inl rfl⟩
    | some row =>
      by_cases hnew : w.store.IsNew row
      · obtain ⟨_, _, n', heval, -⟩ := calmly_announce hrow hnew (hp.valued row hrow hnew)
        exact ⟨true, _, n', heval, ⟨rfl, rfl⟩,
          .inr ⟨row, hrow, List.mem_append_right _ (List.mem_singleton_self row)⟩⟩
      · exact ⟨false, w, n + 1, calmly_skip (apply_known hrow hnew), ⟨rfl, rfl⟩, .inl rfl⟩
  · rw [ledgerEvent_incomplete h.shaped hc]
    exact ⟨false, w, n, rfl, ⟨rfl, rfl⟩, .inl rfl⟩

theorem ledger_raises (h : ¬ LedgerFits config w.store env) :
    Raised (calmly supply (Prog.ofExcept (ledgerEvent env) >>= applyEntry config) (w, n)) := by
  by_cases hs : Shaped env
  swap
  · obtain ⟨e, he⟩ := ledgerEvent_misshapen hs
    rw [he]
    exact ⟨e, w, n, rfl⟩
  by_cases hc : Complete env
  swap
  · exact absurd ⟨hs, fun hc' => absurd hc' hc⟩ h
  by_cases hnum : ((payload env).field "quantity").toFloat ≠ .error .OverflowError ∧
      ((payload env).field "price").toFloat ≠ .error .OverflowError ∧
      (∃ x, ((payload env).field "cash_delta").toFloat = .ok x) ∧
      ∃ x, ((payload env).field "position_after").toFloat = .ok x
  swap
  · obtain ⟨e, he⟩ := ledgerEvent_error hs hc hnum
    rw [he]
    exact ⟨e, w, n, rfl⟩
  obtain ⟨hq, hp, hcash, hpos⟩ := hnum
  rw [ledgerEvent_carried hs hc hq hp hcash hpos]
  change Raised (calmly supply (applyAndPublish config (carried env)) (w, n))
  by_cases htexts : ∀ v ∈ (carried env).texts, ∃ t, v.bindText = .ok t
  swap
  · cases hrow : (carried env).row with
    | ok row? => exact absurd ((row_ok_iff _).mp ⟨row?, hrow⟩) htexts
    | error e => exact ⟨e, w, n + 1, calmly_unbound hrow⟩
  by_cases hv : ∀ row, (carried env).row = .ok (some row) → w.store.IsNew row →
      Valued config (w.store.withRow row) ((payload env).field "account_id")
  · exact absurd ⟨hs, fun _ => ⟨hq, hp, hcash, hpos, htexts, hv⟩⟩ h
  · push Not at hv
    obtain ⟨row, hrow, hnew, hv⟩ := hv
    obtain ⟨e, n', heval⟩ := calmly_unvalued hrow hnew hv
    exact ⟨e, _, n', heval⟩

/-! Ticks. -/

theorem calmly_handleTick (henv : parseEvent loads fields = .ok env) (hne : env ≠ .null) :
    calmly supply ((fun _ => true) <$> handleTick loads config fields) (w, n) =
      calmly supply (Prog.ofExcept (tickOf env) >>= fun tick =>
        (fun _ => true) <$> recordTick config tick) (w, n) := by
  have htick : handleTick loads config fields = (do
      let _ ← processTickEnvelope config env
      return ()) := by
    rw [handleTick, henv]
    cases env with
    | null => exact absurd rfl hne
    | _ => rfl
  rw [htick, processTickEnvelope_eq]
  congr 1
  cases tickOf env with
  | error e => rfl
  | ok tick =>
    simp only [Prog.ofExcept, Prog.ret_bind]
    exact Prog.bind_assoc ..

theorem calmly_upsert {symbol : Json F} {price : F} {s' : RiskStore F}
    (h : w.store.upsertPrice symbol price = .ok ((), s')) :
    calmly supply (Prog.perform (RiskCall.upsertPrice symbol price)) (w, n) =
      (.ok (), { w with store := s' }, n + 1) :=
  calmly_perform (i := .upsertPrice symbol price) (stored_ok h)

theorem record_returns {symbol tickTime : Json F} {price : F} {y : String} {t : Option String}
    (hw : config.window_size < 2 ^ 63 - 1) (hp : PyFloat.isNaN price = false)
    (hy : symbol.bindText = .ok (some y)) (ht : tickTime.bindText = .ok t) :
    ∃ w' n', calmly supply (recordTick config (some (symbol, price, tickTime))) (w, n) =
        (.ok true, w', n') ∧ SameGroups w w' ∧
      (some y, price) ∈ w'.store.price_cache ∧ ⟨y, price, t⟩ ∈ w'.store.price_history := by
  obtain ⟨s₁, h₁, hcache, -⟩ := w.store.upsertPrice_ok hy hp
  obtain ⟨s₂, h₂, hhist, hframe⟩ := s₁.appendPrice_ok hw (RiskStore.priceRow_ok hy ht hp)
  rw [← hframe] at hcache
  refine ⟨{ w with store := s₂ }, n + 1 + 1, ?_, ⟨rfl, rfl⟩, hcache, hhist⟩
  rw [calmly, recordTick, Prog.eval_bind_ok (calmly_upsert h₁)]
  exact Prog.eval_bind_ok (calmly_perform
    (i := .appendPrice symbol price config.window_size tickTime) (stored_ok h₂))

/-- The first statement may be through by the time the second one raises. -/
theorem record_raises {symbol tickTime : Json F} {price : F}
    (h : ¬ (config.window_size < 2 ^ 63 - 1 ∧ PyFloat.isNaN price = false ∧
      (∃ y, symbol.bindText = .ok (some y)) ∧ ∃ t, tickTime.bindText = .ok t)) :
    ∃ e w' n', calmly supply (recordTick config (some (symbol, price, tickTime))) (w, n) =
      (.error e, w', n') ∧ SameGroups w w' := by
  cases hup : w.store.upsertPrice symbol price with
  | error e =>
    refine ⟨e, w, n + 1, Prog.eval_bind_error ?_, rfl, rfl⟩
    exact calmly_perform (i := .upsertPrice symbol price) (stored_error hup)
  | ok a =>
    obtain ⟨⟨⟩, s₁⟩ := a
    have hp : PyFloat.isNaN price = false := by
      by_contra hp
      obtain ⟨e, he⟩ := w.store.upsertPrice_nan symbol (Bool.eq_true_of_not_eq_false hp)
      rw [he] at hup
      cases hup
    obtain ⟨e, he⟩ := s₁.appendPrice_error price fun hfit => h ⟨hfit.1, hp, hfit.2⟩
    refine ⟨e, { w with store := s₁ }, n + 1 + 1, ?_, rfl, rfl⟩
    rw [calmly, recordTick, Prog.eval_bind_ok (calmly_upsert hup)]
    exact Prog.eval_bind_error (calmly_perform
      (i := .appendPrice symbol price config.window_size tickTime) (stored_error he))

theorem tick_returns (h : TickFits config env) :
    Returned .refreshPrices env w (calmly supply (Prog.ofExcept (tickOf env) >>= fun tick =>
      (fun _ => true) <$> recordTick config tick) (w, n)) := by
  cases hsym : ((payload env).field "symbol").truthy with
  | false =>
    rw [tickOf_unnamed h.shaped hsym]
    exact ⟨true, w, n, rfl, ⟨rfl, rfl⟩, .inl rfl⟩
  | true =>
    rw [tickOf_named h.shaped hsym]
    rcases toFloat_cases ((payload env).field "price") with ⟨p, hp⟩ | hover | hnone
    · obtain ⟨hnan, ⟨y, hy⟩, t, ht⟩ := h.columns hsym p hp
      rw [tickPrice_some hp]
      obtain ⟨w', n', heval, hsame, hcache, hhist⟩ := record_returns (h.window hsym p hp) hnan hy ht
      exact ⟨true, w', n', Prog.eval_map_ok heval, hsame,
        .inr ⟨y, p, t, hy, hp, ht, hcache, hhist⟩⟩
    · exact absurd hover (h.overflow hsym)
    · rw [hnone]
      exact ⟨true, w, n, rfl, ⟨rfl, rfl⟩, .inl rfl⟩

theorem tick_raises (h : ¬ TickFits config env) :
    Raised (calmly supply (Prog.ofExcept (tickOf env) >>= fun tick =>
      (fun _ => true) <$> recordTick config tick) (w, n)) := by
  by_cases hs : Shaped env
  swap
  · obtain ⟨e, he⟩ := tickOf_misshapen hs
    rw [he]
    exact ⟨e, w, n, rfl⟩
  cases hsym : ((payload env).field "symbol").truthy with
  | false => exact absurd ⟨hs, by rw [hsym]; nofun, by rw [hsym]; nofun, by rw [hsym]; nofun⟩ h
  | true =>
    rw [tickOf_named hs hsym]
    rcases toFloat_cases ((payload env).field "price") with ⟨p, hp⟩ | hover | hnone
    · rw [tickPrice_some hp]
      have hcols : ¬ (config.window_size < 2 ^ 63 - 1 ∧ PyFloat.isNaN p = false ∧
          (∃ y, ((payload env).field "symbol").bindText = .ok (some y)) ∧
          ∃ t, ((payload env).field "tick_time").bindText = .ok t) := by
        rintro ⟨hw, hcols⟩
        refine h ⟨hs, fun _ => by rw [hp]; nofun, fun _ q hq => ?_, fun _ _ _ => hw⟩
        rw [hp] at hq
        cases hq
        exact hcols
      obtain ⟨e, w', n', heval, -⟩ : ∃ e w' n', calmly supply (recordTick config
        (some ((payload env).field "symbol", p, (payload env).field "tick_time"))) (w, n) =
          (.error e, w', n') ∧ _ := record_raises hcols
      exact ⟨e, w', n', Prog.eval_map_error heval⟩
    · rw [tickPrice_error hover]
      exact ⟨.OverflowError, w, n, rfl⟩
    · have hnum : ∀ q, ((payload env).field "price").toFloat ≠ .ok q := by
        intro q hq
        rw [tickPrice_some hq] at hnone
        cases hnone
      refine absurd ⟨hs, fun _ hover => ?_, fun _ q hq => absurd hq (hnum q),
        fun _ q hq => absurd hq (hnum q)⟩ h
      rw [tickPrice_error hover] at hnone
      cases hnone

/-! One pass, one entry. -/

theorem handle_returns {pass : Pass} (henv : parseEvent loads fields = .ok env)
    (h : env = .null ∨ pass.Fits config w.store env) :
    Returned pass env w (calmly supply (pass.handle loads config fields) (w, n)) := by
  by_cases hne : env = .null
  · subst hne
    cases pass with
    | refreshPrices =>
      refine ⟨true, w, n, ?_, ⟨rfl, rfl⟩, .inl rfl⟩
      simp only [Pass.handle, handleTick, henv]
      rfl
    | _ =>
      refine ⟨false, w, n, ?_, ⟨rfl, rfl⟩, .inl rfl⟩
      simp only [Pass.handle, handleLedger, henv]
      rfl
  have hfits := h.resolve_left hne
  cases pass with
  | drainLedger =>
    rw [Pass.handle, calmly_handleLedger henv hne]
    exact ledger_returns hfits
  | reclaimLedger =>
    rw [Pass.handle, calmly_handleLedger henv hne]
    exact ledger_returns hfits
  | refreshPrices =>
    rw [Pass.handle, calmly_handleTick henv hne]
    exact tick_returns hfits

theorem handle_raises {pass : Pass} (h : ¬ EntryFits loads config pass w.store fields) :
    Raised (calmly supply (pass.handle loads config fields) (w, n)) := by
  cases henv : parseEvent loads fields with
  | error e =>
    refine ⟨e, w, n, ?_⟩
    cases pass <;> simp only [Pass.handle, handleLedger, handleTick, henv] <;> rfl
  | ok env =>
    have hne : env ≠ .null := fun hnull => h ⟨env, henv, .inl hnull⟩
    have hfits : ¬ pass.Fits config w.store env := fun hfits => h ⟨env, henv, .inr hfits⟩
    cases pass with
    | drainLedger =>
      rw [Pass.handle, calmly_handleLedger henv hne]
      exact ledger_raises hfits
    | reclaimLedger =>
      rw [Pass.handle, calmly_handleLedger henv hne]
      exact ledger_raises hfits
    | refreshPrices =>
      rw [Pass.handle, calmly_handleTick henv hne]
      exact tick_raises hfits

theorem calmly_xack (s : StreamName) (id : Nat) :
    calmly supply (Prog.perform (RiskCall.xack s id)) (w, n) =
      (.ok (), w.setGroup s ((w.group s).ack id), n + 1) :=
  calmly_perform (i := .xack s id) rfl

omit [PyFloat F] in
@[simp] theorem group_setGroup (w : RiskWorld F) (s : StreamName) (g : ConsumerGroup Fields) :
    (w.setGroup s g).group s = g := by
  cases s <;> rfl

omit [PyFloat F] in
@[simp] theorem store_setGroup (w : RiskWorld F) (s : StreamName) (g : ConsumerGroup Fields) :
    (w.setGroup s g).store = w.store := by
  cases s <;> rfl

end Outcomes

/-! ## Exactly the entries that fit are handled -/

/-- **An entry is handled if and only if it fits.** In every store and on
either stream, with nothing failing, an entry does not raise, is acknowledged
and takes effect in full or not at all, exactly when it parses to nothing or
to an envelope that the conversions and the columns take. -/
theorem entry_handled_iff (loads : String → Except PyError (Json F)) (config : Config F)
    (supply : Supply F) (pass : Pass) (id : Nat) (fields : Fields) (w : RiskWorld F) (n : Nat) :
    (let a := calmly supply (pass.take loads config [(id, fields)] 0) (w, n)
     Handled pass (envelope loads fields) id w a.1 a.2.1) ↔
      EntryFits loads config pass w.store fields := by
  constructor
  · intro h
    by_contra hfits
    obtain ⟨e, w', n', heval⟩ : Raised (calmly supply (pass.handle loads config fields) (w, n)) :=
      handle_raises hfits
    obtain ⟨m, hm⟩ := h.returns
    rw [Pass.take_cons, calmly, Prog.eval_bind_error heval] at hm
    cases hm
  · rintro ⟨env, henv, hfits⟩
    obtain ⟨sent, w', n', heval, -, heffect⟩ :
        Returned pass env w (calmly supply (pass.handle loads config fields) (w, n)) :=
      handle_returns henv hfits
    have hentry : envelope loads fields = env := by rw [envelope, henv]; rfl
    have htake : calmly supply (pass.take loads config [(id, fields)] 0) (w, n) =
        (.ok (pass.count sent 0), w'.setGroup pass.stream ((w'.group pass.stream).ack id),
          n' + 1) := by
      rw [Pass.take_cons, calmly, Prog.eval_bind_ok heval, Prog.eval_bind_ok (calmly_xack ..),
        Pass.take_nil]
      rfl
    rw [htake, hentry]
    refine ⟨⟨_, rfl⟩, ⟨?_, ?_⟩, ?_⟩
    · simp
    · simp [ConsumerGroup.ack]
    · simpa using heffect

/-! ## A tick whose time is a list -/

def listTimeText : String :=
  object [("data", object [("symbol", quoted "X"), ("price", "1"), ("tick_time", "[]")])]

def listTimeJson : Json ℚ :=
  .obj [("data", .obj [("symbol", .str "X"), ("price", .int 1), ("tick_time", .arr [])])]

def listTimeLoads : String → Except PyError (Json ℚ) := table [(listTimeText, listTimeJson)]

/-- Its price reaches the cache and not the history; the worker raises and the
entry is not acknowledged. -/
theorem tick_can_wedge :
    let a := calmly sameSupply (Pass.refreshPrices.take listTimeLoads settings
      [(1, [("event", listTimeText)])] 0) (worldOf [], 0)
    a.1 = .error .InterfaceError ∧ a.2.1.ticks.acked = [] ∧
    a.2.1.store.price_cache = [(some "X", 1)] ∧ a.2.1.store.price_history = [] ∧
    ¬ Handled .refreshPrices (envelope listTimeLoads [("event", listTimeText)]) 1 (worldOf [])
      a.1 a.2.1 := by
  intro a
  have hraises : a.1 = .error .InterfaceError := by decide +kernel
  refine ⟨hraises, by decide +kernel, by decide +kernel, by decide +kernel, fun h => ?_⟩
  obtain ⟨n, hn⟩ := h.returns
  rw [hraises] at hn
  cases hn

end TradePulse.Risk
