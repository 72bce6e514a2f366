import TradePulse.Risk.Passes

/-! # `LedgerUpdated.v1` envelopes on the stream

The envelope and data schemas as far as the consumer relies on them, and what
it makes of an envelope that meets them: exactly one row of `applied_events`,
unless the account or the symbol is a text SQLite cannot hold, which raises. -/
namespace TradePulse.Risk
open TradePulse.Core (except_bind_ok)

variable {F : Type} [PyFloat F]

namespace Json

/-- The value under `key`; null when there is none. -/
def field (key : String) : Json F → Json F
  | .obj kvs => (kvs.lookup key).getD .null
  | _ => .null

def text? : Json F → Option String
  | .str s => some s
  | _ => none

/-- `"type": "string", "minLength": 1`. -/
def IsText : Json F → Prop
  | .str s => s ≠ ""
  | .surrogates _ => True
  | _ => False

/-- The double a number stands for. -/
def number (x : Json F) : F := x.toFloat.toOption.getD 0

/-- `"type": "number"`, and finite as a double. -/
def IsNumber : Json F → Prop
  | .int n => (PyFloat.ofInt (F := F) n).any PyFloat.isFinite
  | .float x => PyFloat.isFinite x
  | _ => False

def data (env : Json F) : Json F := env.field "data"
def eventId (env : Json F) : Option String := (env.field "event_id").text?
def account (env : Json F) : Option String := (env.data.field "account_id").text?
def symbol (env : Json F) : Option String := (env.data.field "symbol").text?
/-- The account and the symbol, where both are texts SQLite can hold. -/
def pair (env : Json F) : Option (String × String) :=
  env.account.bind fun a => env.symbol.map fun y => (a, y)

def cashDelta (env : Json F) : F := (env.data.field "cash_delta").number
def positionAfter (env : Json F) : F := (env.data.field "position_after").number

omit [PyFloat F] in
theorem get_field {x : Json F} (key : String) (h : x.field key ≠ .null) :
    x.get key = .ok (x.field key) := by
  cases x with
  | obj kvs => rfl
  | _ => exact absurd rfl h

omit [PyFloat F] in
theorem eq_str_of_text? {x : Json F} {s : String} (h : x.text? = some s) : x = .str s := by
  cases x <;> cases h
  rfl

omit [PyFloat F] in
theorem IsText.ne_null {x : Json F} (h : x.IsText) : x ≠ .null := by
  rintro rfl
  exact h

theorem IsText.truthy {x : Json F} (h : x.IsText) : x.truthy = true := by
  cases x with
  | str s => exact Json.truthy_str.mpr h
  | surrogates _ => rfl
  | _ => cases h

/-- SQLite holds the text, or the binding raises. -/
theorem IsText.bindText {x : Json F} (h : x.IsText) {t : Option String}
    (ht : x.bindText = .ok t) : ∃ s, t = some s ∧ x = .str s := by
  cases x with
  | str s =>
    cases ht
    exact ⟨s, rfl, rfl⟩
  | surrogates _ => cases ht
  | _ => cases h

theorem IsNumber.ne_null {x : Json F} (h : x.IsNumber) : x ≠ .null := by
  rintro rfl
  exact h

theorem IsNumber.toFloat {x : Json F} (h : x.IsNumber) :
    x.toFloat = .ok x.number ∧ PyFloat.isFinite x.number = true := by
  cases x with
  | int n =>
    cases hn : PyFloat.ofInt (F := F) n with
    | none => simp [IsNumber, hn] at h
    | some y => simpa [IsNumber, number, Json.toFloat, hn, Except.toOption] using h
  | float y => exact ⟨rfl, h⟩
  | _ => cases h

theorem IsNumber.asFloat {x : Json F} (h : x.IsNumber) : x.asFloat = .ok (some x.number) := by
  have hx := h.toFloat.1
  cases x with
  | null => cases h
  | _ => simp only [Json.asFloat, hx]

end Json

theorem bindReal_of_finite {x : F} (h : PyFloat.isFinite x = true) : bindReal x = some x := by
  simp only [PyFloat.isFinite, Bool.and_eq_true, Bool.not_eq_true'] at h
  simp [bindReal, h.1]

/-- A `LedgerUpdated.v1` envelope. -/
structure SchemaValid (env : Json F) : Prop where
  event_id : ∃ s, env.field "event_id" = .str s ∧ s ≠ ""
  correlation_id : ∃ s, env.field "correlation_id" = .str s
  data : ∃ kvs, env.data = .obj kvs
  account_id : (env.data.field "account_id").IsText
  symbol : (env.data.field "symbol").IsText
  side : ∃ s, env.data.field "side" = .str s
  quantity : (env.data.field "quantity").IsNumber
  price : (env.data.field "price").IsNumber
  cash_delta : (env.data.field "cash_delta").IsNumber
  position_after : (env.data.field "position_after").IsNumber
  posted_at : ∃ s, env.data.field "posted_at" = .str s

/-- The event that a valid envelope asks to apply. -/
def eventOf (env : Json F) : RiskStore.LedgerEvent F where
  event_id := env.field "event_id"
  account_id := env.data.field "account_id"
  symbol := env.data.field "symbol"
  side := env.data.field "side"
  quantity := some (env.data.field "quantity").number
  price := some (env.data.field "price").number
  cash_delta := env.cashDelta
  position_after := env.positionAfter
  correlation_id := env.field "correlation_id"
  posted_at := env.data.field "posted_at"

/-- `data or {}` of an object. -/
theorem Json.or_empty {x : Json F} {kvs : List (String × Json F)} (h : x = .obj kvs) :
    x.or (.obj []) = x := by
  subst h
  cases kvs <;> rfl

theorem SchemaValid.get_data {env : Json F} (h : SchemaValid env) :
    env.get "data" = .ok env.data := by
  obtain ⟨kvs, hdata⟩ := h.data
  exact Json.get_field _ (by change env.data ≠ .null; rw [hdata]; nofun)

theorem SchemaValid.ledgerEvent {env : Json F} (h : SchemaValid env) :
    ledgerEvent env = .ok (some (eventOf env)) := by
  obtain ⟨id, hid, hne⟩ := h.event_id
  obtain ⟨c, hc⟩ := h.correlation_id
  obtain ⟨kvs, hdata⟩ := h.data
  obtain ⟨side, hside⟩ := h.side
  obtain ⟨posted, hposted⟩ := h.posted_at
  have hcash := h.cash_delta.ne_null
  have hpos := h.position_after.ne_null
  have htruthy : (env.field "event_id").truthy = true := by rw [hid]; exact decide_eq_true hne
  have hget_id := Json.get_field (x := env) "event_id" (by rw [hid]; nofun)
  have hget_c := Json.get_field (x := env) "correlation_id" (by rw [hc]; nofun)
  have hget_side := Json.get_field (x := env.data) "side" (by rw [hside]; nofun)
  have hget_posted := Json.get_field (x := env.data) "posted_at" (by rw [hposted]; nofun)
  simp only [Risk.ledgerEvent, bind, Except.bind, hget_id, h.get_data, Json.or_empty hdata,
    Json.get_field _ h.account_id.ne_null, Json.get_field _ h.symbol.ne_null, htruthy,
    h.account_id.truthy, h.symbol.truthy, Bool.not_true, Bool.or_self, Bool.false_eq_true,
    if_false, Json.get_field _ hcash, Json.get_field _ hpos, hget_c, hget_side,
    Json.get_field _ h.quantity.ne_null, h.quantity.asFloat, Json.get_field _ h.price.ne_null,
    h.price.asFloat, h.cash_delta.toFloat.1, h.position_after.toFloat.1, hget_posted]
  rfl

/-- The row holds what the envelope says. -/
structure RowOf (env : Json F) (row : AppliedEvent F) : Prop where
  event_id : row.event_id = env.eventId
  pair : env.pair = some (row.account_id, row.symbol)
  cash_delta : row.cash_delta = env.cashDelta
  position_after : row.position_after = env.positionAfter

theorem RowOf.account {env : Json F} {row : AppliedEvent F} (h : RowOf env row) :
    env.account = some row.account_id := by
  obtain ⟨a, ha, hy⟩ := Option.bind_eq_some_iff.mp h.pair
  obtain ⟨y, -, hay⟩ := Option.map_eq_some_iff.mp hy
  cases hay
  exact ha

/-- The row of a valid envelope, unless a text of it cannot be bound. -/
theorem SchemaValid.row {env : Json F} (h : SchemaValid env)
    {r : Option (AppliedEvent F)} (hr : (eventOf env).row = .ok r) :
    ∃ row, r = some row ∧ RowOf env row := by
  obtain ⟨id, hid, -⟩ := h.event_id
  obtain ⟨eid, heid, hr⟩ := except_bind_ok.mp hr
  obtain ⟨acc, hacc, hr⟩ := except_bind_ok.mp hr
  obtain ⟨sym, hsym, hr⟩ := except_bind_ok.mp hr
  obtain ⟨_, -, hr⟩ := except_bind_ok.mp hr
  obtain ⟨_, -, hr⟩ := except_bind_ok.mp hr
  obtain ⟨_, -, hr⟩ := except_bind_ok.mp hr
  obtain ⟨a, rfl, hastr⟩ := h.account_id.bindText hacc
  obtain ⟨y, rfl, hystr⟩ := h.symbol.bindText hsym
  have hcash : bindReal (eventOf env).cash_delta = some env.cashDelta :=
    bindReal_of_finite h.cash_delta.toFloat.2
  have hpos : bindReal (eventOf env).position_after = some env.positionAfter :=
    bindReal_of_finite h.position_after.toFloat.2
  rw [hcash, hpos] at hr
  cases hr
  refine ⟨_, rfl, ?_, ?_, rfl, rfl⟩
  · change (env.field "event_id").bindText = .ok eid at heid
    rw [hid] at heid
    cases heid
    rw [Json.eventId, hid, Json.text?]
  · rw [Json.pair, Json.account, hastr, Json.symbol, hystr]
    rfl

/-- The row of an envelope is inserted unless its event id is known. -/
theorem SchemaValid.insertOrIgnore {env : Json F} (h : SchemaValid env) {row : AppliedEvent F}
    (hof : RowOf env row) (rows : List (AppliedEvent F)) :
    RiskStore.insertOrIgnore rows row =
      if env.eventId ∈ rows.map (·.event_id) then (false, rows) else (true, rows ++ [row]) := by
  obtain ⟨id, hid, -⟩ := h.event_id
  have hsome : row.event_id.isSome := by rw [hof.event_id, Json.eventId, hid]; rfl
  rw [RiskStore.insertOrIgnore, ← hof.event_id]
  simp only [hsome, true_and]

/-! ## The stream -/

section Stream

variable (loads : String → Except PyError (Json F))

/-- The envelope an entry carries; null when the worker finds none. -/
def envelope (fields : Fields) : Json F := (parseEvent loads fields).toOption.getD .null

/-- The envelopes on the stream, in its order. -/
def envelopes (log : List Fields) : List (Json F) := log.map (envelope loads)

variable {loads}

theorem SchemaValid.parseEvent {fields : Fields} (h : SchemaValid (envelope loads fields)) :
    parseEvent loads fields = .ok (envelope loads fields) := by
  cases hp : Risk.parseEvent loads fields with
  | ok env => rw [envelope, hp, Except.toOption, Option.getD_some]
  | error e =>
    obtain ⟨id, hid, -⟩ := h.event_id
    rw [envelope, hp] at hid
    cases hid

/-- An entry with a valid envelope amounts to the event of that. -/
theorem SchemaValid.entryEvent {fields : Fields} (h : SchemaValid (envelope loads fields)) :
    entryEvent loads fields = .ok (some (eventOf (envelope loads fields))) := by
  have hev := h.ledgerEvent
  obtain ⟨id, hid, -⟩ := h.event_id
  rw [Risk.entryEvent, h.parseEvent]
  cases henv : envelope loads fields with
  | null =>
    rw [henv] at hid
    cases hid
  | _ =>
    rw [henv] at hev
    exact hev

theorem SchemaValid.row_of_event {fields : Fields} (h : SchemaValid (envelope loads fields))
    {event : RiskStore.LedgerEvent F} (hev : Risk.entryEvent loads fields = .ok (some event))
    {r : Option (AppliedEvent F)} (hr : event.row = .ok r) :
    ∃ row, r = some row ∧ RowOf (envelope loads fields) row := by
  rw [h.entryEvent] at hev
  cases hev
  exact h.row hr

end Stream

end TradePulse.Risk
