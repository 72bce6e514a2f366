import TradePulse.Risk.Envelopes

/-! # The store of the kill/restart proof

`store.py`, `seed.py` and the `_extract` of the consumer: the tables of the
SQLite file as lists of rows, in insertion order. A transaction commits, or
raises and leaves the file as it was. -/
namespace TradePulse.Poc
open TradePulse.Risk

variable {F : Type} [PyFloat F]

/-- An event to seed, and a row of `unsent_outbox`. -/
structure OutboxEvent where
  event_id : String
  event_type : String
  payload : String
  deriving DecidableEq

structure OutboxRow extends OutboxEvent where
  sent : Bool
  deriving DecidableEq

structure ProofStore (F : Type) where
  outbox_events : List OutboxRow
  processed_events : List (Option String)
  proj_cash : List (String × F)
  proj_positions : List ((String × String) × F)

/-- `INSERT … ON CONFLICT DO UPDATE`, and `rows[key] = value` of a dict. -/
def upsert {κ α : Type} [DecidableEq κ] (rows : List (κ × α)) (key : κ) (value : α) :
    List (κ × α) :=
  if rows.any (·.1 = key) then rows.map fun row => if row.1 = key then (key, value) else row
  else rows ++ [(key, value)]

namespace ProofStore

/-- A file with the schema and no rows. -/
def empty : ProofStore F := ⟨[], [], [], []⟩

/-! ## Seeding -/

def seedRow (s : ProofStore F) (e : OutboxEvent) : Except PyError (ProofStore F) :=
  if e.event_id ∈ s.outbox_events.map (·.event_id) then .error .IntegrityError
  else .ok { s with outbox_events := s.outbox_events ++ [{ e with sent := false }] }

def seedOutbox (s : ProofStore F) (events : List OutboxEvent) : Except PyError (ProofStore F) :=
  events.foldlM seedRow s

def initProjection (s : ProofStore F) (account_id : String) (cash : F) : ProofStore F :=
  { s with proj_cash := upsert s.proj_cash account_id cash }

/-! ## The side of the relay -/

def unsentOutbox (s : ProofStore F) : List OutboxEvent :=
  (s.outbox_events.filter (!·.sent)).map (·.toOutboxEvent)

def markSent (s : ProofStore F) (eventId : String) : ProofStore F :=
  { s with outbox_events := s.outbox_events.map fun row =>
      if row.event_id = eventId then { row with sent := true } else row }

/-! ## The side of the consumer -/

/-- `WHERE event_id=?` meets no row when the id is NULL. -/
def Processed (s : ProofStore F) (id : Option String) : Prop :=
  id.isSome ∧ id ∈ s.processed_events

instance (s : ProofStore F) (id : Option String) : Decidable (s.Processed id) :=
  inferInstanceAs (Decidable (_ ∧ _))

def alreadyProcessed (s : ProofStore F) (eventId : Json F) : Except PyError Bool := do
  let id ← eventId.bindText
  return decide (s.Processed id)

/-- `UPDATE proj_cash SET cash=cash+?`; the column is `NOT NULL`. -/
def updateCash (rows : List (String × F)) (account : Option String) (delta : F) :
    Except PyError (List (String × F)) :=
  rows.mapM fun (a, cash) =>
    if some a = account then
      match (bindReal delta).bind fun d => bindReal (cash + d) with
      | some cash => .ok (a, cash)
      | none => .error .IntegrityError
    else .ok (a, cash)

def apply (s : ProofStore F) (eventId accountId symbol : Json F) (qtyAfter cashDelta : F) :
    Except PyError (Bool × ProofStore F) := do
  let id ← eventId.bindText
  if s.Processed id then return (false, s)
  let account ← accountId.bindText
  let proj_cash ← updateCash s.proj_cash account cashDelta
  let symbol ← symbol.bindText
  match account, symbol, bindReal qtyAfter with
  | some account, some symbol, some qty =>
    return (true, { s with processed_events := s.processed_events ++ [id], proj_cash
                           proj_positions := upsert s.proj_positions (account, symbol) qty })
  | _, _, _ => throw .IntegrityError

def projection (s : ProofStore F) (account_id : String) : F × List (String × F) :=
  ((s.proj_cash.lookup account_id).getD 0,
    (s.proj_positions.filter (·.1.1 = account_id)).map fun row => (row.1.2, row.2))

end ProofStore

/-! ## Texts -/

section Texts

variable (loads : String → Except PyError (Json F))

/-- `str(x)` as it goes on the wire; `repr` is that of what is no string. -/
def wireText (repr : Json F → String) : Json F → Except PyError String
  | .str s => .ok s
  | .surrogates _ => .error .ValueError
  | x => .ok (repr x)

def buildStreamFields (repr : Json F → String) (e : OutboxEvent) : Except PyError Fields := do
  let node ← match loads e.payload with
    | .ok node => node.get "schema_version"
    | .error .ValueError | .error .TypeError => .ok .null
    | .error err => .error err
  let version ← match node with
    | .null => .ok "1"
    | node => wireText repr node
  return [("event_type", e.event_type), ("schema_version", version), ("event", e.payload)]

/-- What `_extract` returns. -/
structure Extracted (F : Type) where
  event_id : Json F
  account_id : Json F
  symbol : Json F
  qty_after : F
  cash_delta : F

/-- `float(data.get(key, 0.0))`. -/
def floatOr (key : String) : Json F → Except PyError F
  | .obj kvs => ((kvs.lookup key).getD (.float 0)).toFloat
  | _ => .error .AttributeError

def extract (fields : Fields) : Except PyError (Option (Extracted F)) :=
  match (fields.reverse.lookup "event").getD "" with
  | "" => .ok none
  | eventJson => match loads eventJson with
    | .error .ValueError | .error .TypeError => .ok none
    | .error e => .error e
    | .ok root => do
      let event_id ← root.get "event_id"
      let data ← root.get "data"
      let data := data.or (.obj [])
      if !event_id.truthy then return none
      let account_id ← data.get "account_id"
      let symbol ← data.get "symbol"
      let qty_after ← floatOr "position_after" data
      let cash_delta ← floatOr "cash_delta" data
      return some { event_id, account_id, symbol, qty_after, cash_delta }

/-! ## The single-delivery baseline -/

/-- `x[key]`. -/
def item (key : String) : Json F → Option (Json F)
  | .obj kvs => kvs.lookup key
  | _ => none

/-- The number that `+` adds to a float and `==` compares with one. -/
def addend : Json F → Option F
  | .bool b => PyFloat.ofInt (if b then 1 else 0)
  | .int n => PyFloat.ofInt n
  | .float x => some x
  | _ => none

/-- `SEED_CASH`. -/
def seedCash : F := (PyFloat.ofInt 10000).getD 0

def baselineStep (acc : F × List (String × F)) (e : OutboxEvent) :
    Option (F × List (String × F)) := do
  let root ← (loads e.payload).toOption
  let data ← item "data" root
  let delta ← addend (← item "cash_delta" data)
  let symbol ← (← item "symbol" data).text?
  let qty ← addend (← item "position_after" data)
  return (acc.1 + delta, upsert acc.2 symbol qty)

/-- `none` where it raises, and where a symbol or a position is of another type. -/
def baseline (events : List OutboxEvent) : Option (F × List (String × F)) :=
  events.foldlM (baselineStep loads) (seedCash, [])

end Texts
end TradePulse.Poc
