import TradePulse.Risk.Calm
import TradePulse.Risk.Envelopes
import Mathlib.Data.Rat.Floor
import Mathlib.Data.Rat.Sqrt

/-! # Exact arithmetic

Rationals in place of doubles: nothing overflows, nothing is rounded but the
square root of what is no square, and there is no NaN. -/
namespace TradePulse.Risk

/-- Digits with at most one point among them. -/
def unsigned (cs : List Char) : Option ℚ :=
  let whole := cs.takeWhile (· ≠ '.')
  let frac := (cs.dropWhile (· ≠ '.')).tail
  let digits := whole ++ frac
  if digits ≠ [] ∧ digits.all Char.isDigit then
    some (digits.foldl (fun n c => 10 * n + (c.toNat - '0'.toNat : ℕ)) 0 / 10 ^ frac.length)
  else none

def decimal (s : String) : Option ℚ :=
  match s.toList with
  | '-' :: cs => (unsigned cs).map (- ·)
  | '+' :: cs => unsigned cs
  | cs => unsigned cs

/-- Round to `digits` places, ties to even. -/
def roundHalfEven (x : ℚ) (digits : ℕ) : ℚ :=
  let y := x * 10 ^ digits
  let z := ⌊y⌋
  let up := 1 / 2 < y - z ∨ y - z = 1 / 2 ∧ z % 2 = 1
  ((if up then z + 1 else z : ℤ) : ℚ) / 10 ^ digits

def mean (xs : List ℚ) : Except PyError ℚ :=
  if xs = [] then .error .ValueError else .ok (xs.sum / xs.length)

def pstdev (xs : List ℚ) : Except PyError ℚ := do
  let m ← mean xs
  let variance ← mean (xs.map fun x => (x - m) * (x - m))
  return Rat.sqrt variance

instance : PyFloat ℚ where
  ofInt n := some n
  ofString := decimal
  isNaN _ := false
  isInf _ := false
  isZero x := x = 0
  lt x y := x < y
  ltInt x n := x < n
  abs x := if x < 0 then -x else x
  round := roundHalfEven
  sum := List.sum
  sumColumn xs := if xs = [] then none else some xs.sum
  mean := mean
  pstdev := pstdev
  toText x := if x.den = 1 then toString x.num ++ ".0" else toString x.num ++ "/" ++ toString x.den
  z95 := 33 / 20
  thousand := 1000

/-! ## Envelopes of the ledger -/

def quoted (s : String) : String := "\"" ++ s ++ "\""

/-- An object, of the texts of its values. -/
def object (members : List (String × String)) : String :=
  "\x7b" ++ ", ".intercalate (members.map fun m => quoted m.1 ++ ": " ++ m.2) ++ "\x7d"

theorem object_ne_empty (members : List (String × String)) : object members ≠ "" := by
  simp [object]

/-- `json.loads` on these texts. -/
def table {F : Type} (texts : List (String × Json F)) (s : String) : Except PyError (Json F) :=
  match texts.lookup s with
  | some env => .ok env
  | none => .error .ValueError

/-- A purchase of one unit at `price`. -/
structure Purchase where
  id : String
  account : String
  symbol : String
  price : Int
  positionAfter : Int
  id_ne : id ≠ "" := by decide
  account_ne : account ≠ "" := by decide
  symbol_ne : symbol ≠ "" := by decide

namespace Purchase

def text (p : Purchase) : String :=
  object [("event_id", quoted p.id), ("event_type", quoted "LedgerUpdated"),
    ("schema_version", quoted "1"), ("correlation_id", quoted p.id),
    ("produced_at", quoted "2026-09-01T12:00:00Z"), ("producer", quoted "ledger-core"),
    ("data", object [("journal_entry_id", quoted p.id), ("source_event_id", quoted p.id),
      ("account_id", quoted p.account), ("symbol", quoted p.symbol), ("side", quoted "BUY"),
      ("quantity", "1"), ("price", toString p.price), ("cash_delta", toString (-p.price)),
      ("position_after", toString p.positionAfter),
      ("posted_at", quoted "2026-09-01T12:00:00Z")])]

def json (p : Purchase) : Json ℚ :=
  .obj [("event_id", .str p.id), ("event_type", .str "LedgerUpdated"),
    ("schema_version", .str "1"), ("correlation_id", .str p.id),
    ("produced_at", .str "2026-09-01T12:00:00Z"), ("producer", .str "ledger-core"),
    ("data", .obj [("journal_entry_id", .str p.id), ("source_event_id", .str p.id),
      ("account_id", .str p.account), ("symbol", .str p.symbol), ("side", .str "BUY"),
      ("quantity", .int 1), ("price", .int p.price), ("cash_delta", .int (-p.price)),
      ("position_after", .int p.positionAfter), ("posted_at", .str "2026-09-01T12:00:00Z")])]

def fields (p : Purchase) : Fields := [("event", p.text)]

theorem schemaValid (p : Purchase) : SchemaValid p.json where
  event_id := ⟨p.id, rfl, p.id_ne⟩
  correlation_id := ⟨p.id, rfl⟩
  data := ⟨_, rfl⟩
  account_id := p.account_ne
  symbol := p.symbol_ne
  side := ⟨"BUY", rfl⟩
  quantity := rfl
  price := rfl
  cash_delta := rfl
  position_after := rfl
  posted_at := ⟨_, rfl⟩

end Purchase

/-- `json.loads` on the texts of some purchases. -/
def loadsOf (ps : List Purchase) : String → Except PyError (Json ℚ) :=
  table (ps.map fun p => (p.text, p.json))

/-- Looking up one of several distinct keys. -/
theorem lookup_map {α β : Type} {f : α → String} {g : α → β} {xs : List α}
    (h : (xs.map f).Nodup) {x : α} (hx : x ∈ xs) :
    (xs.map fun x => (f x, g x)).lookup (f x) = some (g x) := by
  induction xs with
  | nil => cases hx
  | cons y ys ih =>
    rw [List.map_cons, List.lookup_cons]
    obtain ⟨hy, h⟩ := List.nodup_cons.mp h
    obtain rfl | hx := List.mem_cons.mp hx
    · simp
    · have hne : (f x == f y) = false := beq_false_of_ne fun he => hy (he ▸ List.mem_map_of_mem hx)
      simpa only [hne] using ih h hx

theorem loadsOf_text {ps : List Purchase} (h : (ps.map Purchase.text).Nodup) {p : Purchase}
    (hp : p ∈ ps) : loadsOf ps p.text = .ok p.json := by
  rw [loadsOf, table, lookup_map h hp]

theorem envelope_text {loads : String → Except PyError (Json ℚ)} {raw : String} {env : Json ℚ}
    (h : raw ≠ "") (hloads : loads raw = .ok env) : envelope loads [("event", raw)] = env := by
  have hraw : (([("event", raw)] : Fields).reverse.lookup "event").getD "" = raw := rfl
  rw [envelope, parseEvent, hraw]
  split
  · exact absurd rfl h
  · rw [hloads]
    rfl

/-- An entry with the text of a purchase carries its envelope. -/
theorem envelope_fields {ps : List Purchase} (h : (ps.map Purchase.text).Nodup) {p : Purchase}
    (hp : p ∈ ps) : envelope (loadsOf ps) p.fields = p.json :=
  envelope_text (object_ne_empty _) (loadsOf_text h hp)

/-! ## Schedules -/

def settings : Config ℚ where
  seed_cash := 1000
  batch_size := 10
  min_idle_ms := 30000
  window_size := 20
  recompute_interval_ms := 1000

/-- A new group on a stream with these entries, no ticks and an empty file. -/
def worldOf (log : List Fields) : RiskWorld ℚ where
  ledger := ⟨log, 0, fun _ => none, 0, []⟩
  ticks := ⟨[], 0, fun _ => none, 0, []⟩
  risk := []
  store := .empty
  last := none
  unpublished := false

def sameSupply : Supply ℚ := ⟨fun _ => "t1", fun _ => 0⟩

/-- Start a cycle; claim, read the ticks and read the ledger. -/
def opening : List (WorkerAct ℚ) := [.enter .cycle, .call .done, .call .done, .call .done]

/-- Apply a new event and save the snapshot, at time `t`. -/
def applyNew (t : String) : List (WorkerAct ℚ) :=
  [.call .done, .call .done, .call .done, .call .done, .call (.text t), .call .done]

/-- Publish the envelope, under event id `id`, and acknowledge the entry. -/
def publishNew (id : String) : List (WorkerAct ℚ) :=
  [.call (.text id), .call .done, .call .done]

/-- Apply a known event and acknowledge the entry. -/
def applyKnown : List (WorkerAct ℚ) := [.call .done, .call .done]

end TradePulse.Risk
