import Mathlib.Algebra.Order.Round
import Mathlib.Data.List.Induction
import Mathlib.Data.Rat.Floor
import Mathlib.Logic.Function.Basic
import Mathlib.Tactic.FieldSimp
import Mathlib.Tactic.Linarith
import Mathlib.Tactic.NormNum
import Mathlib.Tactic.Ring

/-! # `tick.go` and `producer.go`

The random walk of the synthetic prices over any ordered field with a floor:
exact arithmetic in place of floats. What the random number generator draws is
an input, as are the ids, the clock and the answers of Redis. -/
namespace TradePulse.MarketData

section Source

variable {K : Type} [Field K] [LinearOrder K] [FloorRing K]

/-! ## The source -/

/-- `math.Round`, which rounds halves away from zero. -/
def mathRound (x : K) : ℤ := if 0 ≤ x then round x else -round (-x)

structure SyntheticSource (K : Type) where
  symbols : List String
  last : String → Option K

def basePrices : List (String × ℕ) :=
  [("AAPL", 187), ("MSFT", 415), ("GOOG", 152), ("AMZN", 178), ("TSLA", 245)]

def seedPrice (symbol : String) : K := (((basePrices.lookup symbol).getD 100 : ℕ) : K)

def newSyntheticSource (symbols : List String) : SyntheticSource K where
  symbols := symbols
  last := symbols.foldl (fun last s => Function.update last s (some (seedPrice s))) fun _ => none

/-- What one call of `Next` draws: `rng.Float64()` and `rng.Intn(1000)`. -/
structure Draw (K : Type) where
  float64 : K
  intn : ℕ

/-- `Next`. -/
def next (s : SyntheticSource K) (symbol : String) (draw : Draw K) :
    (K × ℕ) × SyntheticSource K :=
  let prev := ((s.last symbol).filter fun prev => ¬ prev ≤ 0).getD (seedPrice symbol)
  let pct := (draw.float64 - ((1 / 2 : ℚ) : K)) / ((100 : ℕ) : K)
  let next := prev * (1 + pct)
  let next := if next ≤ 0 then prev else next
  let next := (mathRound (next * ((100 : ℕ) : K)) : K) / ((100 : ℕ) : K)
  ((next, draw.intn + 1), { s with last := Function.update s.last symbol (some next) })

/-- The source after some calls of `Next`. -/
def after (s : SyntheticSource K) (calls : List (String × Draw K)) : SyntheticSource K :=
  calls.foldl (fun s c => (next s c.1 c.2).2) s

/-! ## The producer -/

/-- `TickData`. -/
structure TickData (K : Type) where
  symbol : String
  price : K
  volume : ℕ
  source : String
  tick_time : String

structure Envelope (K : Type) where
  event_id : String
  event_type : String
  schema_version : String
  correlation_id : String
  produced_at : String
  producer : String
  data : TickData K

/-- What one turn of the loop in `publishOnce` meets. -/
structure Turn (K : Type) where
  draw : Draw K
  event_id : String
  correlation_id : String
  now : String
  /-- `XADD` succeeds. -/
  added : Bool

def newTickEnvelope (symbol : String) (price : K) (volume : ℕ) (source : String)
    (turn : Turn K) : Envelope K where
  event_id := turn.event_id
  event_type := "TickReceived"
  schema_version := "1"
  correlation_id := turn.correlation_id
  produced_at := turn.now
  producer := "market-data"
  data := { symbol, price, volume, source, tick_time := turn.now }

/-- `publishOnce` for the symbols of the configuration: the envelopes that
reach the stream. Exact numbers always marshal. -/
def publishOnce (source : String) : List String → (ℕ → Turn K) → SyntheticSource K →
    List (Envelope K) × SyntheticSource K
  | [], _, s => ([], s)
  | sym :: syms, turn, s =>
    let ((price, volume), s) := next s sym (turn 0).draw
    let env := newTickEnvelope sym price volume source (turn 0)
    let (envs, s) := publishOnce source syms (fun n => turn (n + 1)) s
    ((if (turn 0).added then [env] else []) ++ envs, s)

/-- `Run`: what a round for each tick of the clock publishes. -/
def run (source : String) (symbols : List String) : List (ℕ → Turn K) → SyntheticSource K →
    List (Envelope K)
  | [], _ => []
  | turn :: rounds, s =>
    let (envs, s) := publishOnce source symbols turn s
    envs ++ run source symbols rounds s

/-! ## Prices in cents -/

/-- A positive whole number of cents. -/
def Cents (x : K) : Prop := ∃ n : ℤ, 0 < n ∧ x = n / ((100 : ℕ) : K)

/-- The price that the next one of the symbol starts from. -/
def previous (s : SyntheticSource K) (symbol : String) : K :=
  (s.last symbol).getD (seedPrice symbol)

/-- Every price kept is one. -/
def WellPriced (s : SyntheticSource K) : Prop := ∀ symbol p, s.last symbol = some p → Cents p

/-- `Float64` draws from `[0, 1)`. -/
def Draw.Valid (draw : Draw K) : Prop := 0 ≤ draw.float64 ∧ draw.float64 < 1

/-- A call of `Next` in the state `s`. -/
structure ValidTick (s : SyntheticSource K) (symbol : String) (draw : Draw K) : Prop where
  cents : Cents (next s symbol draw).1.1
  near : |(next s symbol draw).1.1 - previous s symbol| ≤
    ((1 / 200 : ℚ) : K) * previous s symbol + ((1 / 200 : ℚ) : K)
  stored : (next s symbol draw).2.last symbol = some (next s symbol draw).1.1
  others : ∀ other, other ≠ symbol → (next s symbol draw).2.last other = s.last other

variable [IsStrictOrderedRing K]

theorem Cents.pos {x : K} (h : Cents x) : 0 < x := by
  obtain ⟨n, hn, rfl⟩ := h
  have hcast : (0 : K) < n := by exact_mod_cast hn
  positivity

theorem seedPrice_cents (symbol : String) : Cents (seedPrice symbol : K) := by
  have hpos : ∀ x ∈ basePrices, 0 < x.2 := by decide
  have hseed : 0 < (basePrices.lookup symbol).getD 100 := by
    cases h : basePrices.lookup symbol with
    | none => decide
    | some n =>
      obtain ⟨l, r, hmem, -⟩ := List.lookup_eq_some_iff.mp h
      exact hpos (symbol, n) (hmem ▸ List.mem_append_right l List.mem_cons_self)
  refine ⟨((basePrices.lookup symbol).getD 100 : ℕ) * 100, by positivity, ?_⟩
  rw [seedPrice]
  push_cast
  field_simp

theorem newSyntheticSource_wellPriced (symbols : List String) :
    WellPriced (newSyntheticSource symbols : SyntheticSource K) := by
  intro symbol p hp
  suffices h : ∀ last : String → Option K, (∀ p, last symbol = some p → Cents p) →
      ∀ p, symbols.foldl (fun last s => Function.update last s (some (seedPrice s))) last symbol =
        some p → Cents p from
    h (fun _ => none) (fun _ hnone => by cases hnone) p hp
  clear hp
  induction symbols with
  | nil => exact fun last hlast => hlast
  | cons s symbols ih =>
    intro last hlast
    refine ih (Function.update last s (some (seedPrice s))) ?_
    intro q hq
    by_cases hs : symbol = s
    · rw [hs, Function.update_self] at hq
      cases hq
      exact seedPrice_cents s
    · rw [Function.update_of_ne hs] at hq
      exact hlast q hq

theorem WellPriced.previous {s : SyntheticSource K} (h : WellPriced s) (symbol : String) :
    Cents (previous s symbol) := by
  rw [MarketData.previous]
  cases hlast : s.last symbol with
  | none => exact seedPrice_cents symbol
  | some p => exact h symbol p hlast

/-! ## One step -/

/-- A step of the walk from `n` cents, before it is rounded: no lower than
199/200 of a cent, so that rounding leaves a cent. -/
theorem step_cents {n : ℤ} (hn : 0 < n) {u : K} (h0 : 0 ≤ u) (h1 : u < 1) {y : K}
    (hy : y = n * (1 + (u - 1 / 2) / 100)) :
    199 / 200 ≤ y ∧ |y - n| ≤ n / 200 := by
  have hone : (1 : K) ≤ n := by exact_mod_cast hn
  have hdiff : y - n = n * ((u - 1 / 2) / 100) := by rw [hy]; ring
  have habs : |(u - 1 / 2) / 100| ≤ 1 / 200 := by
    rw [abs_le]
    constructor <;> linarith
  have hdist : |y - n| ≤ n / 200 := by
    rw [hdiff, abs_mul, abs_of_pos (by linarith)]
    calc (n : K) * |(u - 1 / 2) / 100| ≤ n * (1 / 200) :=
          mul_le_mul_of_nonneg_left habs (by linarith)
      _ = n / 200 := by ring
  refine ⟨?_, hdist⟩
  have hlow := (abs_le.mp hdist).1
  linarith

omit [IsStrictOrderedRing K] in
theorem mathRound_of_nonneg {y : K} (h : 0 ≤ y) : mathRound y = round y := if_pos h

theorem mathRound_pos {y : K} (h : 199 / 200 ≤ y) : 0 < mathRound y := by
  rw [mathRound_of_nonneg (by linarith), round_eq]
  have hle : (1 : ℤ) ≤ ⌊y + 1 / 2⌋ := Int.le_floor.mpr (by push_cast; linarith)
  omega

variable {s : SyntheticSource K} {draw : Draw K}

/-- The guards of `Next` never fire: the price is a step from the previous one,
rounded. -/
theorem next_price (hs : WellPriced s) (symbol : String) (hdraw : draw.Valid) : ∃ (n : ℤ) (y : K),
    previous s symbol = n / 100 ∧ 199 / 200 ≤ y ∧ |y - n| ≤ n / 200 ∧
      (next s symbol draw).1.1 = (mathRound y : K) / 100 := by
  obtain ⟨n, hn, hprev⟩ := hs.previous symbol
  push_cast at hprev
  have hstart : ((s.last symbol).filter fun prev => ¬ prev ≤ 0).getD (seedPrice symbol) =
      previous s symbol := by
    rw [previous]
    cases hlast : s.last symbol with
    | none => rfl
    | some p =>
      rw [Option.filter_some, if_pos (decide_eq_true (not_le.mpr (hs symbol p hlast).pos))]
  obtain ⟨hlow, hnear⟩ := step_cents hn hdraw.1 hdraw.2 rfl
  refine ⟨n, _, hprev, hlow, hnear, ?_⟩
  have hstep : previous s symbol * (1 + (draw.float64 - ((1 / 2 : ℚ) : K)) / ((100 : ℕ) : K)) *
      ((100 : ℕ) : K) = n * (1 + (draw.float64 - 1 / 2) / 100) := by
    rw [hprev]
    push_cast
    ring
  have hguard : ¬ previous s symbol *
      (1 + (draw.float64 - ((1 / 2 : ℚ) : K)) / ((100 : ℕ) : K)) ≤ 0 := by
    intro hle
    have hle' := mul_nonpos_of_nonpos_of_nonneg hle (Nat.cast_nonneg (α := K) 100)
    rw [hstep] at hle'
    linarith
  simp only [next, hstart, if_neg hguard, hstep]
  push_cast
  rfl

/-- A call of `Next` gives a valid tick. -/
theorem WellPriced.tick (hs : WellPriced s) (symbol : String) (hdraw : draw.Valid) :
    ValidTick s symbol draw := by
  obtain ⟨n, y, hprev, hlow, hnear, hprice⟩ := next_price hs symbol hdraw
  have hround : |(mathRound y : K) - y| ≤ 1 / 2 := by
    rw [mathRound_of_nonneg (by linarith), abs_sub_comm]
    exact abs_sub_round y
  refine ⟨⟨mathRound y, mathRound_pos hlow, ?_⟩, ?_, Function.update_self .., ?_⟩
  · rw [hprice]
    push_cast
    rfl
  · have hsplit : (mathRound y : K) / 100 - n / 100 = ((mathRound y - y) + (y - n)) / 100 := by ring
    have htri := abs_add_le ((mathRound y : K) - y) (y - n)
    rw [hprice, hprev, hsplit, abs_div, abs_of_pos (by norm_num : (0 : K) < 100)]
    push_cast
    linarith
  · intro other hother
    exact Function.update_of_ne hother ..

theorem WellPriced.next (hs : WellPriced s) (symbol : String) (hdraw : draw.Valid) :
    WellPriced (next s symbol draw).2 := by
  have htick := hs.tick symbol hdraw
  intro other p hp
  by_cases h : other = symbol
  · rw [h, htick.stored] at hp
    cases hp
    exact htick.cents
  · rw [htick.others other h] at hp
    exact hs other p hp

/-! ## Runs -/

theorem WellPriced.after (hs : WellPriced s) {calls : List (String × Draw K)}
    (hdraws : ∀ c ∈ calls, c.2.Valid) : WellPriced (after s calls) := by
  induction calls generalizing s with
  | nil => exact hs
  | cons c calls ih =>
    exact ih (hs.next c.1 (hdraws c List.mem_cons_self))
      fun d hd => hdraws d (List.mem_cons_of_mem _ hd)

/-- Every price the source ever gives, whatever was asked of it before. -/
theorem prices_stay_valid (symbols : List String) (calls : List (String × Draw K))
    (hcalls : ∀ c ∈ calls, c.2.Valid) (symbol : String) (draw : Draw K) (hdraw : draw.Valid) :
    ValidTick (after (newSyntheticSource symbols) calls) symbol draw :=
  ((newSyntheticSource_wellPriced symbols).after hcalls).tick symbol hdraw

/-- `prices_stay_valid` at a symbol that is not listed and the lowest draws. -/
theorem prices_stay_valid_lowest :
    ValidTick (after (newSyntheticSource ["AAPL"] : SyntheticSource ℚ)
      [("ZZZZ", ⟨0, 7⟩), ("AAPL", ⟨999 / 1000, 0⟩)]) "ZZZZ" ⟨0, 3⟩ := by
  refine prices_stay_valid ["AAPL"] _ ?_ "ZZZZ" _ ⟨by norm_num, by norm_num⟩
  intro c hc
  rcases List.mem_cons.mp hc with rfl | hc
  · exact ⟨by norm_num, by norm_num⟩
  · rw [List.mem_singleton.mp hc]
    exact ⟨by norm_num, by norm_num⟩

/-! ## What is published -/

/-- A `TickReceived.v1` envelope for one of the symbols. -/
structure Envelope.Received (symbols : List String) (env : Envelope K) : Prop where
  event_type : env.event_type = "TickReceived"
  symbol : env.data.symbol ∈ symbols
  price : Cents env.data.price
  volume : 0 < env.data.volume

theorem WellPriced.publishOnce (hs : WellPriced s) (source : String) (symbols : List String)
    {turn : ℕ → Turn K} (hturn : ∀ n, (turn n).draw.Valid) :
    WellPriced (publishOnce source symbols turn s).2 ∧
      ∀ env ∈ (publishOnce source symbols turn s).1, env.Received symbols := by
  induction symbols generalizing s turn with
  | nil => exact ⟨hs, fun env henv => by cases henv⟩
  | cons sym syms ih =>
    obtain ⟨hrest, henvs⟩ := ih (hs.next sym (hturn 0)) fun n => hturn (n + 1)
    refine ⟨hrest, fun env henv => ?_⟩
    rcases List.mem_append.mp henv with henv | henv
    · have hmem : env = newTickEnvelope sym (MarketData.next s sym (turn 0).draw).1.1
          (MarketData.next s sym (turn 0).draw).1.2 source (turn 0) := by
        split at henv
        · exact List.mem_singleton.mp henv
        · cases henv
      rw [hmem]
      exact ⟨rfl, List.mem_cons_self, (hs.tick sym (hturn 0)).cents, Nat.succ_pos _⟩
    · have hreceived := henvs env henv
      exact { hreceived with symbol := List.mem_cons_of_mem _ hreceived.symbol }

/-- Every envelope that ever reaches the stream. -/
theorem WellPriced.run (hs : WellPriced s) (source : String) (symbols : List String)
    {rounds : List (ℕ → Turn K)} (hrounds : ∀ turn ∈ rounds, ∀ n, (turn n).draw.Valid) :
    ∀ env ∈ run source symbols rounds s, env.Received symbols := by
  induction rounds generalizing s with
  | nil => exact fun env henv => by cases henv
  | cons turn rounds ih =>
    obtain ⟨hnext, henvs⟩ := hs.publishOnce source symbols (hrounds turn List.mem_cons_self)
    intro env henv
    rcases List.mem_append.mp henv with henv | henv
    · exact henvs env henv
    · exact ih hnext (fun t ht => hrounds t (List.mem_cons_of_mem _ ht)) env henv

end Source

end TradePulse.MarketData
