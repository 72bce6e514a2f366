import TradePulse.Pipeline.Agreement
import TradePulse.Risk.Portfolio
import TradePulse.Risk.Prices
import Mathlib.Algebra.BigOperators.Group.Finset.Piecewise
import Mathlib.Algebra.BigOperators.Ring.List

/-! # The portfolio value is the mark-to-market of all fills

Trades as the ledger posts them and ticks between them, taken up by the risk
engine in this order. The cash lies in the deduplicated event log, the
positions in its last rows and the prices in a cache; the value that comes of
the three is what every fill has gained since. -/
namespace TradePulse.Pipeline
open TradePulse.Core TradePulse.Core.Transactions TradePulse.Ledger TradePulse.Risk

/-! ## Statement -/

/-- A posted trade: what was asked for, what `postTrade` read and drew, and how
the numbers of its envelope read back. -/
structure Fill where
  req : TradeRequestDto
  draws : Draws
  rendering : Rendering ℚ

namespace Fill

/-- What `postTrade` puts in the outbox. -/
def envelope (f : Fill) : LedgerUpdatedEnvelope := f.draws.envelope f.req

def pair (f : Fill) : String × String := (f.req.account_id, f.req.symbol)

end Fill

/-- What the risk engine takes up. -/
inductive Input where
  | fill (f : Fill)
  | tick (envelope : Json ℚ)

def Input.fill? : Input → Option Fill
  | .fill f => some f
  | .tick _ => none

/-- The symbol and the price of a tick. -/
def Input.tick? : Input → Option (String × ℚ)
  | .fill _ => none
  | .tick env => (env.data.field "symbol").text?.map fun y => (y, (env.data.field "price").number)

def fillsOf (inputs : List Input) : List Fill := inputs.filterMap Input.fill?

/-- The last fill of an account in a symbol. -/
def lastFill (inputs : List Input) (pair : String × String) : Option Fill :=
  ((fillsOf inputs).filter (·.pair = pair)).getLast?

/-- The last `position_after`, or 0. -/
def lastPosition (inputs : List Input) (pair : String × String) : ℚ :=
  ((lastFill inputs pair).map (·.envelope.data.position_after)).getD 0

def lastTick (inputs : List Input) (symbol : String) : Option ℚ :=
  (((inputs.filterMap Input.tick?).filter (·.1 = symbol)).getLast?).map (·.2)

/-- The price of the last tick of the symbol, or else of the last fill. -/
def mark (inputs : List Input) (pair : String × String) : ℚ :=
  (lastTick inputs pair.2).getD (((lastFill inputs pair).map (·.req.price)).getD 0)

/-- What the fills of the account have gained. -/
def gains (inputs : List Input) (account : String) : ℚ :=
  (((fillsOf inputs).filter (·.req.account_id = account)).map fun f =>
    f.req.signedQty * (mark inputs f.pair - f.req.price)).sum

/-- A fill that is new, and whose trade read the position of those before it. -/
structure Fill.Next (inputs : List Input) (f : Fill) : Prop where
  renders : Renders id f.rendering f.envelope.data
  account_id : f.req.account_id ≠ ""
  symbol : f.req.symbol ≠ ""
  distinct : ∀ earlier ∈ fillsOf inputs,
    earlier.envelope.event_id.toString ≠ f.envelope.event_id.toString
  position : f.draws.position = lastPosition inputs f.pair

/-- Distinct events as the ledger builds them, and ticks anywhere among them. -/
inductive Fed : List Input → Prop
  | nil : Fed []
  | fill {inputs : List Input} {f : Fill} : Fed inputs → f.Next inputs → Fed (inputs ++ [.fill f])
  | tick {inputs : List Input} {env : Json ℚ} : Fed inputs → TickValid env →
      Fed (inputs ++ [.tick env])

/-- The consumer on one input. -/
def takeUp (config : Config ℚ) : Input → RiskM ℚ Unit
  | .fill f => (fun _ => ()) <$> processLedgerEnvelope config (document f.rendering f.envelope)
  | .tick env => (fun _ => ()) <$> processTickEnvelope config env

/-- The world after some inputs. -/
def takenUp (config : Config ℚ) (supply : Supply ℚ) (inputs : List Input)
    (w : RiskWorld ℚ × ℕ) : RiskWorld ℚ × ℕ :=
  inputs.foldl (fun w i => (calmly supply (takeUp config i) w).2) w

/-- The envelope of a trade that is about to be posted is that of a fill, with
the position that the transaction has read. -/
theorem posted_is_fill {rules : ComplianceRules} {P : Db → Prop}
    {ok : LedgerState → LedgerAct → Prop} {s : LedgerState}
    (h : Runs.Reach (ledgerStep rules) ok (initial P) s) {n : ℕ} {mdc : Option String}
    {req : TradeRequestDto} {es : List Ledger.LedgerEvent} {out : PostOutcome}
    (get : s.txns[n]? = some ⟨.postTrade mdc req, es, .ret (.trade out), .active⟩)
    (posted : out.isPosted = true) {o : OutboxRow LedgerUpdatedEnvelope}
    (ho : .outbox o ∈ writesOf es) (r : Rendering ℚ) :
    ∃ f : Fill, f.req = req ∧ f.rendering = r ∧ f.envelope = o.payload ∧
      positionRead es = some f.draws.position := by
  have hf := finished (faithful h _ (List.mem_of_getElem? get))
  generalize hc : Call.postTrade mdc req = c at hf
  generalize hr : Reply.trade out = reply at hf
  cases hf with
  | duplicate =>
    cases hr
    cases posted
  | rejected =>
    cases hr
    cases posted
  | posted trace rows writes read compliant =>
    cases hc
    rw [writes, rows.mem_outbox] at ho
    exact ⟨⟨req, _, r⟩, rfl, rfl, ho ▸ rows.payload.symm, read⟩
  | credited => cases hc

/-! ## One input -/

section Step

variable {config : Config ℚ} {supply : Supply ℚ} {inputs : List Input}

/-- The row of a fill. -/
def rowFor (f : Fill) : AppliedEvent ℚ where
  event_id := some f.envelope.event_id.toString
  account_id := f.req.account_id
  symbol := f.req.symbol
  side := some f.req.side
  quantity := some f.req.quantity
  price := some f.req.price
  cash_delta := f.req.cashDelta
  position_after := f.draws.position + f.req.signedQty
  correlation_id := some f.draws.correlationId
  posted_at := some (f.rendering.instant f.draws.now)

theorem reads_exact {q : ℚ} {x : Json ℚ} (h : ReadsAs id q x) :
    x.toFloat = .ok q ∧ x.asFloat = .ok (some q) := by
  have hfloat : x.toFloat = .ok q := h.toFloat doubles_id fun _ _ => rfl
  exact ⟨hfloat, asFloat_of_toFloat h.ne_null hfloat⟩

/-- In exact arithmetic the reader finds the event of every fill. -/
theorem ledgerEvent_fill {f : Fill} (h : f.Next inputs) :
    ledgerEvent (document f.rendering f.envelope) = .ok (some (eventFor f.rendering f.envelope
      (some f.req.quantity) (some f.req.price) f.req.cashDelta
      (f.draws.position + f.req.signedQty))) := by
  have hquantity : f.rendering.quantity.asFloat = .ok (some f.req.quantity) :=
    (reads_exact h.renders.quantity).2
  have hprice : f.rendering.price.asFloat = .ok (some f.req.price) :=
    (reads_exact h.renders.price).2
  have hcash : f.rendering.cash_delta.toFloat = .ok f.req.cashDelta :=
    (reads_exact h.renders.cash_delta).1
  have hposition : f.rendering.position_after.toFloat = .ok (f.draws.position + f.req.signedQty) :=
    (reads_exact h.renders.position_after).1
  have hnamed : ¬ (f.envelope.data.account_id = "" ∨ f.envelope.data.symbol = "") :=
    not_or.mpr ⟨h.account_id, h.symbol⟩
  rw [ledgerEvent_document h.renders, if_neg hnamed]
  simp only [hquantity, hprice, hcash, hposition, bind, Except.bind]
  rfl

/-- A new fill becomes a row of the event log. -/
theorem takeUp_fill {f : Fill} (h : f.Next inputs) {w : RiskWorld ℚ} {n : ℕ}
    (hnew : w.store.IsNew (rowFor f)) :
    ∃ w' n', (calmly supply (takeUp config (.fill f)) (w, n)).2 = (w', n') ∧
      w'.store.applied_events = w.store.applied_events ++ [rowFor f] ∧
      w'.store.price_cache = w.store.price_cache := by
  have hrow : (eventFor f.rendering f.envelope (some f.req.quantity) (some f.req.price)
      f.req.cashDelta (f.draws.position + f.req.signedQty)).row = .ok (some (rowFor f)) := rfl
  have hprocess : processLedgerEnvelope config (document f.rendering f.envelope) = (do
      let newlyApplied ← Prog.perform (RiskCall.applyLedgerEvent (eventFor f.rendering f.envelope
        (some f.req.quantity) (some f.req.price) f.req.cashDelta
        (f.draws.position + f.req.signedQty)))
      if !newlyApplied then return none
      some <$> buildRiskEnvelope config (.str f.req.account_id) (.str f.draws.correlationId)) := by
    rw [processLedgerEnvelope, ledgerEvent_fill h]
    rfl
  obtain ⟨env, snapshots, n', hbuild, -⟩ := calmly_build supply (n := n + 1)
    (w := { w with store := w.store.withRow (rowFor f) }) (c := .str f.draws.correlationId)
    (valued_exact config (w.store.withRow (rowFor f)) (a := .str f.req.account_id) rfl)
  refine ⟨{ w with store := { w.store.withRow (rowFor f) with risk_snapshots := snapshots }
                   unpublished := true }, n', ?_, rfl, rfl⟩
  rw [takeUp, Prog.eval_map_world, hprocess,
    Prog.eval_bind_ok (calmly_perform (i := .applyLedgerEvent _)
      (stored_ok (apply_new hrow hnew)))]
  exact congrArg Prod.snd (Prog.eval_map_ok hbuild)

/-- A tick becomes the price of its symbol. -/
theorem takeUp_tick {env : Json ℚ} (h : TickValid env) (w : RiskWorld ℚ) (n : ℕ) :
    ∃ y p w' n', (Input.tick env).tick? = some (y, p) ∧
      (calmly supply (takeUp config (.tick env)) (w, n)).2 = (w', n') ∧
      w'.store.applied_events = w.store.applied_events ∧
      ∀ z, w'.store.getPrice z = if z = y then some p else w.store.getPrice z := by
  obtain ⟨y, t, hy, htick⟩ := h.tickOf
  have hbind : ∀ z, (Json.str z : Json ℚ).bindText = .ok (some z) := fun _ => rfl
  have hnan : PyFloat.isNaN (env.data.field "price").number = false := rfl
  obtain ⟨s₁, h₁, -⟩ := w.store.upsertPrice_ok (hbind y) hnan
  -- the cached price stays when the append raises
  let x := RiskStore.committed (s₁.appendPrice (.str y) (env.data.field "price").number
    config.window_size (.str t))
  let w₁ : RiskWorld ℚ := { w with store := s₁ }
  have happ : calmly supply (Prog.perform (RiskCall.appendPrice (.str y)
      (env.data.field "price").number config.window_size (.str t))) (w₁, n + 1) =
      (x.map Prod.fst, w₁.wrote x, n + 1 + 1) :=
    calmly_perform (i := .appendPrice ..) (stored_wrote w₁ x)
  have hevents : (w₁.wrote x).store.applied_events = s₁.applied_events :=
    wrote_frame _ fun _ _ h => by rw [RiskStore.appendPrice_only h]
  have hcache : (w₁.wrote x).store.price_cache = s₁.price_cache :=
    wrote_frame _ fun _ _ h => by rw [RiskStore.appendPrice_only h]
  refine ⟨y, (env.data.field "price").number, w₁.wrote x, n + 1 + 1, ?_, ?_, ?_, fun z => ?_⟩
  · rw [Input.tick?, hy]
    rfl
  · rw [takeUp, Prog.eval_map_world, processTickEnvelope_eq, htick,
      Prog.eval_bind_ok (Prog.eval_ofExcept _ _), recordTick, Prog.eval_bind_ok (calmly_upsert h₁)]
    exact (Prog.eval_map_world _ (fun _ => true) _).trans (congrArg Prod.snd happ)
  · rw [hevents, RiskStore.upsertPrice_only h₁]
  · rw [← getPrice_upsert rfl h₁ z, RiskStore.getPrice, hcache, RiskStore.getPrice]

end Step

/-! ## The tables mirror the inputs -/

section Mirror

variable {config : Config ℚ} {supply : Supply ℚ} {inputs : List Input} {s : RiskStore ℚ}
  {a : String}

theorem fillsOf_fill (inputs : List Input) (f : Fill) :
    fillsOf (inputs ++ [.fill f]) = fillsOf inputs ++ [f] := by
  rw [fillsOf, List.filterMap_append]
  rfl

theorem fillsOf_tick (inputs : List Input) (env : Json ℚ) :
    fillsOf (inputs ++ [.tick env]) = fillsOf inputs := by
  rw [fillsOf, List.filterMap_append]
  exact List.append_nil _

theorem lastTick_fill (inputs : List Input) (f : Fill) (y : String) :
    lastTick (inputs ++ [.fill f]) y = lastTick inputs y := by
  have hticks : (inputs ++ [Input.fill f]).filterMap Input.tick? = inputs.filterMap Input.tick? := by
    rw [List.filterMap_append]
    exact List.append_nil _
  rw [lastTick, hticks, lastTick]

theorem lastTick_tick (inputs : List Input) {env : Json ℚ} {z : String} {p : ℚ}
    (h : (Input.tick env).tick? = some (z, p)) (y : String) :
    lastTick (inputs ++ [.tick env]) y = if y = z then some p else lastTick inputs y := by
  rw [lastTick, List.filterMap_append, List.filterMap_cons, h, List.filterMap_nil,
    List.filter_append, List.filter_singleton]
  by_cases hy : y = z
  · simp [hy]
  · simp [hy, Ne.symm hy, lastTick]

/-- The event log holds the fills, the cache the last ticks. -/
structure Mirrors (inputs : List Input) (s : RiskStore ℚ) : Prop where
  rows : s.applied_events = (fillsOf inputs).map rowFor
  prices : ∀ y, s.getPrice y = lastTick inputs y

theorem takenUp_snoc (config : Config ℚ) (supply : Supply ℚ) (inputs : List Input) (i : Input)
    (w : RiskWorld ℚ × ℕ) : takenUp config supply (inputs ++ [i]) w =
      (calmly supply (takeUp config i) (takenUp config supply inputs w)).2 := by
  rw [takenUp, List.foldl_append]
  rfl

theorem Fed.mirrors (h : Fed inputs) {w : RiskWorld ℚ × ℕ} (hw : w.1.store = .empty) :
    Mirrors inputs (takenUp config supply inputs w).1.store := by
  induction h with
  | nil => exact ⟨congrArg RiskStore.applied_events hw, fun y => congrArg (·.getPrice y) hw⟩
  | @fill inputs f hfed hnext ih =>
    have hnew : (takenUp config supply inputs w).1.store.IsNew (rowFor f) := by
      rintro ⟨-, hmem⟩
      rw [ih.rows, List.map_map] at hmem
      obtain ⟨earlier, hearlier, heq⟩ := List.mem_map.mp hmem
      exact hnext.distinct earlier hearlier (Option.some.inj heq)
    rw [takenUp_snoc]
    generalize takenUp config supply inputs w = v at ih hnew ⊢
    obtain ⟨w', n', hstep, hrows, hcache⟩ :=
      takeUp_fill (w := v.1) (n := v.2) hnext hnew
    rw [hstep]
    refine ⟨?_, fun y => ?_⟩
    · rw [hrows, ih.rows, fillsOf_fill, List.map_append]
      rfl
    · rw [lastTick_fill, ← ih.prices y, RiskStore.getPrice, hcache]
      rfl
  | @tick inputs env hfed htick ih =>
    rw [takenUp_snoc]
    generalize takenUp config supply inputs w = v at ih ⊢
    obtain ⟨y, p, w', n', hp, hstep, hrows, hprices⟩ := takeUp_tick htick v.1 v.2
    rw [hstep]
    refine ⟨?_, fun z => ?_⟩
    · rw [hrows, ih.rows, fillsOf_tick]
    · rw [hprices, ih.prices, lastTick_tick inputs hp]

/-! ## Positions telescope -/

theorem lastFill_fill (inputs : List Input) (f : Fill) (pair : String × String) :
    lastFill (inputs ++ [.fill f]) pair = if f.pair = pair then some f else lastFill inputs pair := by
  rw [lastFill, fillsOf_fill, List.filter_append, List.filter_singleton]
  by_cases hp : f.pair = pair
  · simp [hp]
  · simp [hp, lastFill]

/-- The position is the sum of the signed quantities. -/
theorem Fed.lastPosition (h : Fed inputs) (pair : String × String) :
    lastPosition inputs pair =
      (((fillsOf inputs).filter (·.pair = pair)).map (·.req.signedQty)).sum := by
  induction h with
  | nil => rfl
  | @fill inputs f hfed hnext ih =>
    rw [Pipeline.lastPosition, lastFill_fill, fillsOf_fill, List.filter_append,
      List.filter_singleton, List.map_append, List.sum_append, ← ih]
    by_cases hp : f.pair = pair
    · have hafter : f.envelope.data.position_after = Pipeline.lastPosition inputs pair + f.req.signedQty :=
        congrArg (· + f.req.signedQty) (hp ▸ hnext.position)
      simp [hp, hafter]
    · simp [hp, Pipeline.lastPosition]
  | @tick inputs env hfed htick ih =>
    rw [fillsOf_tick, ← ih, Pipeline.lastPosition, Pipeline.lastPosition, lastFill, lastFill,
      fillsOf_tick]

/-! ## The value -/

theorem cashDelta_eq (req : TradeRequestDto) : req.cashDelta = -(req.signedQty * req.price) := by
  unfold TradeRequestDto.cashDelta TradeRequestDto.signedQty TradeRequestDto.amount
  split <;> ring

theorem Mirrors.lastRow_eq (h : Mirrors inputs s) (a y : String) :
    lastRow s a y = (lastFill inputs (a, y)).map rowFor := by
  rw [lastRow, rowsOf, h.rows, List.filter_map, List.getLast?_map]
  rfl

theorem Mirrors.position_eq (h : Mirrors inputs s) (a y : String) :
    positionOf s a y = lastPosition inputs (a, y) := by
  rw [Risk.positionOf, h.lastRow_eq, Option.map_map]
  rfl

theorem Mirrors.mark_eq (h : Mirrors inputs s) (a y : String) :
    markOf s a y = mark inputs (a, y) := by
  rw [markOf, h.prices, h.lastRow_eq, Option.bind_map]
  cases hf : lastFill inputs (a, y) with
  | none => simp [mark, hf]
  | some f => simp [mark, hf, rowFor]

theorem Mirrors.rows_eq (h : Mirrors inputs s) (a : String) :
    rowsFor s a = ((fillsOf inputs).filter (·.req.account_id = a)).map rowFor := by
  rw [rowsFor, h.rows, List.filter_map]
  rfl

/-- A sum over rows, taken symbol by symbol. -/
theorem sum_by_symbol {fs : List Fill} {ys : Finset String} (hys : ∀ f ∈ fs, f.req.symbol ∈ ys)
    (g : Fill → ℚ) :
    ∑ y ∈ ys, ((fs.filter (·.req.symbol = y)).map g).sum = (fs.map g).sum := by
  induction fs with
  | nil => simp
  | cons f fs ih =>
    have hsplit : ∀ y, (((f :: fs).filter (·.req.symbol = y)).map g).sum =
        (if f.req.symbol = y then g f else 0) + ((fs.filter (·.req.symbol = y)).map g).sum := by
      intro y
      rw [List.filter_cons]
      by_cases hy : f.req.symbol = y <;> simp [hy]
    rw [Finset.sum_congr rfl fun y _ => hsplit y, Finset.sum_add_distrib,
      ih fun f' hf' => hys f' (List.mem_cons_of_mem f hf'), Finset.sum_ite_eq,
      if_pos (hys f (List.mem_cons_self ..)), List.map_cons, List.sum_cons]

theorem Mirrors.value_eq (h : Mirrors inputs s) (hfed : Fed inputs) (a : String) (seed : ℚ) :
    portfolioValue s a seed = seed + gains inputs a := by
  have hmarket : ∑ y ∈ symbolsOf s a, positionOf s a y * markOf s a y =
      (((fillsOf inputs).filter (·.req.account_id = a)).map fun f =>
        f.req.signedQty * mark inputs f.pair).sum := by
    have hsymbols : ∀ f ∈ (fillsOf inputs).filter (·.req.account_id = a),
        f.req.symbol ∈ symbolsOf s a := by
      intro f hf
      rw [symbolsOf, h.rows_eq, List.mem_toFinset, List.map_map]
      exact List.mem_map_of_mem hf
    rw [← sum_by_symbol hsymbols]
    refine Finset.sum_congr rfl fun y _ => ?_
    have hpair : ((fillsOf inputs).filter (·.req.account_id = a)).filter (·.req.symbol = y) =
        (fillsOf inputs).filter (·.pair = (a, y)) := by
      rw [List.filter_filter]
      refine List.filter_congr fun f _ => ?_
      simp [Fill.pair, Bool.and_comm]
    rw [h.position_eq, h.mark_eq, hfed.lastPosition, hpair, ← List.sum_map_mul_right]
    refine congrArg List.sum (List.map_congr_left fun f hf => ?_)
    rw [of_decide_eq_true (List.mem_filter.mp hf).2]
  have hcash : ((rowsFor s a).map (·.cash_delta)).sum =
      (((fillsOf inputs).filter (·.req.account_id = a)).map fun f =>
        -(f.req.signedQty * f.req.price)).sum := by
    rw [h.rows_eq, List.map_map]
    exact congrArg List.sum (List.map_congr_left fun f _ => cashDelta_eq f.req)
  rw [portfolioValue, hmarket, hcash, add_assoc, ← List.sum_map_add, gains]
  refine congrArg (seed + List.sum ·) (List.map_congr_left fun f _ => ?_)
  ring

/-- Cash and market value after fed inputs. -/
theorem Fed.value (config : Config ℚ) (supply : Supply ℚ) (h : Fed inputs)
    {w : RiskWorld ℚ × ℕ} (hw : w.1.store = .empty) (a : String) :
    ∃ cash positions,
      (takenUp config supply inputs w).1.store.accountCash (.str a) config.seed_cash = .ok cash ∧
      (takenUp config supply inputs w).1.store.resolvedPositions (.str a) = .ok positions ∧
      cash + marketValue positions = config.seed_cash + gains inputs a := by
  obtain ⟨cash, positions, hcash, hpositions, hvalue⟩ :=
    portfolioValue_eq (takenUp config supply inputs w).1.store a config.seed_cash
  exact ⟨cash, positions, hcash, hpositions, hvalue.trans ((h.mirrors hw).value_eq h a _)⟩

/-- **Mark to market.** After any distinct fills, as the ledger posts them, and
any ticks among them, what the metrics of an account are computed from is worth
the seed and what each of its fills has gained at the price of its symbol. -/
theorem mark_to_market (config : Config ℚ) (supply : Supply ℚ) (h : Fed inputs)
    {w : RiskWorld ℚ × ℕ} (hw : w.1.store = .empty) (a : String) :
    ∃ cash positions,
      (takenUp config supply inputs w).1.store.accountCash (.str a) config.seed_cash = .ok cash ∧
      (takenUp config supply inputs w).1.store.resolvedPositions (.str a) = .ok positions ∧
      cash + marketValue positions - config.seed_cash = gains inputs a ∧
      cash + marketValue positions = config.seed_cash + gains inputs a ∧
      ∀ pvReturns, ∃ m, computeMetrics cash positions config.seed_cash pvReturns = .ok m ∧
        m.pnl = PyFloat.round (gains inputs a) 2 ∧
        m.portfolio_value = PyFloat.round (config.seed_cash + gains inputs a) 2 := by
  obtain ⟨cash, positions, hcash, hpositions, hvalue⟩ := h.value config supply hw a
  have hpnl : cash + marketValue positions - config.seed_cash = gains inputs a := by
    rw [hvalue]
    ring
  refine ⟨cash, positions, hcash, hpositions, hpnl, hvalue, fun pvReturns => ?_⟩
  rw [← hvalue, ← hpnl]
  exact computeMetrics_exact cash positions config.seed_cash pvReturns

/-- A posted trade is a fill among these: of a transaction that has read the
position of the fills before it, the value counts in what its trade gains. -/
theorem posted_marked {rules : ComplianceRules} {P : Db → Prop}
    {ok : LedgerState → LedgerAct → Prop} {s : LedgerState}
    (reach : Runs.Reach (ledgerStep rules) ok (initial P) s) {n : ℕ} {mdc : Option String}
    {req : TradeRequestDto} {es : List Ledger.LedgerEvent} {out : PostOutcome}
    (get : s.txns[n]? = some ⟨.postTrade mdc req, es, .ret (.trade out), .active⟩)
    (posted : out.isPosted = true) {o : OutboxRow LedgerUpdatedEnvelope}
    (ho : .outbox o ∈ writesOf es) {r : Rendering ℚ} (renders : Renders id r o.payload.data)
    (named : req.account_id ≠ "" ∧ req.symbol ≠ "") (h : Fed inputs)
    (distinct : ∀ earlier ∈ fillsOf inputs,
      earlier.envelope.event_id.toString ≠ o.payload.event_id.toString)
    (position : positionRead es = some (Pipeline.lastPosition inputs (req.account_id, req.symbol)))
    (config : Config ℚ) (supply : Supply ℚ) {w : RiskWorld ℚ × ℕ} (hw : w.1.store = .empty)
    (a : String) : ∃ f : Fill, f.req = req ∧ f.envelope = o.payload ∧ ∃ cash positions,
      (takenUp config supply (inputs ++ [.fill f]) w).1.store.accountCash (.str a)
        config.seed_cash = .ok cash ∧
      (takenUp config supply (inputs ++ [.fill f]) w).1.store.resolvedPositions (.str a) =
        .ok positions ∧
      cash + marketValue positions = config.seed_cash + gains (inputs ++ [.fill f]) a := by
  obtain ⟨f, rfl, rfl, henv, hread⟩ := posted_is_fill reach get posted ho r
  rw [← henv] at renders distinct
  have hposition : f.draws.position = Pipeline.lastPosition inputs f.pair :=
    Option.some.inj (hread.symm.trans position)
  have hnext : f.Next inputs := ⟨renders, named.1, named.2, distinct, hposition⟩
  exact ⟨f, rfl, henv, (h.fill hnext).value config supply hw a⟩

end Mirror

/-! ## A purchase, a tick and a sale beyond it -/

def fillOf (n : ℕ) (side : String) (quantity price position : ℚ) : Fill :=
  let req : TradeRequestDto := ⟨uuid n, "A", "X", side, quantity, price, none⟩
  let draws : Draws := ⟨0, 1000, position, uuid n, uuid n, uuid n, uuid n, uuid n, "c"⟩
  ⟨req, draws, integers (draws.envelope req)⟩

def tickAtFive : Json ℚ :=
  .obj [("data", .obj [("symbol", .str "X"), ("price", .int 5), ("tick_time", .str "t")])]

def shortSale : List Input :=
  [.fill (fillOf 1 "BUY" 2 3 0), .tick tickAtFive, .fill (fillOf 2 "SELL" 3 4 2)]

theorem fed_shortSale : Fed shortSale := by
  have hbuy : Fed [.fill (fillOf 1 "BUY" 2 3 0)] := by
    refine Fed.fill .nil ⟨renders_integers (by decide +kernel), by decide +kernel,
      by decide +kernel, ?_, by decide +kernel⟩
    intro earlier hmem
    cases hmem
  have htick : TickValid tickAtFive :=
    ⟨⟨_, rfl⟩, ⟨"X", by decide, rfl⟩, rfl, ⟨"t", rfl⟩⟩
  refine Fed.fill (hbuy.tick htick) ⟨renders_integers (by decide +kernel), by decide +kernel,
    by decide +kernel, ?_, by decide +kernel⟩
  intro earlier hmem
  obtain rfl := List.mem_singleton.mp hmem
  intro heq
  have hlists := congrArg String.toList heq
  simp only [UUID.toString, String.toList_ofList] at hlists
  revert hlists
  decide +kernel

/-- Two bought at 3 and three sold at 4 have gained 1 at a price of 5. -/
theorem mark_to_market_shortSale : ∃ cash positions m,
    (takenUp settings sameSupply shortSale (worldOf [], 0)).1.store.accountCash (.str "A") 1000 =
      .ok cash ∧
    (takenUp settings sameSupply shortSale (worldOf [], 0)).1.store.resolvedPositions (.str "A") =
      .ok positions ∧
    cash + marketValue positions = 1000 + 1 ∧
    computeMetrics cash positions 1000 [] = .ok m ∧ m.pnl = 1 ∧ m.portfolio_value = 1001 := by
  have hgains : gains shortSale "A" = 1 := by decide +kernel
  obtain ⟨cash, positions, hcash, hpositions, -, hvalue, hmetrics⟩ :=
    mark_to_market settings sameSupply fed_shortSale (w := (worldOf [], 0)) rfl "A"
  obtain ⟨m, hm, hpnl, hworth⟩ := hmetrics []
  rw [hgains] at hvalue hpnl hworth
  have hone : (PyFloat.round 1 2 : ℚ) = 1 := by decide +kernel
  have hsum : (PyFloat.round (1000 + 1) 2 : ℚ) = 1001 := by decide +kernel
  exact ⟨cash, positions, m, hcash, hpositions, hvalue, hm, hpnl.trans hone, hworth.trans hsum⟩

end TradePulse.Pipeline
