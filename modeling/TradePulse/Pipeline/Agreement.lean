import TradePulse.Ledger.Records
import TradePulse.Ledger.Relay
import TradePulse.Risk.Exact

/-! # `LedgerUpdated` from the ledger to the risk engine

The ledger writes the envelope of a posted trade as JSON text; the relay puts
the text on the stream and the risk engine parses it and applies the event.
The writer lets through every text that is not null, the reader drops an event
whose account or symbol is empty, so the two agree on all trades but those. -/
namespace TradePulse.Pipeline
open TradePulse.Core TradePulse.Core.Runs TradePulse.Core.Transactions TradePulse.Ledger
  TradePulse.Risk

/-! ## Statement -/

variable {F : Type} [PyFloat F]

/-- How the texts of one envelope read back: the instants as the ledger writes
them, and the numbers, which keep their digits only if they are integers. -/
structure Rendering (F : Type) where
  instant : OffsetDateTime → String
  quantity : Json F
  price : Json F
  cash_delta : Json F
  position_after : Json F

/-- `buildLedgerUpdatedEnvelope`, as `json.loads` reads what Jackson writes. -/
def document (r : Rendering F) (p : LedgerUpdatedEnvelope) : Json F :=
  .obj [("event_id", .str p.event_id.toString), ("event_type", .str p.event_type),
    ("schema_version", .str p.schema_version), ("correlation_id", .str p.correlation_id),
    ("produced_at", .str (r.instant p.produced_at)), ("producer", .str p.producer),
    ("data", .obj [("journal_entry_id", .str p.data.journal_entry_id.toString),
      ("source_event_id", .str p.data.source_event_id.toString),
      ("account_id", .str p.data.account_id), ("symbol", .str p.data.symbol),
      ("side", .str p.data.side), ("quantity", r.quantity), ("price", r.price),
      ("cash_delta", r.cash_delta), ("position_after", r.position_after),
      ("posted_at", .str (r.instant p.data.posted_at))])]

/-- The number is read as an integer, or as the double next to it. -/
def ReadsAs (double : BigDecimal → F) (q : BigDecimal) (x : Json F) : Prop :=
  (∃ n : ℤ, q = n ∧ x = .int n) ∨ x = .float (double q)

structure Renders (double : BigDecimal → F) (r : Rendering F) (d : LedgerUpdatedData) :
    Prop where
  quantity : ReadsAs double d.quantity r.quantity
  price : ReadsAs double d.price r.price
  cash_delta : ReadsAs double d.cash_delta r.cash_delta
  position_after : ReadsAs double d.position_after r.position_after

/-- Conversion to double is that of Python, which raises only for integers
beyond all doubles, and every stored amount is well below those. -/
structure Doubles (double : BigDecimal → F) : Prop where
  ofInt : ∀ n : ℤ, PyFloat.ofInt (F := F) n = none ∨ PyFloat.ofInt n = some (double n)
  column : ∀ n : ℤ, |n| < 10 ^ 20 → (PyFloat.ofInt (F := F) n).isSome = true
  number : ∀ q, PyFloat.isNaN (double q) = false

/-- The entry as redis-py hands it to the worker. -/
def entryOf (f : StreamFields String) : Fields :=
  [("event_type", f.event_type), ("schema_version", f.schema_version), ("event", f.event)]

/-- The row holds what the event says, numbers as doubles. -/
structure RecordedAs (double : BigDecimal → F) (p : LedgerUpdatedEnvelope)
    (row : AppliedEvent F) : Prop where
  event_id : row.event_id = some p.event_id.toString
  account_id : row.account_id = p.data.account_id
  symbol : row.symbol = p.data.symbol
  side : row.side = some p.data.side
  cash_delta : row.cash_delta = double p.data.cash_delta
  position_after : row.position_after = double p.data.position_after

/-- The worker applies the entry as exactly one new row, and nothing it does
after that touches the event log. -/
def AppliedOnce (loads : String → Except PyError (Json F)) (config : Config F)
    (double : BigDecimal → F) (fields : Fields) (store : RiskStore F)
    (p : LedgerUpdatedEnvelope) : Prop :=
  ∃ env e k row, parseEvent loads fields = .ok env ∧
    processLedgerEnvelope config env = .call (.applyLedgerEvent e) k ∧
    store.applyLedgerEvent e =
      .ok (true, { store with applied_events := store.applied_events ++ [row] }) ∧
    RecordedAs double p row ∧ ∀ x, (k x).Only OffLedger

/-- What the reader asks beyond what the writer checks. -/
structure Consumable (r : Rendering F) (req : TradeRequestDto) : Prop where
  account_id : req.account_id ≠ ""
  symbol : req.symbol ≠ ""
  position_after : ∀ n, r.position_after = .int n → (PyFloat.ofInt (F := F) n).isSome = true

/-! ## Numbers -/

section Numbers

variable {double : BigDecimal → F}

omit [PyFloat F] in
theorem ReadsAs.ne_null {q : BigDecimal} {x : Json F} (h : ReadsAs double q x) : x ≠ .null := by
  rcases h with ⟨n, -, rfl⟩ | rfl <;> nofun

/-- A number below every overflow is the double it stands for. -/
theorem ReadsAs.toFloat (hd : Doubles double) {q : BigDecimal} {x : Json F}
    (h : ReadsAs double q x) (hx : ∀ n, x = .int n → (PyFloat.ofInt (F := F) n).isSome = true) :
    x.toFloat = .ok (double q) := by
  rcases h with ⟨n, rfl, rfl⟩ | rfl
  · have hsome := hx n rfl
    rcases hd.ofInt n with hn | hn
    · rw [hn] at hsome
      cases hsome
    · simp only [Json.toFloat, hn]
  · rfl

theorem asFloat_of_toFloat {x : Json F} {y : F} (hx : x ≠ .null) (h : x.toFloat = .ok y) :
    x.asFloat = .ok (some y) := by
  cases x with
  | null => exact absurd rfl hx
  | _ => simp only [Json.asFloat, h]

/-- An integer that a column holds is below twenty digits. -/
theorem column_of_store {n : ℤ} {m : Money} (h : Numeric.store 20 4 (n : ℚ) = some m) :
    |n| < 10 ^ 20 := by
  have hm := m.fits
  have hunits : m.units = n * 10 ^ 4 := by
    have hint := roundHalfAway_intCast (n * 10 ^ 4)
    rw [Int.cast_mul, Int.cast_pow, Int.cast_ofNat] at hint
    rw [Numeric.store_units h, hint]
  rw [hunits, abs_mul, show |(10 : ℤ) ^ 4| = 10 ^ 4 by decide] at hm
  have hpos := abs_nonneg n
  omega

theorem ReadsAs.stored (hd : Doubles double) {q : BigDecimal} {x : Json F} {m : Money}
    (h : ReadsAs double q x) (hm : Numeric.store 20 4 q = some m) :
    x.toFloat = .ok (double q) := by
  refine h.toFloat hd fun n hn => ?_
  rcases h with ⟨n', rfl, rfl⟩ | rfl
  · cases hn
    exact hd.column n (column_of_store hm)
  · cases hn

end Numbers

/-! ## What the reader makes of a document -/

theorem toString_ne_empty (u : UUID) : u.toString ≠ "" := by
  intro h
  have hlen := congrArg (fun s => s.toList.length) h
  simp [UUID.toString] at hlen

section Document

variable {r : Rendering F} {p : LedgerUpdatedEnvelope} {double : BigDecimal → F}

/-- The event that the reader makes of a document with these numbers. -/
def eventFor (r : Rendering F) (p : LedgerUpdatedEnvelope) (quantity price : Option F)
    (cashDelta positionAfter : F) : RiskStore.LedgerEvent F where
  event_id := .str p.event_id.toString
  account_id := .str p.data.account_id
  symbol := .str p.data.symbol
  side := .str p.data.side
  quantity := quantity
  price := price
  cash_delta := cashDelta
  position_after := positionAfter
  correlation_id := .str p.correlation_id
  posted_at := .str (r.instant p.data.posted_at)

/-- The reader on a document: it drops an empty account or symbol, and raises
where a number has no double. -/
theorem ledgerEvent_document (hr : Renders double r p.data) : ledgerEvent (document r p) =
    if p.data.account_id = "" ∨ p.data.symbol = "" then .ok none
    else (do
      let quantity ← r.quantity.asFloat
      let price ← r.price.asFloat
      let cashDelta ← r.cash_delta.toFloat
      let positionAfter ← r.position_after.toFloat
      return some (eventFor r p quantity price cashDelta positionAfter)) := by
  have hid : (Json.str p.event_id.toString : Json F).truthy = true :=
    Json.truthy_str.mpr (toString_ne_empty p.event_id)
  obtain ⟨d, hdata, hor⟩ : ∃ d : Json F,
      (document r p).get "data" = .ok d ∧ d.or (.obj []) = d ∧
      d.get "account_id" = .ok (.str p.data.account_id) ∧
      d.get "symbol" = .ok (.str p.data.symbol) ∧
      d.get "cash_delta" = .ok r.cash_delta ∧ d.get "position_after" = .ok r.position_after ∧
      d.get "side" = .ok (.str p.data.side) ∧ d.get "quantity" = .ok r.quantity ∧
      d.get "price" = .ok r.price ∧
      d.get "posted_at" = .ok (.str (r.instant p.data.posted_at)) :=
    ⟨_, rfl, rfl, rfl, rfl, rfl, rfl, rfl, rfl, rfl, rfl⟩
  obtain ⟨hor, hacc, hsym, hcash, hpos, hside, hquantity, hprice, hposted⟩ := hor
  have hget_id : (document r p).get "event_id" = .ok (.str p.event_id.toString) := rfl
  have hget_c : (document r p).get "correlation_id" = .ok (.str p.correlation_id) := rfl
  have hcash' := hr.cash_delta.ne_null
  have hpos' := hr.position_after.ne_null
  simp only [ledgerEvent, bind, Except.bind, hget_id, hdata, hor, hacc, hsym, hid, hcash, hpos,
    hget_c, hside, hquantity, hprice, hposted]
  by_cases hblank : p.data.account_id = "" ∨ p.data.symbol = ""
  · rw [if_pos hblank, if_pos]
    · rfl
    · rcases hblank with h | h <;> simp [Json.truthy, h]
  · rw [if_neg hblank, if_neg]
    · rfl
    · simpa [Json.truthy, not_or] using hblank

/-- The numbers of the event are those of stored rows. -/
structure Stored (d : LedgerUpdatedData) : Prop where
  quantity : ∃ m, Numeric.store 20 4 d.quantity = some m
  price : ∃ m, Numeric.store 20 4 d.price = some m
  cash_delta : ∃ m, Numeric.store 20 4 d.cash_delta = some m

/-- Of stored numbers only the position may have no double. -/
theorem ledgerEvent_stored (hd : Doubles double) (hr : Renders double r p.data)
    (hs : Stored p.data) (hacc : p.data.account_id ≠ "") (hsym : p.data.symbol ≠ "") :
    ledgerEvent (document r p) = r.position_after.toFloat.map fun y =>
      some (eventFor r p (some (double p.data.quantity)) (some (double p.data.price))
        (double p.data.cash_delta) y) := by
  obtain ⟨_, hq⟩ := hs.quantity
  obtain ⟨_, hx⟩ := hs.price
  obtain ⟨_, hc⟩ := hs.cash_delta
  have hquantity := asFloat_of_toFloat hr.quantity.ne_null (hr.quantity.stored hd hq)
  have hprice := asFloat_of_toFloat hr.price.ne_null (hr.price.stored hd hx)
  rw [ledgerEvent_document hr, if_neg (not_or.mpr ⟨hacc, hsym⟩)]
  simp only [hquantity, hprice, hr.cash_delta.stored hd hc, bind, Except.bind]
  cases r.position_after.toFloat <;> rfl

/-- A new event whose numbers are no NaN is inserted as it is. -/
theorem applyLedgerEvent_new (hd : Doubles double) {store : RiskStore F}
    (hnew : ¬ store.Applied p.event_id.toString) : ∃ row,
      store.applyLedgerEvent (eventFor r p (some (double p.data.quantity))
        (some (double p.data.price)) (double p.data.cash_delta) (double p.data.position_after)) =
        .ok (true, { store with applied_events := store.applied_events ++ [row] }) ∧
      RecordedAs double p row := by
  have hbind : ∀ q, bindReal (double q) = some (double q) := fun q => by
    simp [bindReal, hd.number q]
  refine ⟨{ event_id := some p.event_id.toString, account_id := p.data.account_id
            symbol := p.data.symbol, side := some p.data.side
            quantity := some (double p.data.quantity), price := some (double p.data.price)
            cash_delta := double p.data.cash_delta
            position_after := double p.data.position_after
            correlation_id := some p.correlation_id
            posted_at := some (r.instant p.data.posted_at) }, ?_, ⟨rfl, rfl, rfl, rfl, rfl, rfl⟩⟩
  simp only [RiskStore.applyLedgerEvent, RiskStore.LedgerEvent.row, eventFor, Json.bindText, hbind,
    Option.bind_some, bind, Except.bind, pure, Except.pure, RiskStore.insertOrIgnore]
  rw [if_neg fun h => hnew h.2]

end Document

/-! ## From the commit to the event log -/

section Stream

variable {loads : String → Except PyError (Json F)} {config : Config F} {r : Rendering F}
  {p : LedgerUpdatedEnvelope} {double : BigDecimal → F} {raw : String}

omit [PyFloat F] in
/-- The text that the relay puts on the stream is the text that is parsed. -/
theorem parseEvent_entryOf {schemaVersion : String → Option String} {event : OutboxEvent String}
    {env : Json F} (hraw : event.payload ≠ "") (hloads : loads event.payload = .ok env) :
    parseEvent loads (entryOf (toFields schemaVersion event)) = .ok env := by
  have hfield : ((entryOf (toFields schemaVersion event)).reverse.lookup "event").getD "" =
      event.payload := rfl
  rw [parseEvent, hfield]
  split
  · exact absurd ‹_› hraw
  · rw [hloads]

theorem processLedgerEnvelope_some (config : Config F) {env : Json F} {e : RiskStore.LedgerEvent F}
    (h : ledgerEvent env = .ok (some e)) : ∃ k, processLedgerEnvelope config env =
      .call (.applyLedgerEvent e) k ∧ ∀ x, (k x).Only OffLedger := by
  refine ⟨_, by rw [processLedgerEnvelope, h]; rfl, fun x => ?_⟩
  cases x with
  | error e => trivial
  | ok newlyApplied =>
    cases newlyApplied with
    | false => trivial
    | true => exact (only_buildRiskEnvelope (P := OffLedger) rfl rfl rfl fun _ _ => rfl).map

/-- **Agreement, for one document.** -/
theorem appliedOnce_iff (hd : Doubles double) (hr : Renders double r p.data) (hs : Stored p.data)
    {fields : Fields} (hparse : parseEvent loads fields = .ok (document r p))
    {store : RiskStore F} (hnew : ¬ store.Applied p.event_id.toString) :
    AppliedOnce loads config double fields store p ↔
      p.data.account_id ≠ "" ∧ p.data.symbol ≠ "" ∧
        ∀ n, r.position_after = .int n → (PyFloat.ofInt (F := F) n).isSome = true := by
  constructor
  · rintro ⟨env, e, k, row, henv, hcall, -, -, -⟩
    cases hparse.symm.trans henv
    have hblank : ¬ (p.data.account_id = "" ∨ p.data.symbol = "") := by
      intro hb
      have hnone := ledgerEvent_document hr
      rw [if_pos hb] at hnone
      rw [processLedgerEnvelope, hnone] at hcall
      cases hcall
    obtain ⟨hacc, hsym⟩ := not_or.mp hblank
    refine ⟨hacc, hsym, fun n hn => ?_⟩
    have hev := ledgerEvent_stored hd hr hs hacc hsym
    cases ho : PyFloat.ofInt (F := F) n with
    | some y => rfl
    | none =>
      rw [hn, Json.toFloat, ho] at hev
      rw [processLedgerEnvelope, hev] at hcall
      cases hcall
  · rintro ⟨hacc, hsym, hpos⟩
    have hev := ledgerEvent_stored hd hr hs hacc hsym
    rw [hr.position_after.toFloat hd hpos] at hev
    obtain ⟨k, hcall, honly⟩ := processLedgerEnvelope_some config hev
    obtain ⟨row, happly, hrow⟩ := applyLedgerEvent_new (r := r) hd hnew
    exact ⟨_, _, k, row, hparse, hcall, happly, hrow, honly⟩

end Stream

/-! ## Every posted trade -/

theorem store_neg {q : BigDecimal} {m : Money} (h : Numeric.store 20 4 q = some m) :
    ∃ m', Numeric.store 20 4 (-q) = some m' := by
  have hfits : |roundHalfAway (-q * 10 ^ 4)| < 10 ^ 20 := by
    rw [neg_mul, roundHalfAway_neg, abs_neg, ← Numeric.store_units h]
    exact m.fits
  exact ⟨⟨_, hfits⟩, dif_pos hfits⟩

/-- A trade that is about to be posted carries the numbers of its rows. -/
theorem posted_envelope {rules : ComplianceRules} {P : Db → Prop}
    {ok : LedgerState → LedgerAct → Prop} {s : LedgerState}
    (h : Reach (ledgerStep rules) ok (initial P) s) {n : Nat} {mdc : Option String}
    {req : TradeRequestDto} {es : List Ledger.LedgerEvent} {out : PostOutcome}
    (get : s.txns[n]? = some ⟨.postTrade mdc req, es, .ret (.trade out), .active⟩)
    (posted : out.isPosted = true) {o : OutboxRow LedgerUpdatedEnvelope}
    (ho : .outbox o ∈ writesOf es) : o.payload.data.account_id = req.account_id ∧
      o.payload.data.symbol = req.symbol ∧ Stored o.payload.data := by
  have hf := finished (faithful h _ (List.mem_of_getElem? get))
  generalize hc : Call.postTrade mdc req = c at hf
  generalize hr : Reply.trade out = r at hf
  cases hf with
  | duplicate =>
    cases hr
    cases posted
  | rejected =>
    cases hr
    cases posted
  | posted trace rows writes read compliant =>
    cases hc
    rw [writes, rows.mem_outbox] at ho
    obtain ⟨_, ht⟩ := rows.trade_ok
    obtain ⟨_, hd⟩ := rows.debit_ok
    rw [ho, rows.payload]
    refine ⟨rfl, rfl, ⟨_, ht.quantity⟩, ⟨_, ht.price⟩, ?_⟩
    change ∃ m, Numeric.store 20 4 req.cashDelta = some m
    unfold TradeRequestDto.cashDelta
    split
    · exact store_neg hd.debit
    · exact ⟨_, hd.debit⟩
  | credited => cases hc

/-- **Where writer and reader agree.** In every reachable ledger, the envelope
of a trade about to be posted, carried by the relay and parsed by the worker,
is applied as one new row with its contents if and only if its account and its
symbol are not empty and its position, if written as an integer, has a double. -/
theorem posted_is_applied_iff {rules : ComplianceRules} {P : Db → Prop}
    {ok : LedgerState → LedgerAct → Prop} {s : LedgerState}
    (h : Reach (ledgerStep rules) ok (initial P) s) {n : Nat} {mdc : Option String}
    {req : TradeRequestDto} {es : List Ledger.LedgerEvent} {out : PostOutcome}
    (get : s.txns[n]? = some ⟨.postTrade mdc req, es, .ret (.trade out), .active⟩)
    (posted : out.isPosted = true) {o : OutboxRow LedgerUpdatedEnvelope}
    (ho : .outbox o ∈ writesOf es) {double : BigDecimal → F} (hd : Doubles double)
    {r : Rendering F} (hr : Renders double r o.payload.data) {raw : String} (hraw : raw ≠ "")
    {loads : String → Except PyError (Json F)} (hloads : loads raw = .ok (document r o.payload))
    (schemaVersion : String → Option String) (config : Config F) {store : RiskStore F}
    (hnew : ¬ store.Applied o.payload.event_id.toString) :
    AppliedOnce loads config double
        (entryOf (toFields schemaVersion ⟨o.event_id, o.event_type.val, raw⟩)) store o.payload ↔
      Consumable r req := by
  obtain ⟨hacc, hsym, hs⟩ := posted_envelope h get posted ho
  rw [appliedOnce_iff hd hr hs (parseEvent_entryOf hraw hloads) hnew, hacc, hsym]
  exact ⟨fun h => ⟨h.1, h.2.1, h.2.2⟩, fun h => ⟨h.account_id, h.symbol, h.position_after⟩⟩

/-! ## Schedules -/

/-- Every number as the integer it is; every instant as the first. -/
def integers (p : LedgerUpdatedEnvelope) : Rendering ℚ where
  instant _ := "1970-01-01T00:00Z"
  quantity := .int p.data.quantity.num
  price := .int p.data.price.num
  cash_delta := .int p.data.cash_delta.num
  position_after := .int p.data.position_after.num

/-- The text of an envelope whose numbers are integers. -/
def textOf (p : LedgerUpdatedEnvelope) : String :=
  object [("event_id", quoted p.event_id.toString), ("event_type", quoted p.event_type),
    ("schema_version", quoted p.schema_version), ("correlation_id", quoted p.correlation_id),
    ("produced_at", quoted "1970-01-01T00:00Z"), ("producer", quoted p.producer),
    ("data", object [("journal_entry_id", quoted p.data.journal_entry_id.toString),
      ("source_event_id", quoted p.data.source_event_id.toString),
      ("account_id", quoted p.data.account_id), ("symbol", quoted p.data.symbol),
      ("side", quoted p.data.side), ("quantity", toString p.data.quantity.num),
      ("price", toString p.data.price.num), ("cash_delta", toString p.data.cash_delta.num),
      ("position_after", toString p.data.position_after.num),
      ("posted_at", quoted "1970-01-01T00:00Z")])]

/-- `json.loads` on that text. -/
def loadsText (p : LedgerUpdatedEnvelope) : String → Except PyError (Json ℚ) :=
  table [(textOf p, document (integers p) p)]

/-- The stream entry that carries it. -/
def streamed (o : OutboxRow LedgerUpdatedEnvelope) : Fields :=
  entryOf (toFields (fun _ => some "1") ⟨o.event_id, o.event_type.val, textOf o.payload⟩)

theorem loadsText_textOf (p : LedgerUpdatedEnvelope) :
    loadsText p (textOf p) = .ok (document (integers p) p) := by simp [loadsText, table]

theorem doubles_id : Doubles (F := ℚ) id := ⟨fun _ => .inr rfl, fun _ _ => rfl, fun _ => rfl⟩

/-- The numbers of the event are integers. -/
def integral (d : LedgerUpdatedData) : Bool :=
  d.quantity.den = 1 && d.price.den = 1 && d.cash_delta.den = 1 && d.position_after.den = 1

theorem renders_integers {p : LedgerUpdatedEnvelope} (h : integral p.data = true) :
    Renders id (integers p) p.data := by
  have reads : ∀ q : ℚ, q.den = 1 → ReadsAs (F := ℚ) id q (.int q.num) := fun q hq =>
    .inl ⟨q.num, (Rat.coe_int_num_of_den_eq_one hq).symm, rfl⟩
  simp only [integral, Bool.and_eq_true, decide_eq_true_eq] at h
  obtain ⟨⟨⟨hq, hp⟩, hc⟩, hy⟩ := h
  exact ⟨reads _ hq, reads _ hp, reads _ hc, reads _ hy⟩

theorem exists_outbox {ws : List Write} {p : OutboxRow LedgerUpdatedEnvelope → Bool}
    (h : (ws.filterMap Write.outbox?).any p = true) : ∃ o, .outbox o ∈ ws ∧ p o = true := by
  obtain ⟨o, ho, hp⟩ := List.any_eq_true.mp h
  obtain ⟨w, hw, hwo⟩ := List.mem_filterMap.mp ho
  cases w <;> cases hwo
  exact ⟨o, hw, hp⟩

/-- A purchase of one at three, up to its commit. -/
def unitBuy (symbol : String) : List LedgerAct :=
  [.begin (.postTrade (some "c") ⟨uuid 1, "A", symbol, "BUY", 1, 3, none⟩)] ++ stmts 0 16 100 0

theorem posted_is_applied_iff_unitBuy : ∃ o : OutboxRow LedgerUpdatedEnvelope,
    o.payload.data.symbol = "X" ∧
      AppliedOnce (loadsText o.payload) settings id (streamed o) .empty o.payload := by
  obtain ⟨s, hs, hp⟩ := Reach.exists_of_run (ledgerStep ⟨100⟩) anyStep
    (initial (· = oneAccount thousand)) (unitBuy "X")
    (readyToPost fun req ws => req.account_id = "A" && req.symbol = "X" &&
      (ws.filterMap Write.outbox?).any fun o => o.payload.data.symbol = "X" &&
        integral o.payload.data) (s := ⟨oneAccount thousand, []⟩) ⟨rfl, rfl⟩ (by decide +kernel)
  obtain ⟨mdc, req, es, out, get, posted, hcheck⟩ := readyToPost_iff.mp hp
  simp only [Bool.and_eq_true, decide_eq_true_eq] at hcheck
  obtain ⟨⟨hacc, hsym⟩, hany⟩ := hcheck
  obtain ⟨o, ho, hint⟩ := exists_outbox hany
  rw [Bool.and_eq_true, decide_eq_true_eq] at hint
  refine ⟨o, hint.1, (posted_is_applied_iff hs get posted ho doubles_id
    (renders_integers hint.2) (object_ne_empty _) (loadsText_textOf _) _ settings ?_).mpr
    ⟨?_, ?_, fun _ _ => rfl⟩⟩
  · rintro ⟨⟩
  · rw [hacc]
    decide
  · rw [hsym]
    decide

/-- A valid request with an empty symbol is posted, and its event is dropped. -/
theorem empty_symbol_dropped : ∃ (s : LedgerState) (mdc : Option String) (req : TradeRequestDto)
    (es : List Ledger.LedgerEvent) (out : PostOutcome) (o : OutboxRow LedgerUpdatedEnvelope),
    Reach (ledgerStep ⟨100⟩) anyStep (initial (· = oneAccount thousand)) s ∧
      s.txns[0]? = some ⟨.postTrade mdc req, es, .ret (.trade out), .active⟩ ∧ req.Valid ∧
      out.isPosted = true ∧ .outbox o ∈ writesOf es ∧
      Renders id (integers o.payload) o.payload.data ∧
      ¬ AppliedOnce (loadsText o.payload) settings id (streamed o) .empty o.payload := by
  obtain ⟨s, hs, hp⟩ := Reach.exists_of_run (ledgerStep ⟨100⟩) anyStep
    (initial (· = oneAccount thousand)) (unitBuy "")
    (readyToPost fun req ws => decide req.Valid &&
      (ws.filterMap Write.outbox?).any fun o => o.payload.data.symbol = "" &&
        integral o.payload.data) (s := ⟨oneAccount thousand, []⟩) ⟨rfl, rfl⟩ (by decide +kernel)
  obtain ⟨mdc, req, es, out, get, posted, hcheck⟩ := readyToPost_iff.mp hp
  rw [Bool.and_eq_true, decide_eq_true_eq] at hcheck
  obtain ⟨hvalid, hany⟩ := hcheck
  obtain ⟨o, ho, hint⟩ := exists_outbox hany
  rw [Bool.and_eq_true, decide_eq_true_eq] at hint
  have hr := renders_integers hint.2
  refine ⟨s, mdc, req, es, out, o, hs, get, hvalid, posted, ho, hr, fun happlied => ?_⟩
  have hparse : parseEvent (loadsText o.payload) (streamed o) = _ :=
    parseEvent_entryOf (object_ne_empty _) (loadsText_textOf _)
  obtain ⟨-, -, hstored⟩ := posted_envelope hs get posted ho
  have hiff := (appliedOnce_iff doubles_id hr hstored hparse (by rintro ⟨⟩)).mp happlied
  exact hiff.2.1 hint.1

end TradePulse.Pipeline
