import TradePulse.Poc.Store
import TradePulse.Risk.Exact

/-! # What the events of an account amount to

The tables reflect some events when they hold what a single delivery of each
leaves. To apply a new event extends that, and a known one changes nothing. -/
namespace TradePulse.Poc
open TradePulse.Risk

variable {loads : String → Except PyError (Json ℚ)} {account : String}

/-- A `LedgerUpdated.v1`-shaped event of the account. -/
structure Shaped (loads : String → Except PyError (Json ℚ)) (account : String) (e : OutboxEvent)
    (env : Json ℚ) : Prop where
  payload_ne : e.payload ≠ ""
  loads : loads e.payload = .ok env
  event_id : env.field "event_id" = .str e.event_id
  event_id_ne : e.event_id ≠ ""
  schema_version : ∃ v, env.field "schema_version" = .str v
  data : ∃ kvs, env.data = .obj kvs
  account_id : env.account = some account
  symbol : env.symbol.isSome
  cash_delta : (env.data.field "cash_delta").IsNumber
  position_after : (env.data.field "position_after").IsNumber

/-! ## Reading an event -/

theorem item_field {F : Type} [PyFloat F] {x : Json F} {key : String} (h : x.field key ≠ .null) :
    item key x = some (x.field key) := by
  cases x with
  | obj kvs =>
    change kvs.lookup key = some ((kvs.lookup key).getD .null)
    cases hk : kvs.lookup key with
    | none => exact absurd (congrArg (Option.getD · Json.null) hk) h
    | some y => rfl
  | _ => exact absurd rfl h

theorem floatOr_field {F : Type} [PyFloat F] {x : Json F} {key : String}
    (h : (x.field key).IsNumber) : floatOr key x = .ok (x.field key).number := by
  have hitem := item_field h.ne_null
  cases x with
  | obj kvs =>
    change kvs.lookup key = _ at hitem
    rw [floatOr, hitem]
    exact h.toFloat.1
  | _ => cases hitem

theorem addend_number {x : Json ℚ} (h : x.IsNumber) : addend x = some x.number := by
  cases x with
  | int n => rfl
  | float y => rfl
  | _ => cases h

namespace Shaped

variable {e : OutboxEvent} {env : Json ℚ}

/-- The fields of the event on the stream. -/
theorem fields (h : Shaped loads account e env) (repr : Json ℚ → String) :
    ∃ v, buildStreamFields loads repr e =
      .ok [("event_type", e.event_type), ("schema_version", v), ("event", e.payload)] := by
  obtain ⟨v, hv⟩ := h.schema_version
  have hget := Json.get_field (x := env) "schema_version" (by rw [hv]; nofun)
  rw [hv] at hget
  refine ⟨v, ?_⟩
  simp only [buildStreamFields, h.loads, hget, bind, Except.bind, wireText]
  rfl

/-- The consumer finds the event in them. -/
theorem extract (h : Shaped loads account e env) {y : String} (hy : env.symbol = some y)
    {fields : Fields} (hf : fields.reverse.lookup "event" = some e.payload) :
    extract loads fields =
      .ok (some ⟨.str e.event_id, .str account, .str y, env.positionAfter, env.cashDelta⟩) := by
  obtain ⟨kvs, hdata⟩ := h.data
  have hacc : env.data.field "account_id" = .str account := Json.eq_str_of_text? h.account_id
  have hsym : env.data.field "symbol" = .str y := Json.eq_str_of_text? hy
  have hid := Json.get_field (x := env) "event_id" (by rw [h.event_id]; nofun)
  have hget : env.get "data" = .ok env.data :=
    Json.get_field _ (by change env.data ≠ .null; rw [hdata]; nofun)
  have hgacc := Json.get_field (x := env.data) "account_id" (by rw [hacc]; nofun)
  have hgsym := Json.get_field (x := env.data) "symbol" (by rw [hsym]; nofun)
  rw [h.event_id] at hid
  rw [hacc] at hgacc
  rw [hsym] at hgsym
  have htruthy : (Json.str e.event_id : Json ℚ).truthy = true :=
    Json.truthy_str.mpr h.event_id_ne
  unfold Poc.extract
  rw [hf, Option.getD_some]
  split
  · rename_i hempty
    exact absurd hempty h.payload_ne
  · rw [h.loads]
    simp only [bind, Except.bind, hid, hget, Json.or_empty hdata, htruthy, Bool.not_true,
      Bool.false_eq_true, if_false, hgacc, hgsym, floatOr_field h.position_after,
      floatOr_field h.cash_delta]
    rfl

theorem baselineStep (h : Shaped loads account e env) {y : String} (hy : env.symbol = some y)
    (cash : ℚ) (positions : List (String × ℚ)) :
    baselineStep loads (cash, positions) e =
      some (cash + env.cashDelta, upsert positions y env.positionAfter) := by
  obtain ⟨kvs, hdata⟩ := h.data
  have hitem : item "data" env = some env.data :=
    item_field (by change env.data ≠ .null; rw [hdata]; nofun)
  have hsym : env.data.field "symbol" = .str y := Json.eq_str_of_text? hy
  have hne : env.data.field "symbol" ≠ .null := by
    rw [hsym]
    intro hnull
    cases hnull
  have hisym := item_field hne
  rw [hsym] at hisym
  simp only [Poc.baselineStep, h.loads, Except.toOption, bind, Option.bind, hitem, hisym,
    item_field h.cash_delta.ne_null, item_field h.position_after.ne_null,
    addend_number h.cash_delta, addend_number h.position_after, Json.text?]
  rfl

end Shaped

theorem baseline_snoc (done : List OutboxEvent) (e : OutboxEvent) :
    baseline loads (done ++ [e]) = (baseline loads done).bind fun acc => baselineStep loads acc e := by
  rw [baseline, List.foldlM_append, baseline]
  refine congrArg (Option.bind _) (funext fun acc => ?_)
  simp only [List.foldlM_cons, List.foldlM_nil, bind_pure]

/-! ## The tables -/

/-- The tables of the consumer hold one delivery of each event. -/
structure Reflects (loads : String → Except PyError (Json ℚ)) (account : String)
    (done : List OutboxEvent) (s : ProofStore ℚ) : Prop where
  processed : s.processed_events = done.map fun e => some e.event_id
  baseline : ∃ cash positions, baseline loads done = some (cash, positions) ∧
    s.proj_cash = [(account, cash)] ∧
    s.proj_positions = positions.map fun row => ((account, row.1), row.2)

theorem upsert_map {κ κ' α : Type} [DecidableEq κ] [DecidableEq κ'] {f : κ → κ'}
    (hf : ∀ a b, f a = f b → a = b) (rows : List (κ × α)) (key : κ) (value : α) :
    upsert (rows.map fun row => (f row.1, row.2)) (f key) value =
      (upsert rows key value).map fun row => (f row.1, row.2) := by
  have hiff : ∀ a, f a = f key ↔ a = key := fun a => ⟨hf a key, fun h => h ▸ rfl⟩
  have hany : (rows.map fun row => (f row.1, row.2)).any (·.1 = f key) =
      rows.any (·.1 = key) := by
    rw [List.any_map]
    exact congrArg rows.any (funext fun row => decide_eq_decide.mpr (hiff row.1))
  rw [upsert, upsert, hany]
  split
  · rw [List.map_map, List.map_map]
    refine List.map_congr_left fun row _ => ?_
    by_cases h : row.1 = key <;> simp [h, hiff]
  · rw [List.map_append]
    rfl

namespace Reflects

variable {done : List OutboxEvent} {s : ProofStore ℚ}

theorem projection (h : Reflects loads account done s) :
    Poc.baseline loads done = some (s.projection account) := by
  obtain ⟨cash, positions, hbase, hcash, hpos⟩ := h.baseline
  rw [hbase, ProofStore.projection, hcash, hpos, List.filter_map, List.map_map]
  have hall : ∀ row ∈ positions,
      ((fun row : (String × String) × ℚ => decide (row.1.1 = account)) ∘
        fun row : String × ℚ => ((account, row.1), row.2)) row = true := fun row _ =>
    decide_eq_true rfl
  rw [List.filter_eq_self.mpr hall]
  have hid : ((fun row : (String × String) × ℚ => (row.1.2, row.2)) ∘
      fun row : String × ℚ => ((account, row.1), row.2)) = id := rfl
  simp [hid]

/-- An event is processed when it is one of them. -/
theorem mem (h : Reflects loads account done s) (id : String) :
    s.Processed (some id) ↔ id ∈ done.map (·.event_id) := by
  rw [ProofStore.Processed, h.processed]
  simp

theorem alreadyProcessed (h : Reflects loads account done s) (id : String) :
    s.alreadyProcessed (.str id) = .ok (decide (id ∈ done.map (·.event_id))) :=
  congrArg Except.ok (decide_eq_decide.mpr (h.mem id))

theorem apply_known (h : Reflects loads account done s) {id : String}
    (hid : id ∈ done.map (·.event_id)) (accountId symbol : Json ℚ) (qty delta : ℚ) :
    s.apply (.str id) accountId symbol qty delta = .ok (false, s) := by
  simp only [ProofStore.apply, Json.bindText, bind, Except.bind, if_pos ((h.mem id).mpr hid)]
  rfl

theorem apply_new (h : Reflects loads account done s) {e : OutboxEvent} {env : Json ℚ}
    (he : Shaped loads account e env) {y : String} (hy : env.symbol = some y)
    (hid : e.event_id ∉ done.map (·.event_id)) :
    ∃ s', s.apply (.str e.event_id) (.str account) (.str y) env.positionAfter env.cashDelta =
      .ok (true, s') ∧ s'.outbox_events = s.outbox_events ∧
      Reflects loads account (done ++ [e]) s' := by
  obtain ⟨cash, positions, hbase, hcash, hpos⟩ := h.baseline
  have hupdate : ProofStore.updateCash s.proj_cash (some account) env.cashDelta =
      .ok [(account, cash + env.cashDelta)] := by
    rw [hcash]
    simp only [ProofStore.updateCash, List.mapM_cons, List.mapM_nil, bindReal, if_true]
    rfl
  have hpositions : upsert s.proj_positions (account, y) env.positionAfter =
      (upsert positions y env.positionAfter).map fun row => ((account, row.1), row.2) := by
    rw [hpos]
    exact upsert_map (fun a b hab => (Prod.mk.inj hab).2) positions y env.positionAfter
  refine ⟨{ s with processed_events := s.processed_events ++ [some e.event_id]
                   proj_cash := [(account, cash + env.cashDelta)]
                   proj_positions := upsert s.proj_positions (account, y) env.positionAfter },
    ?_, rfl, ?_, _, _, ?_, rfl, hpositions⟩
  · simp only [ProofStore.apply, Json.bindText, bind, Except.bind,
      if_neg (mt (h.mem e.event_id).mp hid), hupdate, bindReal]
    rfl
  · change s.processed_events ++ [some e.event_id] = _
    rw [h.processed, List.map_append]
    rfl
  · rw [baseline_snoc, hbase]
    exact he.baselineStep hy cash positions

end Reflects
end TradePulse.Poc
