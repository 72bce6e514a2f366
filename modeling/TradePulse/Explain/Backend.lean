import TradePulse.Explain.Snapshot

/-! # `app/explain.py`

One definition for each function, over any ordered field with a floor: exact
decimal or real arithmetic in place of floats, and Python's number formats on
exact values. -/
namespace TradePulse.Explain.Backend

section Texts

variable {K : Type} [Field K] [LinearOrder K] [FloorRing K]

/-! ## Number formats -/

/-- `format(x, ".{digits}f")`, or `",.{digits}f"` where `whole` puts commas. -/
def fixed (whole : String → String) (x : K) (digits : ℕ) : String :=
  (if x < 0 then "-" else "") ++
    decimalText whole (Core.roundEven (|x| * ((10 ^ digits : ℕ) : K))).toNat digits

/-- `_money`. -/
def money (x : K) : String := "$" ++ fixed grouped x 2

/-- `_signed_money`. -/
def signedMoney (x : K) : String := (if 0 ≤ x then "+" else "-") ++ money |x|

/-- `_pct`. -/
def pct (x : K) (digits : ℕ) : String := fixed id (x * (100 : ℚ)) digits ++ "%"

/-- `_num`. -/
def num (x : K) (digits : ℕ) : String := fixed id x digits

/-- `_f`. -/
def f : Entry K → K
  | .number x => x
  | .missing | .null => 0

/-! ## Bands -/

/-- `_vol_band`. -/
def volBand (volatility : K) : Band :=
  if volatility ≤ 0 then .notMeasurableYet
  else if volatility < (1 / 1000 : ℚ) then .veryCalm
  else if volatility < (5 / 1000 : ℚ) then .low
  else if volatility < (20 / 1000 : ℚ) then .moderate
  else .elevated

/-- `_sharpe_band`. -/
def sharpeBand (sharpe volatility : K) : Band :=
  if volatility ≤ 0 then .notMeasurableYet
  else if 1 ≤ sharpe then .strong
  else if 0 < sharpe then .modestlyPositive
  else if sharpe = 0 then .flat
  else .negative

/-! ## Metrics -/

def volNotYet : String :=
  "Volatility measures how much your portfolio value bounces around between updates. There isn't " ++
    "enough price history yet to measure it — it fills in after a short while of live prices."

def varNotYet : String :=
  "Value at Risk (VaR) estimates your likely worst-case loss on a normal day. There isn't enough " ++
    "history yet to compute it."

def sharpeNotYet : String :=
  "The Sharpe ratio compares your recent return against how bumpy the ride was. Not enough " ++
    "history yet to compute it."

/-- The texts of metrics that are not measurable yet. -/
def notYet : List String := [volNotYet, varNotYet, sharpeNotYet]

structure Metric (K : Type) where
  key : String
  label : String
  value : K
  plain : Passage Reading
  deriving DecidableEq

def pnlPlain (pnl pnlPct seed : K) : Passage Reading :=
  if 0 ≤ pnl then
    ⟨.gain, "You're up " ++ money pnl ++ " (" ++ pct pnlPct 1 ++
      ") compared with your starting cash of " ++ money seed ++
      ". This is an on-paper (unrealized) gain: it moves with market prices and isn't locked " ++
      "in until you sell."⟩
  else
    ⟨.loss, "You're down " ++ money |pnl| ++ " (" ++ pct pnlPct 1 ++
      ") compared with your starting cash of " ++ money seed ++
      ". This is an on-paper (unrealized) loss and will move back up if prices recover."⟩

def volPlain (vol : K) : Passage Reading :=
  if vol ≤ 0 then ⟨.notMeasurable, volNotYet⟩
  else
    ⟨.swings (volBand vol), "Volatility measures how much your portfolio value swings between " ++
      "updates. At " ++ pct vol 2 ++ " it's currently " ++ (volBand vol).text ++
      " — a higher number means bigger swings both up and down."⟩

def varPlain (var varPct : K) : Passage Reading :=
  if var ≤ 0 then ⟨.notMeasurable, varNotYet⟩
  else
    ⟨.downside, "Value at Risk (VaR) estimates your downside on a normal day. With about 95% " ++
      "confidence, you wouldn't expect to lose more than " ++ money var ++
      " over 1 trading day — roughly " ++ pct varPct 2 ++ " of your portfolio. It rises when " ++
      "either your volatility or your portfolio size grows."⟩

def sharpePlain (sharpe vol : K) : Passage Reading :=
  let band := sharpeBand sharpe vol
  if vol ≤ 0 then ⟨.notMeasurable, sharpeNotYet⟩
  else if sharpe < 0 then
    ⟨.driftedDown band, "The Sharpe ratio (" ++ num sharpe 2 ++ ") is your recent return per " ++
      "unit of risk. It's " ++ band.text ++ ": over the recent window your portfolio drifted " ++
      "down on average. This is a short-window figure that flips easily and does not " ++
      "contradict a positive overall P&L."⟩
  else
    ⟨.perUnitOfRisk band, "The Sharpe ratio (" ++ num sharpe 2 ++ ") is your recent return per " ++
      "unit of risk over the recent window — it's " ++ band.text ++ ". Higher is better; it " ++
      "rewards steady gains and penalizes big swings."⟩

section Branches

variable (pnl pnlPct seed vol var varPct sharpe : K)

theorem pnlPlain_branch :
    (pnlPlain pnl pnlPct seed).branch = if 0 ≤ pnl then .gain else .loss := by
  rw [pnlPlain, apply_ite Passage.branch]

theorem volPlain_branch :
    (volPlain vol).branch = if vol ≤ 0 then .notMeasurable else .swings (volBand vol) := by
  rw [volPlain, apply_ite Passage.branch]

theorem varPlain_branch :
    (varPlain var varPct).branch = if var ≤ 0 then .notMeasurable else .downside := by
  rw [varPlain, apply_ite Passage.branch]

theorem sharpePlain_branch :
    (sharpePlain sharpe vol).branch = if vol ≤ 0 then .notMeasurable
      else if sharpe < 0 then .driftedDown (sharpeBand sharpe vol)
      else .perUnitOfRisk (sharpeBand sharpe vol) := by
  rw [sharpePlain, apply_ite Passage.branch, apply_ite Passage.branch]

/-- Texts that begin differently. -/
theorem append_ne {cs ds : List Char} {a b : String} (h : ¬ cs <+: ds) (h' : ¬ ds <+: cs) :
    String.ofList cs ++ a ≠ String.ofList ds ++ b := by
  intro heq
  have hlist : cs ++ a.toList = ds ++ b.toList := by
    simpa only [String.toList_append, String.toList_ofList] using congrArg String.toList heq
  rcases List.prefix_or_prefix_of_prefix (hlist ▸ List.prefix_append cs a.toList)
    (List.prefix_append ds b.toList) with hp | hp
  · exact h hp
  · exact h' hp

theorem not_mem_notYet {cs : List Char} {rest : String}
    (hvol : String.ofList cs ++ rest ≠ volNotYet) (hvar : String.ofList cs ++ rest ≠ varNotYet)
    (hsharpe : String.ofList cs ++ rest ≠ sharpeNotYet) : String.ofList cs ++ rest ∉ notYet := by
  rw [notYet, List.mem_cons, List.mem_cons, List.mem_singleton]
  rintro (h | h | h)
  · exact hvol h
  · exact hvar h
  · exact hsharpe h

theorem volPlain_notYet : (volPlain vol).text ∈ notYet ↔ vol ≤ 0 := by
  rw [volPlain]
  split
  · rename_i hvol
    exact iff_of_true List.mem_cons_self hvol
  · rename_i hvol
    refine iff_of_false ?_ hvol
    simp only [String.append_assoc]
    exact not_mem_notYet (append_ne (by decide) (by decide)) (append_ne (by decide) (by decide))
      (append_ne (by decide) (by decide))

theorem varPlain_notYet : (varPlain var varPct).text ∈ notYet ↔ var ≤ 0 := by
  rw [varPlain]
  split
  · rename_i hvar
    exact iff_of_true (List.mem_cons_of_mem _ List.mem_cons_self) hvar
  · rename_i hvar
    refine iff_of_false ?_ hvar
    simp only [String.append_assoc]
    exact not_mem_notYet (append_ne (by decide) (by decide)) (append_ne (by decide) (by decide))
      (append_ne (by decide) (by decide))

theorem sharpePlain_notYet : (sharpePlain sharpe vol).text ∈ notYet ↔ vol ≤ 0 := by
  have hmeasured : ∀ rest : String, "The Sharpe ratio (" ++ rest ∉ notYet := fun rest =>
    not_mem_notYet (append_ne (by decide) (by decide)) (append_ne (by decide) (by decide))
      (append_ne (by decide) (by decide))
  rw [sharpePlain]
  split
  · rename_i hvol
    exact iff_of_true (List.mem_cons_of_mem _ (List.mem_cons_of_mem _ List.mem_cons_self)) hvol
  · rename_i hvol
    refine iff_of_false ?_ hvol
    split <;> simp only [String.append_assoc] <;> exact hmeasured _

end Branches

/-- `seed`, and what the P&L is of it. -/
def seedOf (pv pnl : K) : K := Core.roundTo (pv - pnl) 2

def pnlPctOf (pv pnl : K) : K := if seedOf pv pnl ≠ 0 then pnl / seedOf pv pnl else 0

def varPctOf (pv var : K) : K := if pv ≠ 0 then var / pv else 0

/-- `_metrics`. -/
def metrics (snapshot : Snapshot K) : List (Metric K) :=
  let pv := f snapshot.portfolio_value
  let pnl := f snapshot.pnl
  let vol := f snapshot.volatility
  let var := f snapshot.var
  let sharpe := f snapshot.sharpe
  [{ key := "portfolio_value", label := "Portfolio value", value := pv
     plain := ⟨.worth, "This is what your account is worth right now — your cash plus the " ++
       "market value of your holdings priced at the latest market ticks. It currently stands at " ++
       money pv ++ "."⟩ },
   { key := "pnl", label := "P&L", value := pnl
     plain := pnlPlain pnl (pnlPctOf pv pnl) (seedOf pv pnl) },
   { key := "volatility", label := "Volatility", value := vol, plain := volPlain vol },
   { key := "var", label := "VaR", value := var, plain := varPlain var (varPctOf pv var) },
   { key := "sharpe", label := "Sharpe", value := sharpe, plain := sharpePlain sharpe vol }]

/-! ## Changes -/

structure Change (K : Type) where
  key : String
  direction : Direction
  delta : K
  plain : Passage Cause
  deriving DecidableEq

/-- `"up" if delta > 0 else "down"`. -/
def directionOf (delta : K) : Direction := if 0 < delta then .up else .down

def valueChange (pvD pnlD : K) : Option (Change K) :=
  if pvD ≠ 0 then
    let direction := if 0 < pvD then "rose" else "fell"
    some
      { key := "portfolio_value", direction := directionOf pvD, delta := pvD
        plain := ⟨if 0 < pvD then .valueRose else .valueFell,
          "Your portfolio value " ++ direction ++ " " ++ signedMoney pvD ++
          " since the last update, so your P&L moved by the same amount (" ++ signedMoney pnlD ++
          "). This comes from a trade you placed or a market price move in your existing " ++
          "holdings."⟩ }
  else none

def riskChange (volD varD : K) : Option (Change K) :=
  if volD ≠ 0 then
    let plain : Passage Cause :=
      if 0 < volD then
        ⟨.volatilityIncreased, "Volatility increased (+" ++ pct volD 2 ++ "), meaning your " ++
          "portfolio has been swinging a bit more. That's why VaR rose too — VaR is directly " ++
          "proportional to volatility."⟩
      else
        ⟨.volatilityEased, "Volatility eased (" ++ pct volD 2 ++ "), so your portfolio has been " ++
          "steadier and your estimated daily risk (VaR) came down with it."⟩
    some { key := "volatility", direction := directionOf volD, delta := volD, plain }
  else if varD ≠ 0 then
    let direction := if 0 < varD then "rose" else "fell"
    some
      { key := "var", direction := directionOf varD, delta := varD
        plain := ⟨if 0 < varD then .varRose else .varFell,
          "Your VaR " ++ direction ++ " " ++ signedMoney varD ++ " mainly because your " ++
          "portfolio size changed — VaR scales with portfolio value even when volatility " ++
          "holds steady."⟩ }
  else none

def sharpeChange (sharpeC sharpeP : K) : Option (Change K) :=
  if decide (0 ≤ sharpeC) ≠ decide (0 ≤ sharpeP) then
    let plain : Passage Cause :=
      if 0 ≤ sharpeC then
        ⟨.sharpePositive, "Your Sharpe ratio flipped positive: recent risk-adjusted return " ++
          "improved."⟩
      else
        ⟨.sharpeNegative, "Your Sharpe ratio turned negative: over the recent window your " ++
          "portfolio drifted down on average. It's a short-window measure and can flip back " ++
          "quickly."⟩
    some
      { key := "sharpe", direction := if sharpeP ≤ sharpeC then .up else .down
        delta := Core.roundTo (sharpeC - sharpeP) 4, plain }
  else none

/-- `_changes`. -/
def changes (current previous : Snapshot K) : List (Change K) :=
  let pvD := Core.roundTo (f current.portfolio_value - f previous.portfolio_value) 2
  let pnlD := Core.roundTo (f current.pnl - f previous.pnl) 2
  let volD := Core.roundTo (f current.volatility - f previous.volatility) 6
  let varD := Core.roundTo (f current.var - f previous.var) 2
  (valueChange pvD pnlD).toList ++ (riskChange volD varD).toList ++
    (sharpeChange (f current.sharpe) (f previous.sharpe)).toList

/-! ## The narrative -/

/-- `_headline`. -/
def headline (snapshot : Snapshot K) : Passage Standing :=
  let pv := f snapshot.portfolio_value
  let pnl := f snapshot.pnl
  let pnlPct := pnlPctOf pv pnl
  if 0 < pnl then
    ⟨.up, "Your portfolio is worth " ++ money pv ++ " — up " ++ money pnl ++ " (" ++
      pct pnlPct 1 ++ ")."⟩
  else if pnl < 0 then
    ⟨.down, "Your portfolio is worth " ++ money pv ++ " — down " ++ money |pnl| ++ " (" ++
      pct pnlPct 1 ++ ")."⟩
  else ⟨.level, "Your portfolio is worth " ++ money pv ++ " — flat versus your starting cash."⟩

def notEnoughYet : String :=
  "Volatility, VaR and Sharpe read 0 until enough live price history has accrued — this is " ++
    "'not enough data yet', not 'no risk'."

def alwaysNoted : List String :=
  ["These figures update live as you trade and as market prices move.",
    "VaR here is parametric (about 95% confidence, 1-day horizon). Volatility and Sharpe use a " ++
      "short rolling window, so they react quickly and can swing."]

/-- `_notes`. -/
def notes (snapshot : Snapshot K) : List String :=
  alwaysNoted ++
    if f snapshot.volatility ≤ 0 ∨ f snapshot.var ≤ 0 then [notEnoughYet] else []

structure Narrative (K : Type) where
  account_id : String
  computed_at : String
  headline : Passage Standing
  summary : String
  metrics : List (Metric K)
  changes : List (Change K)
  notes : List String

def explainSnapshot (current : Snapshot K) (previous : Option (Snapshot K)) : Narrative K :=
  let metrics := metrics current
  let changes := match previous with
    | some previous => changes current previous
    | none => []
  let summary := if changes.isEmpty then whatItMeans else whatChanged
  { account_id := current.account_id, computed_at := current.computed_at
    headline := headline current, summary, metrics, changes, notes := notes current }

end Texts

end TradePulse.Explain.Backend
