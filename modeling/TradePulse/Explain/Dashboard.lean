import TradePulse.Explain.Snapshot

/-! # The dashboard's `explain.js`

One definition for each function, in exact arithmetic. How a number is written
is left to the host, whose locale decides it. -/
namespace TradePulse.Explain.Dashboard

/-- `toLocaleString` as US dollars, and `toFixed`. -/
structure Host (K : Type) where
  dollars : K → String
  toFixed : K → ℕ → String

/-- A browser in the United States. -/
def enUS {K : Type} [Field K] [LinearOrder K] [FloorRing K] : Host K where
  dollars x := (if x < 0 then "-$" else "$") ++ decimalText grouped ⌊|x| * (100 : ℚ) + (1 / 2 : ℚ)⌋.toNat 2
  toFixed x digits := (if x < 0 then "-" else "") ++
    decimalText id ⌊|x| * ((10 ^ digits : ℕ) : K) + (1 / 2 : ℚ)⌋.toNat digits

section Texts

variable {K : Type} [Field K] [LinearOrder K] (host : Host K)

def fmtMoney (n : K) : String := host.dollars n

def fmtNum (n : K) (d : ℕ) : String := host.toFixed n d

def fmtPct (n : K) : String := host.toFixed (n * (100 : ℚ)) 2 ++ "%"

/-- `num`. -/
def num : Entry K → K
  | .number x => x
  | .missing | .null => 0

def signedMoney (x : K) : String := (if 0 ≤ x then "+" else "-") ++ fmtMoney host |x|

def signedPct (x : K) : String := (if 0 ≤ x then "+" else "") ++ fmtPct host x

def volBand (vol : K) : Band :=
  if vol ≤ 0 then .notMeasurableYet
  else if vol < (1 / 1000 : ℚ) then .veryCalm
  else if vol < (5 / 1000 : ℚ) then .low
  else if vol < (20 / 1000 : ℚ) then .moderate
  else .elevated

def sharpeBand (sharpe vol : K) : Band :=
  if vol ≤ 0 then .notMeasurableYet
  else if 1 ≤ sharpe then .strong
  else if 0 < sharpe then .modestlyPositive
  else if sharpe = 0 then .flat
  else .negative

/-! ## Levels -/

def headline (s : Snapshot K) : Passage Standing :=
  let pv := num s.portfolio_value
  let pnl := num s.pnl
  let seed := pv - pnl
  let pnlPct := if seed ≠ 0 then pnl / seed else 0
  if 0 < pnl then
    ⟨.up, "Your portfolio is worth " ++ fmtMoney host pv ++ " — up " ++ fmtMoney host pnl ++
      " (" ++ fmtPct host pnlPct ++ ")."⟩
  else if pnl < 0 then
    ⟨.down, "Your portfolio is worth " ++ fmtMoney host pv ++ " — down " ++ fmtMoney host |pnl| ++
      " (" ++ fmtPct host pnlPct ++ ")."⟩
  else
    ⟨.level, "Your portfolio is worth " ++ fmtMoney host pv ++
      " — flat versus your starting cash."⟩

structure Metric where
  key : String
  label : String
  plain : Passage Reading
  deriving DecidableEq

def metrics (s : Snapshot K) : List Metric :=
  let pv := num s.portfolio_value
  let pnl := num s.pnl
  let vol := num s.volatility
  let varv := num s.var
  let sharpe := num s.sharpe
  let seed := pv - pnl
  let pnlPct := if seed ≠ 0 then pnl / seed else 0
  let varPct := if pv ≠ 0 then varv / pv else 0
  [{ key := "portfolio_value", label := "Portfolio value"
     plain := ⟨.worth, "This is what your account is worth right now — your cash plus the " ++
       "market value of your holdings priced at the latest ticks. It currently stands at " ++
       fmtMoney host pv ++ "."⟩ },
   { key := "pnl", label := "P&L"
     plain :=
       if 0 ≤ pnl then
         ⟨.gain, "You're up " ++ fmtMoney host pnl ++ " (" ++ fmtPct host pnlPct ++
           ") versus your starting cash of " ++ fmtMoney host seed ++ ". This is an on-paper " ++
           "(unrealized) gain — it moves with prices and isn't locked in until you sell."⟩
       else
         ⟨.loss, "You're down " ++ fmtMoney host |pnl| ++ " (" ++ fmtPct host pnlPct ++
           ") versus your starting cash of " ++ fmtMoney host seed ++ ". This is an on-paper " ++
           "(unrealized) loss and recovers if prices rebound."⟩ },
   { key := "volatility", label := "Volatility"
     plain :=
       if vol ≤ 0 then
         ⟨.notMeasurable, "Volatility measures how much your portfolio value bounces between " ++
           "updates. There isn't enough price history yet to measure it — it fills in shortly."⟩
       else
         ⟨.swings (volBand vol), "Volatility measures how much your portfolio value swings " ++
           "between updates. At " ++ fmtPct host vol ++ " it's currently " ++ (volBand vol).text ++
           " — a higher number means bigger swings both up and down."⟩ },
   { key := "var", label := "VaR"
     plain :=
       if varv ≤ 0 then
         ⟨.notMeasurable, "Value at Risk (VaR) estimates your likely worst-case loss on a normal " ++
           "day. Not enough history yet to compute it."⟩
       else
         ⟨.downside, "Value at Risk (VaR) estimates your downside on a normal day. With about " ++
           "95% confidence, you wouldn't expect to lose more than " ++ fmtMoney host varv ++
           " over 1 trading day — roughly " ++ fmtPct host varPct ++ " of your portfolio. It " ++
           "rises when either your volatility or portfolio size grows."⟩ },
   { key := "sharpe", label := "Sharpe"
     plain :=
       if vol ≤ 0 then
         ⟨.notMeasurable, "The Sharpe ratio compares recent return against how bumpy the ride " ++
           "was. Not enough history yet to compute it."⟩
       else if sharpe < 0 then
         ⟨.driftedDown (sharpeBand sharpe vol), "The Sharpe ratio (" ++ fmtNum host sharpe 2 ++
           ") is your recent return per unit of risk. It's " ++ (sharpeBand sharpe vol).text ++
           ": over the recent window your portfolio drifted down on average. It's a " ++
           "short-window figure that flips easily and doesn't contradict a positive overall P&L."⟩
       else
         ⟨.perUnitOfRisk (sharpeBand sharpe vol), "The Sharpe ratio (" ++ fmtNum host sharpe 2 ++
           ") is your recent return per unit of risk — it's " ++ (sharpeBand sharpe vol).text ++
           ". Higher is better; it rewards steady gains and penalizes big swings."⟩ }]

/-! ## Changes -/

structure Change where
  key : String
  direction : Direction
  plain : Passage Cause
  deriving DecidableEq

def roundEq (a b eps : K) : Bool := |a - b| < eps

/-- `delta > 0 ? 'up' : 'down'`. -/
def directionOf (delta : K) : Direction := if 0 < delta then .up else .down

def valueChange (pvD pnlD : K) : Option Change :=
  if !roundEq pvD 0 (5 / 1000 : ℚ) then
    some
      { key := "portfolio_value", direction := directionOf pvD
        plain := ⟨if 0 < pvD then .valueRose else .valueFell,
          "Your portfolio value " ++ (if 0 < pvD then "rose" else "fell") ++ " " ++
          signedMoney host pvD ++ " since the last update, so your P&L moved by the same " ++
          "amount (" ++ signedMoney host pnlD ++ "). This comes from a trade you placed or a " ++
          "market price move in your holdings."⟩ }
  else none

def riskChange (volD varD : K) : Option Change :=
  if !roundEq volD 0 (1 / 1000000 : ℚ) then
    some
      { key := "volatility", direction := directionOf volD
        plain :=
          if 0 < volD then
            ⟨.volatilityIncreased, "Volatility increased (" ++ signedPct host volD ++
              "), meaning your portfolio has been swinging a bit more. That's why VaR rose too " ++
              "— VaR is directly proportional to volatility."⟩
          else
            ⟨.volatilityEased, "Volatility eased (" ++ signedPct host volD ++ "), so your " ++
              "portfolio has been steadier and your estimated daily risk (VaR) came down with " ++
              "it."⟩ }
  else if !roundEq varD 0 (5 / 1000 : ℚ) then
    some
      { key := "var", direction := directionOf varD
        plain := ⟨if 0 < varD then .varRose else .varFell,
          "Your VaR " ++ (if 0 < varD then "rose" else "fell") ++ " " ++ signedMoney host varD ++
          " mainly because your portfolio size changed — VaR scales with portfolio value even " ++
          "when volatility holds steady."⟩ }
  else none

def sharpeChange (sharpeC sharpeP : K) : Option Change :=
  if decide (0 ≤ sharpeC) ≠ decide (0 ≤ sharpeP) then
    some
      { key := "sharpe", direction := if sharpeP ≤ sharpeC then .up else .down
        plain :=
          if 0 ≤ sharpeC then
            ⟨.sharpePositive, "Your Sharpe ratio flipped positive: recent risk-adjusted return " ++
              "improved."⟩
          else
            ⟨.sharpeNegative, "Your Sharpe ratio turned negative: over the recent window your " ++
              "portfolio drifted down on average. It's a short-window measure and can flip back " ++
              "quickly."⟩ }
  else none

def changes (cur prev : Snapshot K) : List Change :=
  let pvD := num cur.portfolio_value - num prev.portfolio_value
  let pnlD := num cur.pnl - num prev.pnl
  let volD := num cur.volatility - num prev.volatility
  let varD := num cur.var - num prev.var
  (valueChange host pvD pnlD).toList ++ (riskChange host volD varD).toList ++
    (sharpeChange (num cur.sharpe) (num prev.sharpe)).toList

/-! ## The narrative -/

def notes (s : Snapshot K) : List String :=
  ["These figures update live as you trade and as market prices move.",
    "VaR here is parametric (about 95% confidence, 1-day horizon). Volatility and Sharpe use a " ++
      "short rolling window, so they react quickly and can swing."] ++
    if num s.volatility ≤ 0 ∨ num s.var ≤ 0 then
      ["Volatility, VaR and Sharpe read 0 until enough live price history has accrued — that's " ++
        "'not enough data yet', not 'no risk'."]
    else []

structure Narrative where
  account_id : String
  computed_at : String
  headline : Passage Standing
  summary : String
  metrics : List Metric
  changes : List Change
  notes : List String

def buildRiskNarrative (current : Snapshot K) (previous : Option (Snapshot K)) : Narrative :=
  let chg := match previous with
    | some previous => changes host current previous
    | none => []
  { account_id := current.account_id, computed_at := current.computed_at
    headline := headline host current
    summary := if chg.length ≠ 0 then whatChanged else whatItMeans
    metrics := metrics host current, changes := chg, notes := notes current }

end Texts

end TradePulse.Explain.Dashboard
