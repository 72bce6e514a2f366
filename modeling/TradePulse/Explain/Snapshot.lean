import TradePulse.Core.Rounding

/-! # Snapshots and narratives

What both explanations of a risk snapshot read and write: `app/explain.py`,
which serves it over REST, and the dashboard's `explain.js`. A passage carries
the branch that wrote it beside its words. -/
namespace TradePulse.Explain

/-! ## Digits -/

/-- Digits of a number from the last one on, with a comma after every third. -/
def group : List Char → List Char
  | a :: b :: c :: d :: cs => a :: b :: c :: ',' :: group (d :: cs)
  | cs => cs

def grouped (digits : String) : String :=
  String.ofList (group digits.toList.reverse).reverse

/-- `n` units of the last of these decimal places; `whole` writes the digits
before the point. -/
def decimalText (whole : String → String) (n digits : ℕ) : String :=
  whole (toString (n / 10 ^ digits)) ++
    if digits = 0 then ""
    else "." ++ String.ofList ((toString (n % 10 ^ digits)).toList.leftpad digits '0')

/-! ## Snapshots -/

/-- What a snapshot has under a key. -/
inductive Entry (K : Type) where
  | missing
  | null
  | number (x : K)

/-- A published snapshot. The first two are always there, so that the object
is never empty and both languages take it for true. -/
structure Snapshot (K : Type) where
  account_id : String
  computed_at : String
  portfolio_value : Entry K
  pnl : Entry K
  volatility : Entry K
  var : Entry K
  sharpe : Entry K

/-! ## Branches -/

/-- The bands of volatility, then those of the Sharpe ratio. -/
inductive Band where
  | notMeasurableYet
  | veryCalm
  | low
  | moderate
  | elevated
  | strong
  | modestlyPositive
  | flat
  | negative
  deriving DecidableEq

def Band.text : Band → String
  | .notMeasurableYet => "not measurable yet"
  | .veryCalm => "very calm"
  | .low => "low"
  | .moderate => "moderate"
  | .elevated => "elevated"
  | .strong => "strong"
  | .modestlyPositive => "modestly positive"
  | .flat => "flat"
  | .negative => "negative"

/-- The branches of the metric texts. -/
inductive Reading where
  | worth
  | gain
  | loss
  | notMeasurable
  | swings (band : Band)
  | downside
  | driftedDown (band : Band)
  | perUnitOfRisk (band : Band)
  deriving DecidableEq

/-- The branches of the change texts. -/
inductive Cause where
  | valueRose
  | valueFell
  | volatilityIncreased
  | volatilityEased
  | varRose
  | varFell
  | sharpePositive
  | sharpeNegative
  deriving DecidableEq

inductive Standing where
  | up
  | down
  | level
  deriving DecidableEq

inductive Direction where
  | up
  | down
  deriving DecidableEq

/-- A text and the branch that wrote it. -/
structure Passage (Branch : Type) where
  branch : Branch
  text : String
  deriving DecidableEq

def whatChanged : String := "Here's what changed and why, in plain language."

def whatItMeans : String := "Here's what each number means for your account, in plain language."

end TradePulse.Explain
