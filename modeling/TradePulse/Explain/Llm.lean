import TradePulse.Core.Utf8
import TradePulse.Explain.Backend
import TradePulse.Risk.Json

/-! # `app/llm_explain.py` and `/risk/explain`

The rewrite of a narrative by a language model, with the exceptions Python
raises where the reply is not what the code expects. The HTTP client, the JSON
parser and `repr` are parameters. -/
namespace TradePulse.Explain.Llm

open TradePulse.Risk (Json PyFloat)

/-- The classes the handlers tell apart. `urllib.error.URLError` and
`TimeoutError` are `OSError`s, and a text that does not decode or parse is a
`ValueError`. -/
inductive Raised where
  | OSError
  | HTTPException
  | KeyError
  | IndexError
  | ValueError
  | TypeError
  | OverflowError
  | RecursionError
  /-- Any other class. -/
  | Other
  deriving DecidableEq

/-! ## Strings -/

/-- A string of Python: code points, lone surrogates among them. -/
abbrev PyStr := List Nat

def py (s : String) : PyStr := s.toList.map Char.toNat

def isSpace (c : Nat) : Bool :=
  (9 ≤ c && c ≤ 13) || (28 ≤ c && c ≤ 32) || c = 0x85 || c = 0xA0 || c = 0x1680 ||
    (0x2000 ≤ c && c ≤ 0x200A) || c = 0x2028 || c = 0x2029 || c = 0x202F || c = 0x205F ||
    c = 0x3000

def strip (s : PyStr) : PyStr := ((s.dropWhile isSpace).reverse.dropWhile isSpace).reverse

/-- `lower`, as far as ASCII goes; no other letter is in the words it is for. -/
def lower (s : PyStr) : PyStr := s.map fun c => if 65 ≤ c ∧ c ≤ 90 then c + 32 else c

/-- `rstrip("/")`. -/
def rstripSlash (s : PyStr) : PyStr := (s.reverse.dropWhile (· = 47)).reverse

def isSurrogate (c : Nat) : Bool := 0xD800 ≤ c && c ≤ 0xDFFF

/-- Whether UTF-8 has bytes for the string. -/
def encodable (s : PyStr) : Bool := s.all fun c => !isSurrogate c

/-- `float(s)`. -/
def toFloat {F : Type} [PyFloat F] (s : PyStr) : Except Raised F :=
  if encodable s then
    match PyFloat.ofString (String.ofList (s.map Char.ofNat)) with
    | some x => .ok x
    | none => .error .ValueError
  else .error .ValueError

/-! ## JSON values as Python sees them -/

section Values

variable {F : Type}

def text? : Json F → Option PyStr
  | .str s => some (py s)
  | .surrogates codePoints => some codePoints
  | _ => none

/-- `v[key]`. -/
def item (key : String) : Json F → Except Raised (Json F)
  | .obj kvs => match kvs.lookup key with
    | some v => .ok v
    | none => .error .KeyError
  | _ => .error .TypeError

/-- `v[0]`. -/
def first : Json F → Except Raised (Json F)
  | .arr (x :: _) => .ok x
  | .arr [] => .error .IndexError
  | .str s => match py s with
    | c :: _ => .ok (.surrogates [c])
    | [] => .error .IndexError
  | .surrogates (c :: _) => .ok (.surrogates [c])
  | .surrogates [] => .error .IndexError
  -- the keys of an object are strings
  | .obj _ => .error .KeyError
  | .null | .bool _ | .int _ | .float _ => .error .TypeError

/-- `for x in v`. -/
def iterate : Json F → Except Raised (List (Json F))
  | .arr xs => .ok xs
  | .str s => .ok ((py s).map fun c => .surrogates [c])
  | .surrogates codePoints => .ok (codePoints.map fun c => .surrogates [c])
  | .obj kvs => .ok (kvs.map fun kv => .str kv.1)
  | .null | .bool _ | .int _ | .float _ => .error .TypeError

def hashable : Json F → Bool
  | .arr _ | .obj _ => false
  | _ => true

end Values

/-! ## Configuration -/

section Config

variable (getenv : String → Option PyStr)

/-- `_env`. -/
def env (name default : String) : PyStr := (getenv name).getD (py default)

def isEnabled : Bool :=
  lower (strip (env getenv "RISK_LLM_ENABLED" "false")) ∈ [py "1", py "true", py "yes", py "on"]

/-- `x or y`. -/
def orElse (x y : PyStr) : PyStr := if x = [] then y else x

def apiKey : PyStr := orElse (env getenv "RISK_LLM_API_KEY" "") (env getenv "OPENAI_API_KEY" "")

structure Config (F : Type) where
  enabled : Bool
  api_key : PyStr
  base_url : PyStr
  model : PyStr
  timeout : F

def timeoutMs : PyStr := orElse (env getenv "RISK_LLM_TIMEOUT_MS" "8000") (py "8000")

/-- `_config`. -/
def config {F : Type} [PyFloat F] : Except Raised (Config F) := do
  let timeout ← toFloat (timeoutMs getenv)
  return { enabled := isEnabled getenv, api_key := apiKey getenv
           base_url := rstripSlash (env getenv "RISK_LLM_BASE_URL" "https://api.openai.com/v1")
           model := env getenv "RISK_LLM_MODEL" "gpt-4o-mini"
           timeout := timeout / PyFloat.thousand }

end Config

/-! ## The request -/

def systemPrompt : String :=
  "You are a friendly financial coach helping a retail user who has NO finance expertise " ++
  "understand their portfolio risk. You will be given a JSON object of ALREADY-COMPUTED facts " ++
  "(headline, per-metric plain explanations, what changed, and caveats). Rewrite these into a " ++
  "warm, clear, encouraging narrative.\n\nSTRICT RULES:\n1. Use ONLY the numbers and facts " ++
  "provided. NEVER invent or alter any figure.\n2. Do NOT give buy/sell recommendations or " ++
  "financial advice.\n3. Keep it concise and jargon-free; briefly define any term you must " ++
  "use.\n4. Preserve the factual relationships stated (e.g. VaR is proportional to volatility " ++
  "and portfolio size).\n5. Return ONLY a JSON object with this exact shape (no markdown, no " ++
  "extra keys):\n\x7b\"headline\": str, \"summary\": str, \"metrics\": [\x7b\"key\": str, " ++
  "\"label\": str, \"plain\": str\x7d], \"changes\": [\x7b\"key\": str, \"direction\": str, " ++
  "\"plain\": str\x7d], \"notes\": [str]\x7d\nThe metrics and changes arrays MUST keep the same " ++
  "keys/labels/directions as the input; only rewrite the 'plain' prose and the " ++
  "headline/summary/notes."

/-- The object of `_build_user_payload`, whose texts `json.dumps` can always write. -/
structure UserPayload where
  headline : PyStr
  summary : PyStr
  metrics : List (String × String × PyStr)
  changes : List (String × Direction × PyStr)
  notes : List PyStr

structure Request (F : Type) where
  url : PyStr
  model : PyStr
  system : String
  user : UserPayload
  authorization : PyStr
  timeout : F

/-! ## Narratives -/

inductive Mode where
  | rule
  | llm
  deriving DecidableEq

structure ToldMetric (K : Type) where
  key : String
  label : String
  value : K
  plain : PyStr

structure ToldChange (K : Type) where
  key : String
  direction : Direction
  delta : K
  plain : PyStr

/-- The object that the endpoint answers with. -/
structure Told (K : Type) where
  account_id : String
  computed_at : String
  headline : PyStr
  summary : PyStr
  metrics : List (ToldMetric K)
  changes : List (ToldChange K)
  notes : List PyStr
  mode : Mode
  llm_unavailable : Bool

section Narratives

variable {F K : Type}

/-- The deterministic facts, with the mode that the endpoint sets. -/
def factsOf (n : Backend.Narrative K) : Told K where
  account_id := n.account_id
  computed_at := n.computed_at
  headline := py n.headline.text
  summary := py n.summary
  metrics := n.metrics.map fun m => ⟨m.key, m.label, m.value, py m.plain.text⟩
  changes := n.changes.map fun c => ⟨c.key, c.direction, c.delta, py c.plain.text⟩
  notes := n.notes.map py
  mode := .rule
  llm_unavailable := false

/-- `_build_user_payload`. -/
def buildUserPayload (facts : Told K) : UserPayload where
  headline := facts.headline
  summary := facts.summary
  metrics := facts.metrics.map fun m => (m.key, m.label, m.plain)
  changes := facts.changes.map fun c => (c.key, c.direction, c.plain)
  notes := facts.notes

def request (cfg : Config F) (facts : Told K) : Request F where
  url := cfg.base_url ++ py "/chat/completions"
  model := cfg.model
  system := systemPrompt
  user := buildUserPayload facts
  authorization := py "Bearer " ++ cfg.api_key
  timeout := cfg.timeout

/-! ## Merging -/

/-- `d.get(key)` where it is a string that is not blank. -/
def prose (kvs : List (String × Json F)) (key : String) : Option PyStr :=
  ((kvs.lookup key).bind text?).filter fun t => strip t ≠ []

/-- One turn of the comprehension: the key and the prose of an object that has prose. -/
def plainEntry (m : Json F) : Except Raised (Option (Json F × PyStr)) :=
  match m with
  | .obj kvs => match prose kvs "plain" with
    | some plain =>
      let key := (kvs.lookup "key").getD .null
      if hashable key then .ok (some (key, plain)) else .error .TypeError
    | none => .ok none
  | _ => .ok none

/-- `llm_metric_plain` and `llm_change_plain`, in the order of the entries. -/
def llmPlain (llm : List (String × Json F)) (field : String) :
    Except Raised (List (Json F × PyStr)) := do
  let items ← iterate ((llm.lookup field).getD (.arr []))
  items.filterMapM plainEntry

/-- The prose for a key: of two entries the later one stays. -/
def plainFor (entries : List (Json F × PyStr)) (key : String) : Option PyStr :=
  (entries.findRev? fun entry => text? entry.1 = some (py key)).map fun entry => strip entry.2

variable (repr : Json F → PyStr)

/-- `str(v)`. -/
def str (v : Json F) : PyStr := (text? v).getD (repr v)

/-- The notes that are taken over, if any are there. -/
def llmNotes (llm : List (String × Json F)) : Option (List PyStr) :=
  match llm.lookup "notes" with
  | some (.arr (n :: ns)) => some (((n :: ns).map (str repr)).filter fun t => strip t ≠ [])
  | _ => none

/-- `_merge`. -/
def merge (facts : Told K) (llm : List (String × Json F)) : Except Raised (Told K) := do
  let llmMetricPlain ← llmPlain llm "metrics"
  let llmChangePlain ← llmPlain llm "changes"
  return { facts with
    headline := ((prose llm "headline").map strip).getD facts.headline
    summary := ((prose llm "summary").map strip).getD facts.summary
    notes := (llmNotes repr llm).getD facts.notes
    metrics := facts.metrics.map fun m =>
      { m with plain := (plainFor llmMetricPlain m.key).getD m.plain }
    changes := facts.changes.map fun c =>
      { c with plain := (plainFor llmChangePlain c.key).getD c.plain }
    mode := .llm }

/-! ## The call -/

variable [PyFloat F] (getenv : String → Option PyStr)
  (urlopen : Request F → Except Raised (List UInt8)) (loads : PyStr → Except Raised (Json F))

/-- `parsed["choices"][0]["message"]["content"]`. -/
def contentOf (parsed : Json F) : Except Raised (Json F) := do
  let choices ← item "choices" parsed
  let choice ← first choices
  let message ← item "message" choice
  item "content" message

/-- `json.loads(content)`, which takes a string. -/
def loadsContent (content : Json F) : Except Raised (Json F) :=
  match text? content with
  | some s => loads s
  | none => .error .TypeError

/-- `_call_chat_completions`; the body is read before it is decoded. -/
def callChatCompletions (cfg : Config F) (facts : Told K) : Except Raised (Json F) := do
  let body ← urlopen (request cfg facts)
  match Core.Utf8.decodeStrict body with
  | none => throw .ValueError
  | some raw =>
    let parsed ← loads (raw.map Char.toNat)
    let content ← contentOf parsed
    loadsContent loads content

/-- The two handlers around the call, and the one around the merge. -/
def caughtInCall (e : Raised) : Bool := e ∈ [.OSError, .KeyError, .ValueError, .TypeError]

def caughtInMerge (e : Raised) : Bool := e ∈ [.KeyError, .ValueError, .TypeError]

def generateLlmNarrative (facts : Told K) : Except Raised (Option (Told K)) := do
  let cfg : Config F ← config getenv
  if !cfg.enabled then return none
  if cfg.api_key = [] then return none
  match callChatCompletions urlopen loads cfg facts with
  | .error e => if caughtInCall e then return none else throw e
  | .ok (.obj llm) => match merge repr facts llm with
    | .error e => if caughtInMerge e then return none else throw e
    | .ok told => return some told
  | .ok _ => return none

/-- The status of `/risk/explain`. What a handler raises is a 500, and so is an
answer that `render` cannot write. -/
def riskExplain (render : Told K → Bool) (snapshot : Option (Backend.Narrative K))
    (mode : Option String) : Nat :=
  let respond := fun told => if render told then 200 else 500
  match snapshot with
  | none => 404
  | some narrative =>
    let facts := factsOf narrative
    if mode = some "llm" then
      match generateLlmNarrative repr getenv urlopen loads facts with
      | .error _ => 500
      | .ok (some told) => respond told
      | .ok none => respond { facts with llm_unavailable := true }
    else respond facts

end Narratives

end TradePulse.Explain.Llm
