import TradePulse.Web.Security
import TradePulse.Ledger.Reads

/-! # The controllers

`AuthController`, `TradeController`, `AdminController`, `HealthController` and
`CorrelationIdFilter`, up to the first statement that a request makes. A body
is what Jackson makes of it as each record that a controller asks for. -/
namespace TradePulse.Ledger.Web

inductive Method where
  | GET
  | POST
  | other (name : String)
  deriving DecidableEq

structure LoginRequest where
  username : Option String
  password : Option String

structure LoginResponse (τ : Type) where
  access_token : τ
  token_type : String
  role : String

structure AdminCreditRequest where
  amount : Option BigDecimal
  reason : Option String

structure Body where
  login : Option LoginRequest
  trade : Option TradeRequestBody
  credit : Option AdminCreditRequest

structure Request (τ : Type) where
  method : Method
  path : Path
  bearer : Option τ
  /-- `X-Correlation-ID`. -/
  correlationId : Option String
  body : Body
  account_id : Option String
  status : Option String

inductive Content (τ : Type) where
  | none
  /-- The reason of a `ResponseStatusException`. -/
  | reason (text : String)
  | login (response : LoginResponse τ)
  | trade (result : TradeResultDto)
  | credit (result : AdminCreditResult)
  | history (rows : List TradeResultDto)
  | balances (rows : List BalanceDto)
  | positions (rows : List PositionDto)
  | audit (rows : List AuditEntryDto)
  | service (fields : List (String × String))

/-- What a controller answers without the database. -/
def Content.isLocal {τ : Type} : Content τ → Bool
  | .none | .reason _ | .login _ | .service _ => true
  | _ => false

structure Answer (τ : Type) where
  status : Nat
  content : Content τ

structure Config (τ : Type) where
  rules : ComplianceRules
  passwords : Passwords
  jwt : JwtLibrary τ
  ttlSeconds : Int
  database : Server

/-! ## Requests -/

/-- The reads of `TradeController`. -/
inductive Query where
  | history (account_id status : Option String)
  | balances (account_id : Option String)
  | positions (account_id : Option String)
  | audit (account_id : Option String)

/-- What a controller does once it has checked a request. -/
inductive Next (τ : Type) where
  | answer (a : Answer τ)
  | read (q : Query)
  /-- The service is called if the account exists. -/
  | serve (accountId : String) (c : Call)

section Controllers

variable {τ : Type}

def badRequest (text : String) : Answer τ := ⟨400, .reason text⟩

def unreadable : Answer τ := ⟨400, .none⟩

def login (cfg : Config τ) (now : OffsetDateTime) : Option LoginRequest → Answer τ
  | some ⟨some username, some password⟩ =>
    match authenticate cfg.passwords (some username) (some password) with
    | some role =>
      ⟨200, .login ⟨mint cfg.jwt cfg.ttlSeconds now username role, "Bearer", role⟩⟩
    | none => ⟨401, .reason "invalid credentials"⟩
  | some _ => badRequest "username and password required"
  | none => unreadable

def submitTrade (correlationId : String) : Option TradeRequestBody → Next τ
  | some body =>
    match validate (some body) with
    | .ok req => .serve req.account_id (.postTrade (some correlationId) req)
    | .error text => .answer (badRequest text)
  | none => .answer unreadable

def credit (accountId : String) : Option AdminCreditRequest → Next τ
  | some ⟨some amount, reason⟩ =>
    if amount ≤ 0 then .answer (badRequest "amount must be > 0")
    else .serve accountId (.creditAccount accountId amount reason)
  | some _ => .answer (badRequest "amount must be > 0")
  | none => .answer unreadable

/-- The handler of a request, or 404. -/
def dispatch (cfg : Config τ) (correlationId : String) (now : OffsetDateTime) (r : Request τ) :
    Next τ :=
  match r.method, r.path with
  | .POST, ["auth", "login"] => .answer (login cfg now r.body.login)
  | .POST, ["trades"] => submitTrade correlationId r.body.trade
  | .POST, ["admin", "accounts", accountId, "credit"] => credit accountId r.body.credit
  | .GET, ["trades"] => .read (.history r.account_id r.status)
  | .GET, ["balances"] => .read (.balances r.account_id)
  | .GET, ["positions"] => .read (.positions r.account_id)
  | .GET, ["audit"] => .read (.audit r.account_id)
  | .GET, ["health"] => .answer ⟨200, .service [("status", "UP"), ("service", "ledger-core")]⟩
  | .GET, [""] => .answer ⟨200, .service [("service", "ledger-core"), ("version", "0.4.0")]⟩
  | _, _ => .answer ⟨404, .none⟩

/-- The id that `CorrelationIdFilter` binds and echoes. -/
def correlate (header : Option String) (fresh : UUID) : String :=
  match header with
  | some id => if isBlank id then fresh.toString else id
  | none => fresh.toString

/-! ## Answers -/

def Query.run (database : Server) (db : Db) : Query → Content τ
  | .history account_id status => .history (db.history account_id status)
  | .balances account_id => .balances (db.balances account_id)
  | .positions account_id => .positions (db.positions database account_id)
  | .audit account_id => .audit (db.audit account_id)

/-- What the service's reply is answered with. -/
def reply : Reply → Answer τ
  | .trade outcome =>
    if outcome.result.status = .rejected then ⟨409, .trade outcome.result⟩
    else if outcome.created then ⟨201, .trade outcome.result⟩
    else ⟨200, .trade outcome.result⟩
  | .credit result => ⟨200, .credit result⟩

@[simp] theorem reply_content (r : Reply) : (reply r : Answer τ).content =
    match r with
    | .trade outcome => .trade outcome.result
    | .credit result => .credit result := by
  cases r with
  | trade outcome =>
    simp only [reply]
    split
    · rfl
    · split <;> rfl
  | credit result => rfl

def Denial.answer : Denial → Answer τ
  | .unauthorized => ⟨401, .none⟩
  | .forbidden => ⟨403, .none⟩

/-! ## What the handlers do -/

/-- The requests that reach the service. -/
inductive Orders : Request τ → String → Call → Prop
  | trade {r : Request τ} {body : TradeRequestBody} {req : TradeRequestDto} {id : String}
      (method : r.method = .POST) (path : r.path = ["trades"]) (sent : r.body.trade = some body)
      (valid : validate (some body) = .ok req) :
      Orders r req.account_id (.postTrade (some id) req)
  | credit {r : Request τ} {accountId : String} {amount : BigDecimal} {reason : Option String}
      (method : r.method = .POST) (path : r.path = ["admin", "accounts", accountId, "credit"])
      (sent : r.body.credit = some ⟨some amount, reason⟩) (positive : 0 < amount) :
      Orders r accountId (.creditAccount accountId amount reason)

theorem submitTrade_serve {id accountId : String} {body : Option TradeRequestBody} {c : Call}
    (h : submitTrade (τ := τ) id body = .serve accountId c) :
    ∃ b req, body = some b ∧ validate (some b) = .ok req ∧ accountId = req.account_id ∧
      c = .postTrade (some id) req := by
  unfold submitTrade at h
  split at h
  · rename_i b
    split at h
    · rename_i req hreq
      cases h
      exact ⟨b, req, rfl, hreq, rfl, rfl⟩
    · cases h
  · cases h

theorem credit_serve {account accountId : String} {body : Option AdminCreditRequest} {c : Call}
    (h : credit (τ := τ) account body = .serve accountId c) :
    ∃ amount reason, body = some ⟨some amount, reason⟩ ∧ 0 < amount ∧ accountId = account ∧
      c = .creditAccount account amount reason := by
  unfold credit at h
  split at h
  · rename_i amount reason
    split at h
    · cases h
    · rename_i hpos
      cases h
      exact ⟨amount, reason, rfl, not_le.mp hpos, rfl, rfl⟩
  · cases h
  · cases h

theorem dispatch_serve {cfg : Config τ} {id accountId : String} {now : OffsetDateTime}
    {r : Request τ} {c : Call} (h : dispatch cfg id now r = .serve accountId c) :
    Orders r accountId c ∧ ∀ mdc req, c = .postTrade mdc req → mdc = some id := by
  unfold dispatch at h
  split at h
  case h_2 hm hp =>
    obtain ⟨b, req, hbody, hreq, rfl, rfl⟩ := submitTrade_serve h
    refine ⟨.trade hm hp hbody hreq, fun mdc req' hc => ?_⟩
    cases hc
    rfl
  case h_3 account hm hp =>
    obtain ⟨amount, reason, hbody, hpos, rfl, rfl⟩ := credit_serve h
    exact ⟨.credit hm hp hbody hpos, nofun⟩
  all_goals cases h

theorem dispatch_read_audit {cfg : Config τ} {id : String} {now : OffsetDateTime} {r : Request τ}
    {account_id : Option String} (h : dispatch cfg id now r = .read (.audit account_id)) :
    r.path = ["audit"] := by
  unfold dispatch at h
  split at h
  case h_7 hm hp => exact hp
  case h_2 => unfold submitTrade at h; split at h <;> (try split at h) <;> cases h
  case h_3 => unfold credit at h; split at h <;> (try split at h) <;> cases h
  all_goals cases h

/-- An answer of the controller itself creates nothing. -/
def Answer.IsLocal (a : Answer τ) : Prop := a.content.isLocal ∧ a.status ≠ 201

theorem login_isLocal (cfg : Config τ) (now : OffsetDateTime) (body : Option LoginRequest) :
    (login cfg now body).IsLocal := by
  unfold login
  split
  · split
    · exact ⟨rfl, nofun⟩
    · exact ⟨rfl, nofun⟩
  · exact ⟨rfl, nofun⟩
  · exact ⟨rfl, nofun⟩

theorem submitTrade_isLocal {id : String} {body : Option TradeRequestBody} {a : Answer τ}
    (h : submitTrade id body = .answer a) : a.IsLocal := by
  unfold submitTrade at h
  split at h
  · split at h
    · cases h
    · cases h
      exact ⟨rfl, nofun⟩
  · cases h
    exact ⟨rfl, nofun⟩

theorem credit_isLocal {accountId : String} {body : Option AdminCreditRequest} {a : Answer τ}
    (h : credit accountId body = .answer a) : a.IsLocal := by
  unfold credit at h
  split at h
  · split at h
    · cases h
      exact ⟨rfl, nofun⟩
    · cases h
  · cases h
    exact ⟨rfl, nofun⟩
  · cases h
    exact ⟨rfl, nofun⟩

theorem dispatch_isLocal {cfg : Config τ} {id : String} {now : OffsetDateTime} {r : Request τ}
    {a : Answer τ} (h : dispatch cfg id now r = .answer a) : a.IsLocal := by
  unfold dispatch at h
  split at h
  case h_1 => exact Next.answer.inj h ▸ login_isLocal ..
  case h_2 => exact submitTrade_isLocal h
  case h_3 => exact credit_isLocal h
  case h_8 | h_9 | h_10 =>
    cases h
    exact ⟨rfl, nofun⟩
  all_goals cases h

/-- A token is handed out to who knows a password. -/
structure Grants (cfg : Config τ) (r : Request τ) (now : OffsetDateTime) (token : τ)
    (username role : String) : Prop where
  method : r.method = .POST
  path : r.path = ["auth", "login"]
  password : ∃ pw, r.body.login = some ⟨some username, some pw⟩ ∧
    (username, ⟨pw, role⟩) ∈ users cfg.passwords
  minted : token = mint cfg.jwt cfg.ttlSeconds now username role

theorem login_grants {cfg : Config τ} {now : OffsetDateTime} {body : Option LoginRequest}
    {status : Nat} {res : LoginResponse τ} (h : login cfg now body = ⟨status, .login res⟩) :
    ∃ username pw, body = some ⟨some username, some pw⟩ ∧
      (username, ⟨pw, res.role⟩) ∈ users cfg.passwords ∧
      res.access_token = mint cfg.jwt cfg.ttlSeconds now username res.role := by
  unfold login at h
  split at h
  · rename_i username password
    split at h
    · rename_i role hrole
      cases h
      obtain ⟨name, pw, hname, hpw, hmem⟩ := authenticate_some hrole
      cases hname
      cases hpw
      exact ⟨username, password, rfl, hmem, rfl⟩
    · cases h
  · cases h
  · cases h

theorem dispatch_login {cfg : Config τ} {id : String} {now : OffsetDateTime} {r : Request τ}
    {status : Nat} {res : LoginResponse τ}
    (h : dispatch cfg id now r = .answer ⟨status, .login res⟩) :
    ∃ username, Grants cfg r now res.access_token username res.role := by
  unfold dispatch at h
  split at h
  case h_1 hm hp =>
    obtain ⟨username, pw, hbody, hmem, htoken⟩ := login_grants (Next.answer.inj h)
    exact ⟨username, hm, hp, ⟨pw, hbody, hmem⟩, htoken⟩
  case h_2 => unfold submitTrade at h; split at h <;> (try split at h) <;> cases h
  case h_3 => unfold credit at h; split at h <;> (try split at h) <;> cases h
  all_goals cases h

end Controllers

end TradePulse.Ledger.Web
