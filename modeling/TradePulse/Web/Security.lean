import TradePulse.Ledger.Service

/-! # Who may call the ledger

`AuthService`, `TokenService` and `SecurityConfig`. The JWT library is a
parameter, keyed with the configured secret; `τ` is the type of its tokens.
Spring Security takes the first rule with a matching pattern, and answers 401
to a token that the library refuses, also where no token is needed. -/
namespace TradePulse.Ledger.Web

/-! ## Credentials -/

/-- The passwords of the configuration. -/
structure Passwords where
  trader : String
  viewer : String
  compliance : String
  admin : String

structure Credential where
  password : String
  role : String

/-- `AuthService.users`. -/
def users (p : Passwords) : List (String × Credential) :=
  [("demo_trader", ⟨p.trader, "trader"⟩), ("viewer", ⟨p.viewer, "viewer"⟩),
    ("compliance", ⟨p.compliance, "compliance"⟩), ("admin", ⟨p.admin, "admin"⟩)]

def authenticate (p : Passwords) : Option String → Option String → Option String
  | some username, some password =>
    match (users p).find? (·.1 = username) with
    | some (_, cred) => if cred.password = password then some cred.role else none
    | none => none
  | _, _ => none

/-! ## Tokens -/

structure Claims where
  issuer : String
  issuedAt : OffsetDateTime
  expiresAt : OffsetDateTime
  subject : String
  role : Option String
  deriving DecidableEq

structure JwtLibrary (τ : Type) where
  encode : Claims → τ
  /-- `none` where the form, the signature or the expiry is refused. -/
  decode : OffsetDateTime → τ → Option Claims

def seconds (n : Int) : Int := n * 1000000

/-- What the library's decoder allows for clocks that differ. -/
def CLOCK_SKEW : Int := seconds 60

/-- What a token says is read back, up to the fractions of a second that it
does not carry, and until it has expired. -/
structure JwtLibrary.Documented {τ : Type} (jwt : JwtLibrary τ) : Prop where
  reads : ∀ now c d, jwt.decode now (jwt.encode c) = some d →
    d.subject = c.subject ∧ d.role = c.role ∧ now ≤ c.expiresAt + CLOCK_SKEW
  accepts : ∀ now c, now ≤ c.expiresAt → (jwt.decode now (jwt.encode c)).isSome

def mint {τ : Type} (jwt : JwtLibrary τ) (ttlSeconds : Int) (now : OffsetDateTime)
    (username role : String) : τ :=
  jwt.encode
    { issuer := "ledger-core", issuedAt := now, expiresAt := now + seconds ttlSeconds
      subject := username, role := some role }

/-- The authorities of `jwtAuthenticationConverter`. -/
def authorities (jwt : Claims) : List String :=
  match jwt.role with
  | some role => if isBlank role then [] else ["ROLE_" ++ role]
  | none => []

/-! ## Rules -/

/-- A path, cut at its slashes. -/
abbrev Path := List String

inductive Pattern where
  | path (p : Path)
  /-- `/p/**`. -/
  | under (p : Path)

def Pattern.covers : Pattern → Path → Bool
  | .path p, q => q = p
  | .under p, q => p.isPrefixOf q

inductive Access where
  | permitAll
  | hasAnyRole (roles : List String)
  | authenticated

/-- The rules of `filterChain`, in their order. -/
def authorizeHttpRequests : List (List Pattern × Access) :=
  [([.path ["health"], .path [""], .under ["actuator"], .path ["auth", "login"]], .permitAll),
    ([.path ["audit"]], .hasAnyRole ["compliance", "admin"]),
    ([.under ["admin"]], .hasAnyRole ["admin"])]

def accessTo (path : Path) : Access :=
  ((authorizeHttpRequests.find? fun rule => rule.1.any (·.covers path)).map Prod.snd).getD
    .authenticated

/-- 401 and 403. -/
inductive Denial where
  | unauthorized
  | forbidden
  deriving DecidableEq

def Access.check (principal : Option Claims) : Access → Except Denial Unit
  | .permitAll => .ok ()
  | .hasAnyRole roles =>
    match principal with
    | some jwt =>
      if roles.any fun role => "ROLE_" ++ role ∈ authorities jwt then .ok () else .error .forbidden
    | none => .error .unauthorized
  | .authenticated => if principal.isSome then .ok () else .error .unauthorized

/-- The principal of a request, if it has one. -/
def principalOf {τ : Type} (jwt : JwtLibrary τ) (now : OffsetDateTime) :
    Option τ → Except Denial (Option Claims)
  | some token =>
    match jwt.decode now token with
    | some claims => .ok (some claims)
    | none => .error .unauthorized
  | none => .ok none

def filterChain {τ : Type} (jwt : JwtLibrary τ) (now : OffsetDateTime) (bearer : Option τ)
    (path : Path) : Except Denial (Option Claims) := do
  let principal ← principalOf jwt now bearer
  (accessTo path).check principal
  return principal

/-! ## What the chain lets through -/

theorem filterChain_ok {τ : Type} {jwt : JwtLibrary τ} {now : OffsetDateTime} {bearer : Option τ}
    {path : Path} {principal : Option Claims} :
    filterChain jwt now bearer path = .ok principal ↔
      principalOf jwt now bearer = .ok principal ∧ (accessTo path).check principal = .ok () := by
  unfold filterChain
  cases hp : principalOf jwt now bearer with
  | error d => simp [bind, Except.bind]
  | ok q =>
    cases hc : (accessTo path).check q with
    | error d =>
      simp only [bind, Except.bind, hc, reduceCtorEq, Except.ok.injEq, false_iff, not_and]
      rintro rfl
      rw [hc]
      nofun
    | ok u =>
      simp only [bind, Except.bind, hc, pure, Except.pure, Except.ok.injEq]
      constructor
      · rintro rfl
        exact ⟨rfl, hc⟩
      · exact And.left

theorem filterChain_isOk {τ : Type} {jwt : JwtLibrary τ} {now : OffsetDateTime} {bearer : Option τ}
    {path : Path} {principal : Option Claims} (h : principalOf jwt now bearer = .ok principal) :
    (filterChain jwt now bearer path).isOk ↔ (accessTo path).check principal = .ok () := by
  unfold filterChain
  rw [h]
  cases hc : (accessTo path).check principal with
  | ok u => simp [bind, Except.bind, hc, pure, Except.pure, Except.isOk, Except.toBool]
  | error d => simp [bind, Except.bind, hc, Except.isOk, Except.toBool]

/-- A token that is refused is refused on every path. -/
theorem filterChain_refused {τ : Type} {jwt : JwtLibrary τ} {now : OffsetDateTime} {token : τ}
    (h : jwt.decode now token = none) (path : Path) :
    filterChain jwt now (some token) path = .error .unauthorized := by
  simp only [filterChain, principalOf, h]
  rfl

theorem principalOf_some {τ : Type} {jwt : JwtLibrary τ} {now : OffsetDateTime} {bearer : Option τ}
    {claims : Claims} (h : principalOf jwt now bearer = .ok (some claims)) :
    ∃ token, bearer = some token ∧ jwt.decode now token = some claims := by
  cases bearer with
  | none => cases h
  | some token =>
    simp only [principalOf] at h
    split at h
    · rename_i d hd
      cases h
      exact ⟨token, rfl, hd⟩
    · cases h

theorem accessTo_audit : accessTo ["audit"] = .hasAnyRole ["compliance", "admin"] := rfl

theorem accessTo_admin (p : Path) : accessTo ("admin" :: p) = .hasAnyRole ["admin"] := by
  simp [accessTo, authorizeHttpRequests, Pattern.covers]

theorem isPrefixOf_singleton (a : String) (q : Path) :
    [a].isPrefixOf q = true ↔ q.head? = some a := by
  cases q with
  | nil => exact iff_of_false nofun nofun
  | cons b q =>
    rw [List.head?_cons, Option.some.injEq, List.isPrefixOf, List.isPrefixOf, Bool.and_true,
      beq_iff_eq]
    exact eq_comm

/-- The three rules and the last one, by the path alone. -/
theorem accessTo_eq (path : Path) :
    accessTo path =
      if path = ["health"] ∨ path = [""] ∨ path.head? = some "actuator" ∨ path = ["auth", "login"]
        then .permitAll
      else if path = ["audit"] then .hasAnyRole ["compliance", "admin"]
      else if path.head? = some "admin" then .hasAnyRole ["admin"]
      else .authenticated := by
  unfold accessTo authorizeHttpRequests
  simp only [List.find?_cons, List.any_cons, List.any_nil, Pattern.covers, Bool.or_false,
    ← isPrefixOf_singleton, List.find?_nil]
  by_cases hpublic : path = ["health"] ∨ path = [""] ∨ (["actuator"] : Path).isPrefixOf path = true ∨
      path = ["auth", "login"]
  · rw [if_pos hpublic]
    have htrue : (decide (path = ["health"]) || (decide (path = [""]) ||
        ((["actuator"] : Path).isPrefixOf path || decide (path = ["auth", "login"])))) = true := by
      simpa only [Bool.or_eq_true, decide_eq_true_eq] using hpublic
    rw [htrue]
    rfl
  · rw [if_neg hpublic]
    have hfalse : (decide (path = ["health"]) || (decide (path = [""]) ||
        ((["actuator"] : Path).isPrefixOf path || decide (path = ["auth", "login"])))) = false := by
      rw [Bool.eq_false_iff]
      simpa only [Bool.or_eq_true, decide_eq_true_eq, ne_eq] using hpublic
    rw [hfalse]
    by_cases haudit : path = ["audit"]
    · simp [haudit]
    · by_cases hadmin : (["admin"] : Path).isPrefixOf path = true
      · simp [haudit, hadmin]
      · simp [haudit, hadmin]

theorem mem_authorities {claims : Claims} {role : String} :
    "ROLE_" ++ role ∈ authorities claims ↔ claims.role = some role ∧ isBlank role = false := by
  unfold authorities
  cases hr : claims.role with
  | none => simp
  | some r =>
    by_cases hb : isBlank r = true
    · simp only [hb, if_true, List.not_mem_nil, Option.some.injEq, false_iff, not_and]
      rintro rfl
      simp [hb]
    · simp only [hb, Bool.false_eq_true, if_false, List.mem_singleton, Option.some.injEq]
      constructor
      · intro h
        have hrole : role = r := String.toList_inj.mp (by simpa using congrArg String.toList h)
        exact ⟨hrole.symm, by rw [hrole]; simpa using hb⟩
      · rintro ⟨rfl, -⟩
        rfl

theorem check_hasAnyRole {roles : List String} {principal : Option Claims} :
    (Access.hasAnyRole roles).check principal = .ok () ↔
      ∃ claims role, principal = some claims ∧ claims.role = some role ∧ role ∈ roles ∧
        isBlank role = false := by
  unfold Access.check
  cases principal with
  | none => simp
  | some claims =>
    dsimp only
    split
    · rename_i h
      obtain ⟨role, hmem, hauth⟩ := List.any_eq_true.mp h
      obtain ⟨hr, hb⟩ := mem_authorities.mp (of_decide_eq_true hauth)
      exact iff_of_true rfl ⟨claims, role, rfl, hr, hmem, hb⟩
    · rename_i h
      refine iff_of_false nofun ?_
      rintro ⟨c, role, hc, hr, hmem, hb⟩
      cases hc
      exact h (List.any_eq_true.mpr ⟨role, hmem, decide_eq_true (mem_authorities.mpr ⟨hr, hb⟩)⟩)

theorem check_authenticated {principal : Option Claims} :
    Access.authenticated.check principal = .ok () ↔ principal.isSome := by
  simp only [Access.check]
  split <;> simp_all

/-- What a role may call. -/
def MayCall (role : String) (path : Path) : Prop :=
  (path = ["audit"] → role = "compliance" ∨ role = "admin") ∧
    (path.head? = some "admin" → role = "admin")

instance (role : String) (path : Path) : Decidable (MayCall role path) :=
  inferInstanceAs (Decidable ((path = ["audit"] → role = "compliance" ∨ role = "admin") ∧
    (path.head? = some "admin" → role = "admin")))

theorem check_mayCall {claims : Claims} {role : String} (hrole : claims.role = some role)
    (hblank : isBlank role = false) (path : Path) :
    (accessTo path).check (some claims) = .ok () ↔ MayCall role path := by
  have hany : ∀ roles : List String,
      (Access.hasAnyRole roles).check (some claims) = .ok () ↔ role ∈ roles := by
    intro roles
    rw [check_hasAnyRole]
    constructor
    · rintro ⟨c, r, hc, hr, hmem, -⟩
      cases hc
      cases hrole.symm.trans hr
      exact hmem
    · exact fun hmem => ⟨claims, role, rfl, hrole, hmem, hblank⟩
  rw [accessTo_eq]
  split
  · rename_i hpublic
    refine iff_of_true rfl ⟨?_, ?_⟩
    · rintro rfl
      exact absurd hpublic (by decide)
    · intro hadmin
      obtain rfl | rfl | hhead | rfl := hpublic
      · exact absurd hadmin (by decide)
      · exact absurd hadmin (by decide)
      · exact absurd (hhead.symm.trans hadmin) (by decide)
      · exact absurd hadmin (by decide)
  · split
    · rename_i haudit
      rw [hany]
      simp [MayCall, haudit]
    · rename_i haudit
      split
      · rename_i hadmin
        rw [hany]
        simp [MayCall, haudit, hadmin]
      · rename_i hadmin
        refine iff_of_true rfl ⟨fun h => absurd h haudit, fun h => absurd h hadmin⟩

theorem users_not_blank {p : Passwords} {username pw role : String}
    (h : (username, ⟨pw, role⟩) ∈ users p) : isBlank role = false := by
  simp only [users, List.mem_cons, Prod.mk.injEq, Credential.mk.injEq, List.not_mem_nil, or_false]
    at h
  obtain ⟨-, -, rfl⟩ | ⟨-, -, rfl⟩ | ⟨-, -, rfl⟩ | ⟨-, -, rfl⟩ := h <;> rfl

/-- Each user has the role that its name says. -/
theorem authenticate_some {p : Passwords} {username password : Option String} {role : String}
    (h : authenticate p username password = some role) :
    ∃ name pw, username = some name ∧ password = some pw ∧ (name, ⟨pw, role⟩) ∈ users p := by
  unfold authenticate at h
  split at h
  · rename_i name pw
    split at h
    · rename_i user cred hcred
      have hname : user = name := by simpa using List.find?_some hcred
      split at h
      · rename_i hpw
        cases h
        subst hpw hname
        exact ⟨user, _, rfl, rfl, List.mem_of_find?_eq_some hcred⟩
      · cases h
    · cases h
  · cases h

end TradePulse.Ledger.Web
