import TradePulse.Web.App

/-! # Tokens

Nobody but the service signs tokens. So who passes the filter chain as somebody
has a token that this service has handed out, to that user, for the password
in its configuration. -/
namespace TradePulse.Ledger.Web
open TradePulse.Core TradePulse.Core.Runs TradePulse.Core.Transactions

variable {τ : Type}

/-- The token that an exchange has handed out. -/
def Exchange.token (x : Exchange τ) : Option τ :=
  match x.progress with
  | .answered none ⟨_, .login response⟩ => some response.access_token
  | _ => none

def App.handedOut (s : App τ) : List τ := s.exchanges.filterMap Exchange.token

/-- A token that the library accepts has been handed out: there is no other
way to a signature. -/
def Presented (cfg : Config τ) (s : App τ) : Act τ → Prop
  | .request r w =>
    ∀ token ∈ r.bearer, (cfg.jwt.decode w.clock token).isSome → token ∈ s.handedOut
  | _ => True

instance [DecidableEq τ] (cfg : Config τ) (s : App τ) : DecidablePred (Presented cfg s)
  | .request r w => inferInstanceAs (Decidable
      (∀ token ∈ r.bearer, (cfg.jwt.decode w.clock token).isSome → token ∈ s.handedOut))
  | .proceed _ | .transaction _ | .reply _ => .isTrue trivial

/-- `x` came with the token of a login as `username`, and not long after it
expired. -/
def LoggedIn (cfg : Config τ) (s : App τ) (x : Exchange τ) (username role : String) : Prop :=
  ∃ l ∈ s.exchanges, ∃ token, l.token = some token ∧ x.request.bearer = some token ∧
    Grants cfg l.request l.arrived token username role ∧
    x.arrived ≤ l.arrived + seconds cfg.ttlSeconds + CLOCK_SKEW

section Steps

variable {cfg : Config τ} {s s' : App τ}

theorem Came.grants {txns : List LedgerTxn} {x : Exchange τ} {status : Nat}
    {response : LoginResponse τ} (h : Came cfg txns x)
    (hp : x.progress = .answered none ⟨status, .login response⟩) :
    ∃ username, Grants cfg x.request x.arrived response.access_token username response.role := by
  cases h with
  | @denied d chain principal correlationId progress =>
    rw [progress] at hp
    cases d <;> cases hp
  | passed chain correlationId stands =>
    cases stands with
    | answered next progress =>
      rw [progress] at hp
      cases hp
      exact dispatch_login next
    | @read q db next progress =>
      rw [progress] at hp
      cases q <;> cases hp
    | missing next progress | reading next progress | checking next progress
    | serving next fits get call progress | served next fits get call progress answer =>
      rw [progress] at hp
      cases hp

theorem token_eq_some {x : Exchange τ} {token : τ} (h : x.token = some token) :
    ∃ status response, x.progress = .answered none ⟨status, .login response⟩ ∧
      response.access_token = token := by
  unfold Exchange.token at h
  split at h
  · rename_i status response hp
    exact ⟨status, response, hp, Option.some.inj h⟩
  · cases h

/-- An answered exchange stays as it is. -/
theorem mem_of_token {l : Exchange τ} (hl : l ∈ s.exchanges) {token : τ}
    (ht : l.token = some token) {a : Act τ} (hstep : Step cfg s a s') : l ∈ s'.exchanges := by
  have hput : ∀ (n : Nat) (x : Exchange τ) (p : Progress τ), s.exchanges[n]? = some x →
      x.token = none → l ∈ (s.put n x p).exchanges := by
    intro n x p get hx
    obtain ⟨m, hm⟩ := List.mem_iff_getElem?.mp hl
    have hmn : n ≠ m := by
      rintro rfl
      rw [get] at hm
      cases hm
      rw [hx] at ht
      cases ht
    exact List.mem_iff_getElem?.mpr ⟨m, by rw [App.put, List.getElem?_set_ne hmn, hm]⟩
  have hopen : ∀ x : Exchange τ, (∀ k a, x.progress ≠ .answered k a) → x.token = none := by
    intro x hx
    unfold Exchange.token
    split
    · rename_i hp
      exact absurd hp (hx _ _)
    · rfl
  cases hstep with
  | request r w => exact List.mem_append_left _ hl
  | read get progress => exact hput _ _ _ get (hopen _ (by simp [progress]))
  | missing get progress => exact hput _ _ _ get (hopen _ (by simp [progress]))
  | begin get progress known => exact hput _ _ _ get (hopen _ (by simp [progress]))
  | transaction later hledger => exact hl
  | reply get progress txn_get answer => exact hput _ _ _ get (hopen _ (by simp [progress]))

theorem LoggedIn.step {x : Exchange τ} {username role : String}
    (h : LoggedIn cfg s x username role) {a : Act τ} (hstep : Step cfg s a s') :
    LoggedIn cfg s' x username role := by
  obtain ⟨l, hl, token, ht, hrest⟩ := h
  exact ⟨l, mem_of_token hl ht hstep, token, ht, hrest⟩

theorem LoggedIn.same {x y : Exchange τ} {username role : String}
    (h : LoggedIn cfg s x username role) (hxy : x.Same y) : LoggedIn cfg s y username role := by
  obtain ⟨l, hl, token, ht, hbearer, hgrants, hexpiry⟩ := h
  exact ⟨l, hl, token, ht, hxy.request ▸ hbearer, hgrants, hxy.arrived ▸ hexpiry⟩

/-- Where the principal of a request is from. -/
theorem LoggedIn.receive (hjwt : cfg.jwt.Documented) (hw : Wired cfg s) {r : Request τ}
    {w : Ambient} (ha : Presented cfg s (.request r w)) {claims : Claims}
    (hc : (receive cfg r w).principal = some claims) :
    ∃ username role, LoggedIn cfg s (receive cfg r w) username role ∧
      claims.subject = username ∧ claims.role = some role := by
  have harrived : (Web.receive cfg r w).arrived = w.clock := by
    unfold Web.receive
    split <;> rfl
  have hrequest : (Web.receive cfg r w).request = r := by
    unfold Web.receive
    split <;> rfl
  have hchain : filterChain cfg.jwt w.clock r.bearer r.path = .ok (some claims) := by
    unfold Web.receive at hc
    split at hc
    · cases hc
    · rename_i principal hp
      cases hc
      exact hp
  obtain ⟨token, hbearer, hdecode⟩ := principalOf_some (filterChain_ok.mp hchain).1
  have hout : token ∈ s.handedOut := ha token hbearer (by rw [hdecode]; rfl)
  obtain ⟨l, hl, htoken⟩ := List.mem_filterMap.mp hout
  obtain ⟨status, response, hanswered, rfl⟩ := token_eq_some htoken
  obtain ⟨username, hgrants⟩ := (hw.came l hl).grants hanswered
  have hreads := hjwt.reads _ _ _ (by rw [hgrants.minted] at hdecode; exact hdecode)
  refine ⟨username, response.role, ⟨l, hl, _, htoken, ?_, hgrants, ?_⟩, hreads.1, hreads.2.1⟩
  · rw [hrequest, hbearer]
  · rw [harrived]
    exact hreads.2.2

end Steps

/-- **Nobody without a login.** Who has passed the filter chain as somebody has
logged in as that user. -/
theorem logged_in {cfg : Config τ} (hjwt : cfg.jwt.Documented) {ok : App τ → Act τ → Prop}
    (hok : ∀ s a, ok s a → Presented cfg s a) {P : Db → Prop} {s : App τ}
    (h : Reach (step cfg) ok (start P) s) {x : Exchange τ} (hx : x ∈ s.exchanges)
    {claims : Claims} (hc : x.principal = some claims) :
    ∃ username role, LoggedIn cfg s x username role ∧ claims.subject = username ∧
      claims.role = some role := by
  have hall : ∀ y ∈ s.exchanges, ∀ claims, y.principal = some claims →
      ∃ username role, LoggedIn cfg s y username role ∧ claims.subject = username ∧
        claims.role = some role := by
    refine h.invariant_under (I := fun s => ∀ y ∈ s.exchanges, ∀ claims,
      y.principal = some claims → ∃ username role, LoggedIn cfg s y username role ∧
        claims.subject = username ∧ claims.role = some role)
      (fun s hs => wired_of_reach hs) (fun s hs y hy => ?_) ?_
    · rw [hs.2] at hy
      exact absurd hy List.not_mem_nil
    · intro s a s' hw _ ih ha hstep
      have hstep := step_inv hstep
      intro y hy claims hclaims
      obtain ⟨x, hx, hsame⟩ | ⟨r, w, rfl, rfl⟩ := mem_exchanges hstep hy
      · obtain ⟨username, role, hin, hrest⟩ := ih x hx claims (hsame.principal.trans hclaims)
        exact ⟨username, role, (hin.step hstep).same hsame, hrest⟩
      · obtain ⟨username, role, hin, hrest⟩ := LoggedIn.receive hjwt hw (hok s _ ha) hclaims
        exact ⟨username, role, hin.step hstep, hrest⟩
  exact hall x hx claims hc

/-- **What a login opens.** The token that a login has got opens, until it
expires, the paths that its role may call; once it has expired, it opens none,
nor those that need no token. -/
theorem login_opens {cfg : Config τ} (hjwt : cfg.jwt.Documented) {ok : App τ → Act τ → Prop}
    {P : Db → Prop} {s : App τ} (h : Reach (step cfg) ok (start P) s) {x : Exchange τ}
    (hx : x ∈ s.exchanges) {status : Nat} {response : LoginResponse τ}
    (hp : x.progress = .answered none ⟨status, .login response⟩) (now : OffsetDateTime)
    (path : Path) :
    (now ≤ x.arrived + seconds cfg.ttlSeconds →
      ((filterChain cfg.jwt now (some response.access_token) path).isOk ↔
        MayCall response.role path)) ∧
      (x.arrived + seconds cfg.ttlSeconds + CLOCK_SKEW < now →
        filterChain cfg.jwt now (some response.access_token) path = .error .unauthorized) := by
  obtain ⟨username, hgrants⟩ := ((wired_of_reach h).came x hx).grants hp
  obtain ⟨pw, -, huser⟩ := hgrants.password
  have hblank := users_not_blank huser
  have htoken := hgrants.minted
  refine ⟨fun hnow => ?_, fun hnow => ?_⟩
  · obtain ⟨claims, hclaims⟩ := Option.isSome_iff_exists.mp (hjwt.accepts now
      { issuer := "ledger-core", issuedAt := x.arrived
        expiresAt := x.arrived + seconds cfg.ttlSeconds, subject := username
        role := some response.role } hnow)
    have hrole := (hjwt.reads _ _ _ hclaims).2.1
    have hprincipal : principalOf cfg.jwt now (some response.access_token) = .ok (some claims) := by
      rw [htoken, principalOf, mint, hclaims]
    rw [← check_mayCall hrole hblank, filterChain_isOk hprincipal]
  · have hnone : cfg.jwt.decode now response.access_token = none := by
      cases hd : cfg.jwt.decode now response.access_token with
      | none => rfl
      | some claims =>
        rw [htoken, mint] at hd
        exact absurd (hjwt.reads _ _ _ hd).2.2 (not_le.mpr hnow)
    exact filterChain_refused hnone path

theorem login_opens_audit : ∃ (s : App Claims) (x : Exchange Claims) (token : Claims),
    x ∈ s.exchanges ∧ x.token = some token ∧
      (filterChain demo.jwt (seconds 60) (some token) ["audit"]).isOk ∧
      filterChain demo.jwt (seconds 3661) (some token) [""] = .error .unauthorized := by
  let x := receive demo (loginAs "admin" "admin-pw") ⟨uuid 900, 0⟩
  have hreach : Reach (step demo) anyStep (start NothingBooked)
      ⟨⟨oneAccount thousand, []⟩, [x]⟩ :=
    .step (a := .request (loginAs "admin" "admin-pw") ⟨uuid 900, 0⟩)
      (.init (s := ⟨⟨oneAccount thousand, []⟩, []⟩) ⟨⟨⟨rfl, rfl, rfl, rfl⟩, rfl⟩, rfl⟩) trivial rfl
  have hp : x.progress = .answered none
      ⟨200, .login ⟨tokenOf "admin" "admin", "Bearer", "admin"⟩⟩ := rfl
  have hx : x ∈ [x] := List.mem_singleton.mpr rfl
  refine ⟨⟨⟨oneAccount thousand, []⟩, [x]⟩, x, tokenOf "admin" "admin", hx, rfl, ?_, ?_⟩
  · exact ((login_opens plainJwt_documented hreach hx hp (seconds 60) ["audit"]).1 (by decide)).mpr
      (by decide)
  · exact (login_opens plainJwt_documented hreach hx hp (seconds 3661) [""]).2 (by decide)

end TradePulse.Ledger.Web
