import TradePulse.Ledger.Replays
import TradePulse.Ledger.Serial

/-! # Retries can be erased

A retry reads its row and writes nothing, so a serial run and the run without
its retries go through the same states; each call takes its supply of
identifiers and clock readings with it, so the states are equal. What a retry
answers is the row of the original, with the columns' own idea of its texts. -/
namespace TradePulse.Ledger
open TradePulse.Core TradePulse.Core.Prog TradePulse.Core.Runs TradePulse.Core.Transactions

/-! ## Statement -/


/-- The call is a trade whose request already has its row. -/
def isRetry (db : Db) : Call → Bool
  | .postTrade _ req => db.trades.any (·.request_id = req.request_id)
  | .creditAccount .. => false

/-- The calls that are not retries when they are made. -/
def reduced (rules : ComplianceRules) : Db → List ServedCall → List ServedCall
  | _, [] => []
  | db, c :: cs =>
    let rest := reduced rules (serve rules db c).2 cs
    if isRetry db c.call then rest else c :: rest

/-- The request and the answer of the call that wrote the row of `r`: one
committed before, or one of the calls `pre` served since. -/
inductive Wrote (rules : ComplianceRules) (s : LedgerState) (pre : List ServedCall) (r : UUID) :
    TradeRequestDto → PostOutcome → Prop
  | before {t : LedgerTxn} {req : TradeRequestDto} {out : PostOutcome} (mem : t ∈ s.txns)
      (replied : Replied t req out) (id : req.request_id = r) (created : out.created = true) :
      Wrote rules s pre r req out
  | since {done todo : List ServedCall} {c : ServedCall} {mdc : Option String}
      {req : TradeRequestDto} {out : PostOutcome} (split : pre = done ++ c :: todo)
      (call : c.call = .postTrade mdc req)
      (answer : (serve rules (serveAll rules s.db done).2 c).1 = .ok (.trade out))
      (id : req.request_id = r) (created : out.created = true) : Wrote rules s pre r req out

/-- The parts of an answer that a retry repeats. -/
structure SameAnswer (x y : TradeResultDto) : Prop where
  status : x.status = y.status
  rejection_reason : x.rejection_reason = y.rejection_reason
  journal_entry_id : x.journal_entry_id = y.journal_entry_id
  symbol : x.symbol = y.symbol
  side : x.side = y.side

/-- In the sequence `cs` the call `c`, after the calls `pre`, retries `req`. -/
structure RetriedIn (rules : ComplianceRules) (s : LedgerState) (cs pre : List ServedCall)
    (c : ServedCall) (req : TradeRequestDto) : Prop where
  split : ∃ post, cs = pre ++ c :: post
  call : ∃ mdc, c.call = .postTrade mdc req
  retry : isRetry (serveAll rules s.db pre).2 c.call = true

/-- The sequence does what it does without its retries, and these repeat the
answer of the call that wrote their row. -/
structure Erased (rules : ComplianceRules) (s : LedgerState) (cs : List ServedCall) : Prop where
  state : (serveAll rules s.db (reduced rules s.db cs)).2 = (serveAll rules s.db cs).2
  answers : ∀ pre c req, RetriedIn rules s cs pre c req → ∃ x,
    (serve rules (serveAll rules s.db pre).2 c).1 = .ok (.trade ⟨x, false⟩) ∧
    (∃ req' out, Wrote rules s pre req.request_id req' out) ∧
    ∀ req' out, Wrote rules s pre req.request_id req' out → SameAnswer x out.result

/-- The texts of the request fit their columns as they are. -/
def TradeRequestDto.TextsFit (req : TradeRequestDto) : Prop :=
  req.symbol.length ≤ 32 ∧ req.side.length ≤ 4

/-- The service generates its identifiers apart from those of the requests. -/
def SuppliedBy (generated : UUID → Prop) (c : ServedCall) : Prop :=
  (∀ k, generated (c.supply k).uuid) ∧
    ∀ mdc req, c.call = .postTrade mdc req → ¬ generated req.request_id

/-! ## Retries change nothing -/

section

variable {rules : ComplianceRules} {db : Db}

theorem isRetry_iff {mdc : Option String} {req : TradeRequestDto} :
    isRetry db (.postTrade mdc req) = true ↔
      ∃ x, db.findTradeByRequestId req.request_id = some x := by
  rw [← Option.isSome_iff_exists, findTradeByRequestId_eq, Option.isSome_map]
  simp [isRetry, List.find?_isSome]

/-- A retry is answered by the lookup. -/
theorem serve_retry {mdc : Option String} {req : TradeRequestDto} {w : Nat → Ambient}
    {x : TradeResultDto} (h : db.findTradeByRequestId req.request_id = some x) :
    serve rules db ⟨.postTrade mdc req, w⟩ = (.ok (.trade ⟨x, false⟩), db) := by
  have hsolo : engine.solo (postTrade rules mdc req) w db = .ok (⟨x, false⟩, db) := by
    rw [postTrade_eq, findTradeByRequestId, solo_perform]
    simp only [engine, exec, h]
    rfl
  simp only [serve, Engine.serve, service, solo_map, hsolo, Except.map]

theorem serve_isRetry {c : ServedCall} (h : isRetry db c.call = true) :
    (serve rules db c).2 = db := by
  obtain ⟨call, w⟩ := c
  cases call with
  | postTrade mdc req =>
    obtain ⟨x, hx⟩ := isRetry_iff.mp h
    rw [serve_retry hx]
  | creditAccount => cases h

theorem serveAll_reduced (cs : List ServedCall) :
    (serveAll rules db (reduced rules db cs)).2 = (serveAll rules db cs).2 := by
  induction cs generalizing db with
  | nil => rfl
  | cons c cs ih =>
    simp only [reduced]
    split
    · rename_i hretry
      rw [serve_isRetry hretry, ih]
      simp only [serveAll, Engine.serveAll]
      rw [show (engine.serve (service rules) db c).2 = db from serve_isRetry hretry]
    · simp only [serveAll, Engine.serveAll] at ih ⊢
      exact ih

end

/-! ## What a retry answers -/

section

variable {rules : ComplianceRules} {generated : UUID → Prop} {s : LedgerState}

/-- Serving calls one after the other is a run of the system whose committed
transactions are those that wrote the rows. -/
theorem reach_served {cs : List ServedCall} (hidle : Idle s)
    (hs : Reach (ledgerStep rules) (generatedApart generated) (initial NothingBooked) s)
    (hcs : ∀ c ∈ cs, SuppliedBy generated c) : ∃ s' : LedgerState,
      Reach (ledgerStep rules) (generatedApart generated) (initial NothingBooked) s' ∧
      s'.db = (serveAll rules s.db cs).2 ∧ ∀ r req out, Wrote rules s cs r req out ↔
        ∃ t ∈ s'.txns, Replied t req out ∧ req.request_id = r ∧ out.created = true := by
  have hbegin : ∀ c ∈ cs, ∀ s : LedgerState, Idle s →
      generatedApart generated s (.begin c.call) := by
    intro c hc s _
    obtain ⟨call, w⟩ := c
    cases call with
    | postTrade mdc req => exact (hcs _ hc).2 mdc req rfl
    | creditAccount => trivial
  obtain ⟨s', ts, hs', -, hdb, htx, hback, hforth⟩ := reach_serveAll hs hidle hbegin
    (fun c hc _ _ k => (hcs c hc).1 k) (fun _ _ => trivial) (fun _ _ => trivial)
  refine ⟨s', hs', hdb, fun r req out => ⟨?_, ?_⟩⟩
  · rintro (⟨mem, replied, id, created⟩ | ⟨split, call, answer, id, created⟩)
    · exact ⟨_, htx ▸ List.mem_append_left _ mem, replied, id, created⟩
    · obtain ⟨t, ht, hrec⟩ := hforth _ _ _ split
      rw [show (engine.serve (service rules) _ _).1 = _ from answer, call] at hrec
      cases hrec
      exact ⟨_, htx ▸ List.mem_append_right _ ht, ⟨⟨_, rfl⟩, rfl, rfl⟩, id, created⟩
  · rintro ⟨t, ht, replied, id, created⟩
    rw [htx, List.mem_append] at ht
    rcases ht with ht | ht
    · exact .before ht replied id created
    · obtain ⟨done, c, todo, split, hrec⟩ := hback t ht
      obtain ⟨⟨mdc, hcall⟩, hcommitted, hrest⟩ := replied
      generalize hx : (engine.serve (service rules) _ c).1 = x at hrec
      cases hrec with
      | committed =>
        cases hrest
        exact .since split hcall hx id created
      | aborted => cases hcommitted

theorem Varchar.store_eq_iff {n : Nat} {y : String} {z : String}
    (h : (Varchar.store n y).map (·.val) = some z) : z = y ↔ y.length ≤ n := by
  obtain ⟨v, hv, rfl⟩ := Option.map_eq_some_iff.mp h
  constructor
  · intro heq
    rw [← heq]
    exact v.fits
  · intro hlen
    exact Varchar.store_of_length hlen hv

/-- A row repeats the answer of the call that wrote it when it could hold its
texts. -/
theorem AgreesWith.sameAnswer_iff {req : TradeRequestDto} {out : PostOutcome}
    {x : TradeResultDto} (h : AgreesWith req out x) (hcreated : out.created = true) :
    SameAnswer x out.result ↔ req.TextsFit := by
  obtain ⟨hsymbol, hside, hsymbol', hside'⟩ := h.written hcreated
  constructor
  · intro hsame
    have hy := hsame.symbol
    have hd := hsame.side
    rw [hsymbol] at hy
    rw [hside] at hd
    exact ⟨(Varchar.store_eq_iff hsymbol').mp hy, (Varchar.store_eq_iff hside').mp hd⟩
  · rintro ⟨hy, hd⟩
    exact ⟨h.status.symm, h.rejection_reason.symm, h.journal_entry_id.symm,
      hsymbol ▸ (Varchar.store_eq_iff hsymbol').mpr hy,
      hside ▸ (Varchar.store_eq_iff hside').mpr hd⟩

/-- **When retries can be erased.** From any reachable ledger at rest, a serial
run ends as the run without its retries does, and the retries repeat the
original answers if and only if the originals' texts fit their columns. -/
theorem erased_iff (hidle : Idle s)
    (hs : Reach (ledgerStep rules) (generatedApart generated) (initial NothingBooked) s)
    {cs : List ServedCall} (hcs : ∀ c ∈ cs, SuppliedBy generated c) :
    Erased rules s cs ↔ ∀ pre c req, RetriedIn rules s cs pre c req →
      ∀ req' out, Wrote rules s pre req.request_id req' out → req'.TextsFit := by
  have facts : ∀ pre c req, RetriedIn rules s cs pre c req → ∃ x,
      (serve rules (serveAll rules s.db pre).2 c).1 = .ok (.trade ⟨x, false⟩) ∧
      (∃ req' out, Wrote rules s pre req.request_id req' out) ∧
      ∀ req' out, Wrote rules s pre req.request_id req' out →
        (SameAnswer x out.result ↔ req'.TextsFit) := by
    rintro pre ⟨call, w⟩ req ⟨⟨post, rfl⟩, ⟨mdc, rfl⟩, hretry⟩
    obtain ⟨s', hs', hdb, hwrote⟩ := reach_served hidle hs fun c hc =>
      hcs c (List.mem_append_left _ hc)
    have hanswers := answers_hold (fun _ h => h) hs'
    obtain ⟨x, hx⟩ := isRetry_iff.mp hretry
    rw [← hdb] at hx
    refine ⟨x, by rw [← hdb, serve_retry hx], ?_, fun req' out hw => ?_⟩
    · obtain ⟨t, ht, hid⟩ : ∃ t ∈ s'.db.trades, t.request_id = req.request_id := by
        rw [← hdb] at hretry
        simpa [isRetry] using hretry
      obtain ⟨u, hu, req', out, hreplied, hid', hcreated⟩ := hanswers.written t ht
      exact ⟨req', out, (hwrote _ _ _).mpr ⟨u, hu, hreplied, hid'.trans hid, hcreated⟩⟩
    · obtain ⟨t, ht, hreplied, hid, hcreated⟩ := (hwrote _ _ _).mp hw
      obtain ⟨y, hy, hagrees⟩ := hanswers.answered t ht req' out hreplied
      rw [hid, hx] at hy
      cases hy
      exact hagrees.sameAnswer_iff hcreated
  constructor
  · intro herased pre c req hretried req' out hw
    obtain ⟨x, hserve, -, hsame⟩ := facts pre c req hretried
    obtain ⟨y, hserve', -, hsame'⟩ := herased.answers pre c req hretried
    rw [hserve] at hserve'
    cases hserve'
    exact (hsame req' out hw).mp (hsame' req' out hw)
  · intro hfit
    refine ⟨serveAll_reduced cs, fun pre c req hretried => ?_⟩
    obtain ⟨x, hserve, hex, hsame⟩ := facts pre c req hretried
    exact ⟨x, hserve, hex, fun req' out hw =>
      (hsame req' out hw).mpr (hfit pre c req hretried req' out hw)⟩

end

theorem supplyFrom_fromHundred {base : Nat} (h : 100 ≤ base) (h' : base ≤ 1000) (k : Nat) :
    fromHundred (supplyFrom base k).uuid := by
  have hlt : base + k % 32 < 2 ^ 128 := by omega
  simp only [fromHundred, supplyFrom, uuid, BitVec.toNat_ofNat, Nat.mod_eq_of_lt hlt]
  omega

/-- A trade, a credit, and a retry of the trade with another payload. -/
def retriedTrade : List ServedCall :=
  [⟨buy 1 60 1, supplyFrom 100⟩, ⟨.creditAccount "A" 5 none, supplyFrom 200⟩,
    ⟨buy 1 10 2, supplyFrom 300⟩]

theorem erased_iff_retriedTrade :
    (reduced ⟨100⟩ (oneAccount thousand) retriedTrade).length = 2 ∧
      Erased ⟨100⟩ ⟨oneAccount thousand, []⟩ retriedTrade := by
  have hreach : Reach (ledgerStep ⟨100⟩) (generatedApart fromHundred) (initial NothingBooked)
      ⟨oneAccount thousand, []⟩ := .init ⟨⟨rfl, rfl, rfl, rfl⟩, rfl⟩
  refine ⟨by decide +kernel, (erased_iff (by simp [Idle]) hreach ?_).mpr ?_⟩
  · simp only [retriedTrade, List.forall_mem_cons]
    refine ⟨⟨supplyFrom_fromHundred (by decide) (by decide), ?_⟩,
      ⟨supplyFrom_fromHundred (by decide) (by decide), nofun⟩,
      ⟨supplyFrom_fromHundred (by decide) (by decide), ?_⟩, by simp⟩
    · rintro mdc req ⟨⟩
      decide +kernel
    · rintro mdc req ⟨⟩
      decide +kernel
  · rintro pre c req ⟨⟨post, hsplit⟩, -, -⟩ req' out hw
    cases hw with
    | before mem => cases mem
    | @since done todo c' mdc req' out split call answer id created =>
      have hmem : c' ∈ retriedTrade := by rw [hsplit, split]; simp
      simp only [retriedTrade, List.mem_cons, List.not_mem_nil, or_false] at hmem
      rcases hmem with rfl | rfl | rfl
      · cases call
        exact ⟨by decide, by decide⟩
      · cases call
      · cases call
        exact ⟨by decide, by decide⟩

/-- `"X"` followed by blanks, one character more than the column holds. -/
def paddedSymbol : String := "X                                "

def paddedBuy : TradeRequestDto := ⟨uuid 1, "A", paddedSymbol, "BUY", 60, 1, none⟩

/-- The outcome of a call that served a trade. -/
def outcome? : Except LedgerError Reply → Option PostOutcome
  | .ok (.trade out) => some out
  | _ => none

theorem outcome?_eq {x : Except LedgerError Reply} {out : PostOutcome} (h : outcome? x = some out) :
    x = .ok (.trade out) := by
  unfold outcome? at h
  split at h
  · rw [Option.some.inj h]
  · cases h

/-- A symbol with a blank too many is answered in full and retried without it. -/
theorem retry_can_shorten_symbol : paddedBuy.Valid ∧
    Reach (ledgerStep ⟨100⟩) (generatedApart fromHundred) (initial NothingBooked)
      ⟨oneAccount thousand, []⟩ ∧
    ¬ Erased ⟨100⟩ ⟨oneAccount thousand, []⟩
      [⟨.postTrade none paddedBuy, supplyFrom 100⟩,
        ⟨.postTrade none paddedBuy, supplyFrom 200⟩] := by
  refine ⟨by decide +kernel, .init ⟨⟨rfl, rfl, rfl, rfl⟩, rfl⟩, fun herased => ?_⟩
  have first : (outcome? (serve ⟨100⟩ (oneAccount thousand)
      ⟨.postTrade none paddedBuy, supplyFrom 100⟩).1).any
      (fun out => out.created && out.result.symbol.length = 33) = true := by decide +kernel
  have second : (outcome? (serve ⟨100⟩ (serveAll ⟨100⟩ (oneAccount thousand)
      [⟨.postTrade none paddedBuy, supplyFrom 100⟩]).2
      ⟨.postTrade none paddedBuy, supplyFrom 200⟩).1).any
      (fun out => out.result.symbol.length = 32) = true := by decide +kernel
  obtain ⟨out, hout, hwrote⟩ := (Option.any_eq_true _ _).mp first
  obtain ⟨again, hagain, hlen⟩ := (Option.any_eq_true _ _).mp second
  simp only [Bool.and_eq_true, decide_eq_true_eq] at hwrote hlen
  obtain ⟨x, hserve, -, hsame⟩ := herased.answers [⟨.postTrade none paddedBuy, supplyFrom 100⟩]
    ⟨.postTrade none paddedBuy, supplyFrom 200⟩ paddedBuy
    ⟨⟨[], rfl⟩, ⟨none, rfl⟩, by decide +kernel⟩
  have hx := (outcome?_eq hagain).symm.trans hserve
  cases hx
  have hsymbol := (hsame paddedBuy out
    (.since (List.nil_append _).symm rfl (outcome?_eq hout) rfl hwrote.1)).symbol
  rw [hsymbol, hwrote.2] at hlen
  cases hlen

end TradePulse.Ledger
