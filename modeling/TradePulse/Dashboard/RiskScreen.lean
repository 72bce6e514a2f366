import TradePulse.Explain.Dashboard
import Mathlib.Data.List.Basic
import Mathlib.Data.List.Induction

/-! # `stream/StreamContext.jsx` and `screens/Risk.jsx`

The risk listener of the stream, which serves all accounts, and the snapshots
that the Risk screen takes for the selected one. -/
namespace TradePulse.Dashboard

section Stream

variable {σ : Type}

/-! ## The stream -/

/-- An entry of `riskLog`: `data` and what the clock showed. -/
structure Logged (σ : Type) where
  data : σ
  seen : ℕ
  deriving DecidableEq

structure Stream (σ : Type) where
  risk : Option σ
  riskLog : List (Logged σ)
  deriving DecidableEq

/-- A `risk` frame: `env.data`, unless the frame is malformed. -/
structure Frame (σ : Type) where
  data : Option σ
  now : ℕ

def Frame.logged (f : Frame σ) : Option (Logged σ) := f.data.map fun d => ⟨d, f.now⟩

def initialStream : Stream σ := { risk := none, riskLog := [] }

/-- The listener for `risk`. -/
def Stream.onRisk (s : Stream σ) (f : Frame σ) : Stream σ :=
  match f.logged with
  | none => s
  | some r => { risk := some r.data, riskLog := (r :: s.riskLog).take 50 }

def Stream.after (frames : List (Frame σ)) : Stream σ := frames.foldl Stream.onRisk initialStream

/-! ## The screen -/

section Screen

variable (accountId : σ → Option String) (account : String)

/-- `live`. -/
def live (s : Stream σ) : Option σ := s.risk.filter fun d => accountId d = some account

/-- `s`, with the data of `summary`. -/
def shown (s : Stream σ) (summary : Option σ) : Option σ := (live accountId account s).or summary

/-- The entries for the account. -/
def ofAccount (log : List (Logged σ)) : List (Logged σ) :=
  log.filter fun r => accountId r.data = some account

def accountLog (s : Stream σ) : List (Logged σ) := ofAccount accountId account s.riskLog

def previous (s : Stream σ) : Option (Logged σ) :=
  if (live accountId account s).isSome ∧ 1 < (accountLog accountId account s).length then
    (accountLog accountId account s)[1]?
  else none

end Screen

/-- `ruleNarrative`. -/
def ruleNarrative {K : Type} [Field K] [LinearOrder K] [FloorRing K]
    (host : Explain.Dashboard.Host K) (account : String) (s : Stream (Explain.Snapshot K))
    (summary : Option (Explain.Snapshot K)) : Option Explain.Dashboard.Narrative :=
  (shown (fun d => some d.account_id) account s summary).map fun d =>
    Explain.Dashboard.buildRiskNarrative host d
      ((previous (fun d => some d.account_id) account s).map (·.data))

/-! ## What has arrived -/

/-- The events of some frames, newest first. -/
def arrivals (frames : List (Frame σ)) : List (Logged σ) := (frames.filterMap Frame.logged).reverse

theorem arrivals_snoc (frames : List (Frame σ)) (f : Frame σ) :
    arrivals (frames ++ [f]) = f.logged.toList ++ arrivals frames := by
  rw [arrivals, List.filterMap_append, List.reverse_append, arrivals]
  cases h : f.logged with
  | none =>
    rw [List.filterMap_cons_none h]
    rfl
  | some r =>
    rw [List.filterMap_cons_some h]
    rfl

theorem arrivals_append (earlier frames : List (Frame σ)) :
    arrivals (earlier ++ frames) = arrivals frames ++ arrivals earlier := by
  rw [arrivals, List.filterMap_append, List.reverse_append, arrivals, arrivals]

/-- The stream keeps the newest event, and the newest 50 in its log. -/
theorem after_eq (frames : List (Frame σ)) : Stream.after frames =
    { risk := (arrivals frames).head?.map (·.data), riskLog := (arrivals frames).take 50 } := by
  induction frames using List.reverseRecOn with
  | nil => rfl
  | append_singleton frames f ih =>
    rw [Stream.after, List.foldl_append, ← Stream.after, ih, arrivals_snoc]
    show Stream.onRisk _ f = _
    rw [Stream.onRisk]
    cases f.logged with
    | none => rfl
    | some r =>
      have htake : (r :: (arrivals frames).take 50).take 50 = (r :: arrivals frames).take 50 := by
        rw [List.take_succ_cons, List.take_succ_cons, List.take_take]
        rfl
      simp only [htake]
      rfl

/-! ## The property -/

section Property

variable (accountId : σ → Option String) (account : String) (earlier frames : List (Frame σ))
  (summary : Option σ)

/-- What the account's events since the summary was fetched ask the screen to
show: the newest of them, diffed against the one before it. -/
structure NewestShown : Prop where
  shown : shown accountId account (Stream.after (earlier ++ frames)) summary =
    ((ofAccount accountId account (arrivals frames)).head?.map (·.data)).or summary
  previous : previous accountId account (Stream.after (earlier ++ frames)) =
    if ofAccount accountId account (arrivals frames) = [] then none
    else (ofAccount accountId account (arrivals (earlier ++ frames)))[1]?

/-- The newest event of all is one of the account. -/
def AccountLast : Prop :=
  ∃ r, (arrivals (earlier ++ frames)).head? = some r ∧ accountId r.data = some account

/-- The account has at most one event among these. -/
def AtMostOne (log : List (Logged σ)) : Prop := (ofAccount accountId account log).length ≤ 1

/-- The ways in which the screen gets it right. -/
inductive InSight : Prop
  /-- The newest event is the account's, and the one before it is still in the log. -/
  | live : AccountLast accountId account earlier frames →
      ofAccount accountId account (arrivals frames) ≠ [] →
      (AtMostOne accountId account ((arrivals (earlier ++ frames)).take 50) →
        AtMostOne accountId account (arrivals (earlier ++ frames))) → InSight
  /-- There is nothing but the summary. -/
  | fetched : ¬ AccountLast accountId account earlier frames →
      ofAccount accountId account (arrivals frames) = [] → InSight
  /-- The newest event is older than the summary, which says the same. -/
  | asBefore : AccountLast accountId account earlier frames →
      ofAccount accountId account (arrivals frames) = [] →
      summary = (arrivals (earlier ++ frames)).head?.map (·.data) →
      AtMostOne accountId account ((arrivals (earlier ++ frames)).take 50) → InSight
  /-- Another account's event hides the only one, of which the summary says the same. -/
  | asFetched : ¬ AccountLast accountId account earlier frames →
      ofAccount accountId account (arrivals frames) ≠ [] →
      summary = (ofAccount accountId account (arrivals frames)).head?.map (·.data) →
      AtMostOne accountId account (arrivals (earlier ++ frames)) → InSight

variable {accountId account earlier frames summary}

/-! ## The screen after some frames -/

theorem accountLog_after : accountLog accountId account (Stream.after frames) =
    ofAccount accountId account ((arrivals frames).take 50) := by
  rw [accountLog, after_eq]

theorem live_of_last {r : Logged σ} (hr : (arrivals frames).head? = some r)
    (hacc : accountId r.data = some account) :
    live accountId account (Stream.after frames) = some r.data := by
  rw [live, after_eq, hr, Option.map_some, Option.filter_some, if_pos (decide_eq_true hacc)]

theorem live_of_not_last (h : ¬ AccountLast accountId account earlier frames) :
    live accountId account (Stream.after (earlier ++ frames)) = none := by
  rw [live, after_eq]
  cases hr : (arrivals (earlier ++ frames)).head? with
  | none => rfl
  | some r =>
    have hacc : ¬ accountId r.data = some account := fun hacc => h ⟨r, hr, hacc⟩
    rw [Option.map_some, Option.filter_some, if_neg (mt of_decide_eq_true hacc)]

theorem previous_of_live {s : Stream σ} (h : (live accountId account s).isSome) :
    previous accountId account s = (accountLog accountId account s)[1]? := by
  rw [previous]
  split
  · rfl
  · rename_i hshort
    rw [List.getElem?_eq_none]
    exact not_lt.mp fun hlt => hshort ⟨h, hlt⟩

theorem previous_of_last {r : Logged σ} (hr : (arrivals frames).head? = some r)
    (hacc : accountId r.data = some account) :
    previous accountId account (Stream.after frames) =
      (ofAccount accountId account ((arrivals frames).take 50))[1]? := by
  rw [previous_of_live (live_of_last hr hacc ▸ rfl), accountLog_after]

theorem previous_of_not_live {s : Stream σ} (h : live accountId account s = none) :
    previous accountId account s = none := by
  rw [previous, if_neg]
  rw [h]
  exact fun hlive => Bool.noConfusion hlive.1

variable (accountId account) in
theorem prefix_ofAccount_take (log : List (Logged σ)) (n : ℕ) :
    ofAccount accountId account (log.take n) <+: ofAccount accountId account log :=
  (List.take_prefix n log).filter _

/-- A beginning has the same second entry unless it leaves it out. -/
theorem second_eq_iff {l l' : List (Logged σ)} (h : l <+: l') :
    l[1]? = l'[1]? ↔ (l.length ≤ 1 → l'.length ≤ 1) := by
  constructor
  · intro heq hshort
    rw [List.getElem?_eq_none hshort] at heq
    exact List.getElem?_eq_none_iff.mp heq.symm
  · intro hshort
    by_cases hlen : l.length ≤ 1
    · rw [List.getElem?_eq_none hlen, List.getElem?_eq_none (hshort hlen)]
    · obtain ⟨rest, rfl⟩ := h
      rw [List.getElem?_append_left (by omega)]

/-- The account's newest event is the newest of all. -/
theorem head_of_last {r : Logged σ} (hr : (arrivals (earlier ++ frames)).head? = some r)
    (hacc : accountId r.data = some account)
    (hsince : ofAccount accountId account (arrivals frames) ≠ []) :
    (ofAccount accountId account (arrivals frames)).head? = some r := by
  rw [arrivals_append] at hr
  cases hframes : arrivals frames with
  | nil =>
    rw [hframes] at hsince
    exact absurd rfl hsince
  | cons x xs =>
    rw [hframes] at hr
    cases hr
    rw [ofAccount, List.filter_cons, if_pos (decide_eq_true hacc)]
    rfl

theorem newestShown_of_last (h : AccountLast accountId account earlier frames)
    (hsince : ofAccount accountId account (arrivals frames) ≠ []) :
    NewestShown accountId account earlier frames summary ↔
      (AtMostOne accountId account ((arrivals (earlier ++ frames)).take 50) →
        AtMostOne accountId account (arrivals (earlier ++ frames))) := by
  obtain ⟨r, hr, hacc⟩ := h
  have hlive := live_of_last hr hacc
  have hprev := previous_of_last hr hacc
  have hiff := second_eq_iff (prefix_ofAccount_take accountId account
    (arrivals (earlier ++ frames)) 50)
  refine Iff.trans ⟨fun hnew => ?_, fun heq => ⟨?_, ?_⟩⟩ hiff
  · rw [← hprev, hnew.previous, if_neg hsince]
  · rw [shown, hlive, head_of_last hr hacc hsince]
    rfl
  · rw [hprev, if_neg hsince, heq]

theorem newestShown_of_last_before (h : AccountLast accountId account earlier frames)
    (hsince : ofAccount accountId account (arrivals frames) = []) :
    NewestShown accountId account earlier frames summary ↔
      summary = (arrivals (earlier ++ frames)).head?.map (·.data) ∧
        AtMostOne accountId account ((arrivals (earlier ++ frames)).take 50) := by
  obtain ⟨r, hr, hacc⟩ := h
  have hlive := live_of_last hr hacc
  have hprev := previous_of_last hr hacc
  have hshown : shown accountId account (Stream.after (earlier ++ frames)) summary = some r.data := by
    rw [shown, hlive]
    rfl
  rw [hr]
  constructor
  · rintro ⟨hs, hp⟩
    rw [hshown, hsince] at hs
    rw [hprev, if_pos hsince] at hp
    exact ⟨hs.symm, List.getElem?_eq_none_iff.mp hp⟩
  · rintro ⟨hs, hp⟩
    refine ⟨?_, ?_⟩
    · rw [hshown, hsince, hs]
      rfl
    · rw [hprev, if_pos hsince, List.getElem?_eq_none hp]

theorem newestShown_of_other (h : ¬ AccountLast accountId account earlier frames)
    (hsince : ofAccount accountId account (arrivals frames) ≠ []) :
    NewestShown accountId account earlier frames summary ↔
      summary = (ofAccount accountId account (arrivals frames)).head?.map (·.data) ∧
        AtMostOne accountId account (arrivals (earlier ++ frames)) := by
  have hlive := live_of_not_last h
  have hshown : shown accountId account (Stream.after (earlier ++ frames)) summary = summary := by
    rw [shown, hlive]
    rfl
  obtain ⟨x, hx⟩ := Option.isSome_iff_exists.mp (List.isSome_head?.mpr hsince)
  rw [hx]
  constructor
  · rintro ⟨hs, hp⟩
    rw [hshown, hx] at hs
    rw [previous_of_not_live hlive, if_neg hsince] at hp
    exact ⟨hs, List.getElem?_eq_none_iff.mp hp.symm⟩
  · rintro ⟨hs, hp⟩
    refine ⟨?_, ?_⟩
    · rw [hshown, hx, hs]
      rfl
    · rw [previous_of_not_live hlive, if_neg hsince, List.getElem?_eq_none hp]

theorem newestShown_of_fetched (h : ¬ AccountLast accountId account earlier frames)
    (hsince : ofAccount accountId account (arrivals frames) = []) :
    NewestShown accountId account earlier frames summary := by
  have hlive := live_of_not_last h
  refine ⟨?_, ?_⟩
  · rw [shown, hlive, hsince]
    rfl
  · rw [previous_of_not_live hlive, if_pos hsince]

variable (accountId account earlier frames summary) in
/-- Whatever arrives, and for whichever account. -/
theorem newest_shown_iff : NewestShown accountId account earlier frames summary ↔
    InSight accountId account earlier frames summary := by
  by_cases h : AccountLast accountId account earlier frames
  · by_cases hsince : ofAccount accountId account (arrivals frames) = []
    · rw [newestShown_of_last_before h hsince]
      constructor
      · rintro ⟨hs, hp⟩
        exact .asBefore h hsince hs hp
      · intro hin
        cases hin with
        | live _ hne _ => exact absurd hsince hne
        | fetched hnot _ => exact absurd h hnot
        | asBefore _ _ hs hp => exact ⟨hs, hp⟩
        | asFetched hnot _ _ _ => exact absurd h hnot
    · rw [newestShown_of_last h hsince]
      constructor
      · exact .live h hsince
      · intro hin
        cases hin with
        | live _ _ hlog => exact hlog
        | fetched hnot _ => exact absurd h hnot
        | asBefore _ hnil _ _ => exact absurd hnil hsince
        | asFetched hnot _ _ _ => exact absurd h hnot
  · by_cases hsince : ofAccount accountId account (arrivals frames) = []
    · exact iff_of_true (newestShown_of_fetched h hsince) (.fetched h hsince)
    · rw [newestShown_of_other h hsince]
      constructor
      · rintro ⟨hs, hp⟩
        exact .asFetched h hsince hs hp
      · intro hin
        cases hin with
        | live hlast _ _ => exact absurd hlast h
        | fetched _ hnil => exact absurd hnil hsince
        | asBefore hlast _ _ _ => exact absurd hlast h
        | asFetched _ _ hs hp => exact ⟨hs, hp⟩

/-- An event for another account, and the summary fetched first is back. -/
theorem other_account_hides_newest : ¬ ∀ (frames : List (Frame (String × ℕ))) (summary : String × ℕ),
    NewestShown (fun d => some d.1) "acct_123" [] frames (some summary) := by
  intro h
  have hshown := (h [⟨some ("acct_123", 2), 0⟩, ⟨some ("acct_456", 3), 1⟩] ("acct_123", 1)).shown
  exact absurd hshown (by decide)

end Property

/-- The narrative is then that of the newest event. -/
theorem NewestShown.narrative {K : Type} [Field K] [LinearOrder K] [FloorRing K]
    {host : Explain.Dashboard.Host K} {account : String}
    {earlier frames : List (Frame (Explain.Snapshot K))} {summary : Option (Explain.Snapshot K)}
    (h : NewestShown (fun d => some d.account_id) account earlier frames summary)
    {r : Logged (Explain.Snapshot K)}
    (hr : (ofAccount (fun d => some d.account_id) account (arrivals frames)).head? = some r) :
    ruleNarrative host account (Stream.after (earlier ++ frames)) summary =
      some (Explain.Dashboard.buildRiskNarrative host r.data
        (((ofAccount (fun d => some d.account_id) account
          (arrivals (earlier ++ frames)))[1]?).map (·.data))) := by
  have hne : ofAccount (fun d : Explain.Snapshot K => some d.account_id) account
      (arrivals frames) ≠ [] := by
    intro hnil
    rw [hnil] at hr
    cases hr
  rw [ruleNarrative, h.shown, h.previous, if_neg hne, hr]
  rfl

end Stream

end TradePulse.Dashboard
