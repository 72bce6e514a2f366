import TradePulse.Core.Transactions

/-! # Transactions one at a time

With nothing beside it a transaction is a function of the database it runs on
and of what the environment supplies to its statements. The function is a run
of the concurrent system, so invariants of all runs hold along it. Two rules
reason about it: what the statements of a program keep, and when two databases
give it the same answers. -/
namespace TradePulse.Core.Prog

variable {ι : Type} {ρ : ι → Type} {ε α β : Type}

/-- Every call `i` the program comes to make after the calls `is` meets `P is i`,
and every exception it raises meets `X`, as long as the answers to the calls
before meet `A`. -/
def Under (A : (i : ι) → ρ i → Prop) (P : List ι → ι → Prop) (X : ε → Prop) :
    List ι → Prog ι ρ ε α → Prop
  | _, .ret _ => True
  | _, .raise e => X e
  | is, .call i k => P is i ∧ ∀ r, A i r → (k (.ok r)).Under A P X (is ++ [i])

section Under

variable {A : (i : ι) → ρ i → Prop} {P : List ι → ι → Prop} {X : ε → Prop} {is : List ι}

theorem under_perform {i : ι} {f : ρ i → Prog ι ρ ε β} (h : P is i)
    (hf : ∀ r, A i r → (f r).Under A P X (is ++ [i])) : (perform i >>= f).Under A P X is := by
  rw [perform_bind]
  exact ⟨h, hf⟩

theorem Under.map {p : Prog ι ρ ε α} {f : α → β} (hp : p.Under A P X is) :
    (f <$> p).Under A P X is := by
  induction p generalizing is with
  | ret a => trivial
  | raise e => exact hp
  | call i k ih => exact ⟨hp.1, fun r hr => ih _ (hp.2 r hr)⟩

/-- The same of what is left of a program, and of the calls it has made. -/
theorem Under.follows {ν : Type} {p q : Prog ι ρ ε α} {es : List (Event ι ρ ν)}
    (hp : p.Under A P X is) (h : Follows p es q) (ha : ∀ e ∈ es, A e.stmt e.res) :
    q.Under A P X (is ++ es.map (·.stmt)) := by
  induction es generalizing p is with
  | nil =>
    cases h
    simpa using hp
  | cons e es ih =>
    obtain ⟨k, rfl, hk⟩ := h
    have hnext := hp.2 e.res (ha e (List.mem_cons_self ..))
    simpa using ih hnext hk fun f hf => ha f (List.mem_cons_of_mem _ hf)

end Under
end TradePulse.Core.Prog

namespace TradePulse.Core.Transactions
open TradePulse.Core.Prog TradePulse.Core.Runs

variable {ι : Type} {ρ : ι → Type} {ε ω κ δ β α γ : Type}

/-- Run a program on a database with nothing beside it; `w n` is supplied to
its statement `n`. An error ends the run and none of its writes stays. -/
def Engine.solo (E : Engine ι ρ ε ω δ β) : Prog ι ρ ε α → (Nat → ω) → δ → Except ε (α × δ)
  | .ret a, _, d => .ok (a, d)
  | .raise e, _, _ => .error e
  | .call i k, w, d =>
    match E.exec i (w 0) d with
    | .error e => .error e
    | .ok (r, b) => E.solo (k (.ok r)) (fun n => w (n + 1)) (E.applyAll d b.toList)

/-- A call, and what the environment supplies to its statements. -/
structure Served (κ ω : Type) where
  call : κ
  supply : Nat → ω

/-- The answer to one call, and the database after it. -/
def Engine.serve (E : Engine ι ρ ε ω δ β) (code : κ → Prog ι ρ ε α) (d : δ) (c : Served κ ω) :
    Except ε α × δ :=
  match E.solo (code c.call) c.supply d with
  | .ok (a, d') => (.ok a, d')
  | .error e => (.error e, d)

/-- Calls served one after the other. -/
def Engine.serveAll (E : Engine ι ρ ε ω δ β) (code : κ → Prog ι ρ ε α) :
    δ → List (Served κ ω) → List (Except ε α) × δ
  | d, [] => ([], d)
  | d, c :: cs =>
    let r := E.serve code d c
    let rest := E.serveAll code r.2 cs
    (r.1 :: rest.1, rest.2)

variable {E : Engine ι ρ ε ω δ β} {code : κ → Prog ι ρ ε α} {P : δ → Prop}
  {ok : State ι ρ ε κ δ β α → Act κ ω → Prop}

theorem solo_perform (i : ι) (f : ρ i → Prog ι ρ ε α) (w : Nat → ω) (d : δ) :
    E.solo (perform i >>= f) w d =
      match E.exec i (w 0) d with
      | .error e => .error e
      | .ok (r, b) => E.solo (f r) (fun n => w (n + 1)) (E.applyAll d b.toList) := by
  rw [perform_bind, Engine.solo]

/-- The program runs to its end. -/
def Engine.Succeeds (E : Engine ι ρ ε ω δ β) (p : Prog ι ρ ε α) (w : Nat → ω) (d : δ) : Prop :=
  ∃ a d', E.solo p w d = .ok (a, d')

theorem succeeds_ret (a : α) (w : Nat → ω) (d : δ) : E.Succeeds (.ret a) w d := ⟨a, d, rfl⟩

theorem succeeds_perform {i : ι} {f : ρ i → Prog ι ρ ε α} {w : Nat → ω} {d : δ} {r : ρ i}
    {b : Option β} (he : E.exec i (w 0) d = .ok (r, b))
    (h : E.Succeeds (f r) (fun n => w (n + 1)) (E.applyAll d b.toList)) :
    E.Succeeds (perform i >>= f) w d := by
  obtain ⟨a, d', h⟩ := h
  exact ⟨a, d', by rw [solo_perform, he]; exact h⟩

theorem solo_map (f : α → γ) (p : Prog ι ρ ε α) (w : Nat → ω) (d : δ) :
    E.solo (f <$> p) w d = (E.solo p w d).map fun r => (f r.1, r.2) := by
  induction p generalizing w d with
  | ret a => rfl
  | raise e => rfl
  | call i k ih =>
    change E.solo (.call i fun r => f <$> k r) w d = _
    rw [Engine.solo, Engine.solo]
    cases E.exec i (w 0) d with
    | error e => rfl
    | ok rb => exact ih _ _ _

theorem Engine.Succeeds.map {p : Prog ι ρ ε α} {w : Nat → ω} {d : δ} (h : E.Succeeds p w d)
    (f : α → γ) : E.Succeeds (f <$> p) w d := by
  obtain ⟨a, d', h⟩ := h
  exact ⟨f a, d', by rw [solo_map, h]; rfl⟩

theorem serve_ok {d d' : δ} {c : Served κ ω} {a : α}
    (h : E.serve code d c = (.ok a, d')) : E.solo (code c.call) c.supply d = .ok (a, d') := by
  unfold Engine.serve at h
  split at h
  · cases h
    assumption
  · cases h

theorem serve_error {d d' : δ} {c : Served κ ω} {e : ε} (h : E.serve code d c = (.error e, d')) :
    E.solo (code c.call) c.supply d = .error e ∧ d' = d := by
  unfold Engine.serve at h
  split at h
  · cases h
  · cases h
    exact ⟨by assumption, rfl⟩

/-- A run on its own leaves a complete trace, replayed on its database. -/
theorem solo_trace {p : Prog ι ρ ε α} {w : Nat → ω} {d d' : δ} {a : α}
    (h : E.solo p w d = .ok (a, d')) : ∃ es : List (Event ι ρ (Option β)),
      Follows p es (.ret a) ∧ Replay E d es ∧ d' = E.applyAll d (writesOf es) := by
  induction p generalizing w d with
  | ret b =>
    cases h
    exact ⟨[], rfl, trivial, rfl⟩
  | raise e => cases h
  | call i k ih =>
    rw [Engine.solo] at h
    split at h
    · cases h
    · rename_i r b hexec
      obtain ⟨es, hf, hr, rfl⟩ := ih _ h
      exact ⟨⟨i, r, b⟩ :: es, ⟨k, rfl, hf⟩, ⟨⟨_, hexec⟩, hr⟩, by rw [applyAll_cons]⟩

theorem Replay.answered {d : δ} {es : List (Event ι ρ (Option β))} (h : Replay E d es) :
    ∀ e ∈ es, ∃ w d, E.exec e.stmt w d = .ok (e.res, e.note) := by
  induction es generalizing d with
  | nil => simp
  | cons e es ih =>
    intro f hf
    obtain ⟨⟨w, hw⟩, hr⟩ := h
    rcases List.mem_cons.mp hf with rfl | hf
    · exact ⟨w, d, hw⟩
    · exact ih hr f hf

/-- What every statement of a program keeps, the program keeps. -/
theorem solo_keeps {A : (i : ι) → ρ i → Prop} {Q : List ι → ι → Prop} {X : ε → Prop}
    {G : ω → Prop} {I : δ → Prop}
    (hexec : ∀ is i w d r b, Q is i → G w → I d → E.exec i w d = .ok (r, b) →
      A i r ∧ I (E.applyAll d b.toList))
    {p : Prog ι ρ ε α} {is : List ι} {w : Nat → ω} {d d' : δ} {a : α} (hp : p.Under A Q X is)
    (hw : ∀ n, G (w n)) (hd : I d) (h : E.solo p w d = .ok (a, d')) : I d' := by
  induction p generalizing is w d with
  | ret b =>
    cases h
    exact hd
  | raise e => cases h
  | call i k ih =>
    rw [Engine.solo] at h
    split at h
    · cases h
    · rename_i r b he
      obtain ⟨ha, hI⟩ := hexec is i _ d r b hp.1 (hw 0) hd he
      exact ih _ (hp.2 r ha) (fun n => hw (n + 1)) hI h

/-- Two databases on which every statement of a program answers alike give the
program the same answer, and stay alike. -/
theorem solo_alike {A : (i : ι) → ρ i → Prop} {Q : List ι → ι → Prop} {X : ε → Prop}
    {G : ω → Prop} {R : δ → δ → Prop}
    (hexec : ∀ is i w d d', Q is i → G w → R d d' → E.exec i w d = E.exec i w d' ∧
      ∀ r b, E.exec i w d = .ok (r, b) →
        A i r ∧ R (E.applyAll d b.toList) (E.applyAll d' b.toList))
    {p : Prog ι ρ ε α} {is : List ι} {w : Nat → ω} {d d' : δ} (hp : p.Under A Q X is)
    (hw : ∀ n, G (w n)) (hd : R d d') :
    (∃ a t t', E.solo p w d = .ok (a, t) ∧ E.solo p w d' = .ok (a, t') ∧ R t t') ∨
      ∃ e, E.solo p w d = .error e ∧ E.solo p w d' = .error e := by
  induction p generalizing is w d d' with
  | ret b => exact .inl ⟨b, d, d', rfl, rfl, hd⟩
  | raise e => exact .inr ⟨e, rfl, rfl⟩
  | call i k ih =>
    obtain ⟨heq, hnext⟩ := hexec is i (w 0) d d' hp.1 (hw 0) hd
    simp only [Engine.solo, ← heq]
    cases he : E.exec i (w 0) d with
    | error e => exact .inr ⟨e, rfl, rfl⟩
    | ok rb =>
      obtain ⟨ha, hR⟩ := hnext _ _ he
      exact ih _ (hp.2 _ ha) (fun n => hw (n + 1)) hR

/-! ## Serial runs are runs of the system -/

/-- The transaction is that of the call, and ended as the call did. -/
inductive Records (c : κ) : Except ε α → Txn ι ρ ε κ β α → Prop
  | committed {a : α} {es : List (Event ι ρ (Option β))} :
      Records c (.ok a) ⟨c, es, .ret a, .committed⟩
  | aborted {e : ε} {es : List (Event ι ρ (Option β))} {p : Prog ι ρ ε α} :
      Records c (.error e) ⟨c, es, p, .aborted⟩

/-- No transaction is under way. -/
def Idle (s : State ι ρ ε κ δ β α) : Prop := ∀ t ∈ s.txns, t.status ≠ .active

theorem not_blocked_last {ts : List (Txn ι ρ ε κ β α)} (hts : ∀ t ∈ ts, t.status ≠ .active)
    (t : Txn ι ρ ε κ β α) (b : Option β) : E.blocked (ts ++ [t]) ts.length b = false := by
  cases b with
  | none => rfl
  | some b =>
    simp only [Engine.blocked, Option.any_some, List.any_eq_false, Bool.and_eq_true,
      decide_eq_true_eq, not_and, Bool.not_eq_true]
    intro u hu hact
    obtain ⟨m, hne, hm⟩ := List.mem_eraseIdx_iff_getElem?.mp hu
    rw [List.getElem?_append] at hm
    split at hm
    · exact absurd hact (hts u (List.mem_of_getElem? hm))
    · have hlt := (List.getElem?_eq_some_iff.mp hm).1
      simp only [List.length_singleton] at hlt
      omega

section Reachable

variable {w : Nat → ω} (hstmt : ∀ s n k, ok s (.stmt n (w k))) (hcommit : ∀ s n, ok s (.commit n))
  (habort : ∀ s n, ok s (.abort n))
include hstmt hcommit habort

theorem reach_solo {c : κ} {p : Prog ι ρ ε α} {k : Nat} {d : δ}
    {es : List (Event ι ρ (Option β))} {ts : List (Txn ι ρ ε κ β α)}
    (hts : ∀ t ∈ ts, t.status ≠ .active)
    (h : Reach (step E code) ok (initial P) ⟨d, ts ++ [⟨c, es, p, .active⟩]⟩) :
    (∀ a d', E.solo p (fun n => w (k + n)) (E.applyAll d (writesOf es)) = .ok (a, d') → ∃ es',
      Reach (step E code) ok (initial P) ⟨d', ts ++ [⟨c, es', .ret a, .committed⟩]⟩) ∧
    ∀ e, E.solo p (fun n => w (k + n)) (E.applyAll d (writesOf es)) = .error e → ∃ es' q,
      Reach (step E code) ok (initial P) ⟨d, ts ++ [⟨c, es', q, .aborted⟩]⟩ := by
  induction p generalizing k es with
  | ret b =>
    refine ⟨fun a d' ha => ?_, fun e he => by cases he⟩
    cases ha
    exact ⟨es, h.step (hcommit _ ts.length) (by simp [step, State.put])⟩
  | raise e' =>
    refine ⟨fun a d' ha => (by cases ha), fun e he => ?_⟩
    exact ⟨es, .raise e', h.step (habort _ ts.length) (by simp [step, State.put])⟩
  | call i f ih =>
    cases hx : E.exec i (w k) (E.applyAll d (writesOf es)) with
    | error e' =>
      refine ⟨fun a d' ha => by simp [Engine.solo, hx] at ha, fun e he => ?_⟩
      exact ⟨es, .call i f, h.step (hstmt _ ts.length k) (by simp [step, State.put, hx])⟩
    | ok rb =>
      obtain ⟨r, b⟩ := rb
      have hnext : Reach (step E code) ok (initial P)
          ⟨d, ts ++ [⟨c, es ++ [⟨i, r, b⟩], f (.ok r), .active⟩]⟩ := by
        refine h.step (hstmt _ ts.length k) ?_
        simp [step, State.put, hx, not_blocked_last hts]
      have hview : E.applyAll (E.applyAll d (writesOf es)) b.toList =
          E.applyAll d (writesOf (es ++ [⟨i, r, b⟩])) := by
        rw [writesOf_snoc, Engine.applyAll_append]
      have hrest := ih (.ok r) (k := k + 1) hnext
      simp only [Engine.solo, Nat.add_zero, hx, hview]
      simpa only [Nat.add_right_comm, Nat.add_assoc, Nat.add_comm 1] using hrest

/-- A call served alone is a run of the concurrent system, with the answer it
returned on record. -/
theorem reach_serve {s : State ι ρ ε κ δ β α} {c : κ} (hs : Reach (step E code) ok (initial P) s)
    (hidle : Idle s) (hbegin : ok s (.begin c)) : ∃ s',
      Reach (step E code) ok (initial P) s' ∧ Idle s' ∧
      s'.db = (E.serve code s.db ⟨c, w⟩).2 ∧ ∃ t, s'.txns = s.txns ++ [t] ∧
      Records c (E.serve code s.db ⟨c, w⟩).1 t := by
  have hstart : Reach (step E code) ok (initial P)
      ⟨s.db, s.txns ++ [⟨c, [], code c, .active⟩]⟩ := hs.step hbegin rfl
  have hidle' : ∀ (t : Txn ι ρ ε κ β α), t.status ≠ .active → ∀ u ∈ s.txns ++ [t],
      u.status ≠ .active := by
    intro t ht u hu
    rcases List.mem_append.mp hu with hu | hu
    · exact hidle u hu
    · rwa [List.mem_singleton.mp hu]
  obtain ⟨hok, herr⟩ := reach_solo hstmt hcommit habort (k := 0) hidle hstart
  simp only [Nat.zero_add] at hok herr
  cases hv : E.serve code s.db ⟨c, w⟩ with
  | mk x d' =>
    cases x with
    | ok a =>
      obtain ⟨es, hr⟩ := hok a d' (serve_ok hv)
      exact ⟨_, hr, hidle' _ nofun, rfl, _, rfl, .committed⟩
    | error e =>
      obtain ⟨he, rfl⟩ := serve_error hv
      obtain ⟨es, q, hr⟩ := herr e he
      exact ⟨_, hr, hidle' _ nofun, rfl, _, rfl, .aborted⟩

end Reachable

/-- Calls served one after the other are a run of the system. -/
theorem reach_serveAll {s : State ι ρ ε κ δ β α} {cs : List (Served κ ω)}
    (hs : Reach (step E code) ok (initial P) s) (hidle : Idle s)
    (hbegin : ∀ c ∈ cs, ∀ s : State ι ρ ε κ δ β α, Idle s → ok s (.begin c.call))
    (hstmt : ∀ c ∈ cs, ∀ s n k, ok s (.stmt n (c.supply k))) (hcommit : ∀ s n, ok s (.commit n))
    (habort : ∀ s n, ok s (.abort n)) : ∃ s' ts,
      Reach (step E code) ok (initial P) s' ∧ Idle s' ∧ s'.db = (E.serveAll code s.db cs).2 ∧
      s'.txns = s.txns ++ ts ∧
      (∀ t ∈ ts, ∃ pre c post, cs = pre ++ c :: post ∧
        Records c.call (E.serve code (E.serveAll code s.db pre).2 c).1 t) ∧
      ∀ pre c post, cs = pre ++ c :: post → ∃ t ∈ ts,
        Records c.call (E.serve code (E.serveAll code s.db pre).2 c).1 t := by
  induction cs generalizing s with
  | nil => exact ⟨s, [], hs, hidle, rfl, by simp, by simp, by simp⟩
  | cons c cs ih =>
    obtain ⟨s₁, hs₁, hidle₁, hdb₁, t, ht, hrec⟩ := reach_serve (w := c.supply)
      (hstmt c (List.mem_cons_self ..)) hcommit habort hs hidle
      (hbegin c (List.mem_cons_self ..) s hidle)
    obtain ⟨s', ts, hs', hidle', hdb', htx, hback, hforth⟩ := ih hs₁ hidle₁
      (fun c' hc' => hbegin c' (List.mem_cons_of_mem _ hc'))
      (fun c' hc' => hstmt c' (List.mem_cons_of_mem _ hc'))
    rw [hdb₁] at hdb' hback hforth
    refine ⟨s', t :: ts, hs', hidle', hdb', by rw [htx, ht, List.append_assoc]; rfl, ?_, ?_⟩
    · intro u hu
      rcases List.mem_cons.mp hu with rfl | hu
      · exact ⟨[], c, cs, rfl, hrec⟩
      · obtain ⟨pre, c', post, rfl, hrec'⟩ := hback u hu
        exact ⟨c :: pre, c', post, rfl, hrec'⟩
    · intro pre c' post hsplit
      cases pre with
      | nil =>
        cases hsplit
        exact ⟨t, List.mem_cons_self .., hrec⟩
      | cons c'' pre =>
        cases hsplit
        obtain ⟨u, hu, hrec'⟩ := hforth pre c' post rfl
        exact ⟨u, List.mem_cons_of_mem _ hu, hrec'⟩

end TradePulse.Core.Transactions
