import TradePulse.Core.Prog
import TradePulse.Core.Runs
import Mathlib.Data.List.Basic

/-! # Concurrent transactions under READ COMMITTED

A transaction is a program whose calls are SQL statements. Statements of any
number of transactions interleave freely. Each statement sees the committed
database plus the writes its own transaction has made so far; a write that
conflicts with a pending write of another transaction waits until that one is
over; a failing statement dooms its transaction; a commit applies all of its
writes at once. A transaction may stop at any point (an exception, a lost
connection, a dead process), and then none of its writes is applied. -/
namespace TradePulse.Core.Transactions
open TradePulse.Core TradePulse.Core.Prog TradePulse.Core.Runs

/-- `exec` runs a statement on a view of the database: an error, or a result
and the row it writes. `ω` is what the engine takes from outside: a clock
reading, a fresh identifier. -/
structure Engine (ι : Type) (ρ : ι → Type) (ε ω δ β : Type) where
  apply : δ → β → δ
  exec : (i : ι) → ω → δ → Except ε (ρ i × Option β)
  conflicts : β → β → Bool

inductive Status where
  | active
  | committed
  | aborted
  deriving DecidableEq

/-- A transaction: the call it serves, the statements it has executed, and
what is left of its program. -/
structure Txn (ι : Type) (ρ : ι → Type) (ε κ β α : Type) where
  call : κ
  trace : List (Event ι ρ (Option β))
  rest : Prog ι ρ ε α
  status : Status

structure State (ι : Type) (ρ : ι → Type) (ε κ δ β α : Type) where
  db : δ
  txns : List (Txn ι ρ ε κ β α)

inductive Act (κ ω : Type) where
  | begin (c : κ)
  | stmt (n : Nat) (w : ω)
  | commit (n : Nat)
  | abort (n : Nat)

variable {ι : Type} {ρ : ι → Type} {ε ω κ δ β α : Type}

/-- The rows a trace has written. -/
def writesOf (es : List (Event ι ρ (Option β))) : List β := es.filterMap (·.note)

def Txn.writes (t : Txn ι ρ ε κ β α) : List β := writesOf t.trace

def Engine.applyAll (E : Engine ι ρ ε ω δ β) (d : δ) (bs : List β) : δ := bs.foldl E.apply d

/-- What the next statement of a transaction sees. -/
def Engine.view (E : Engine ι ρ ε ω δ β) (d : δ) (t : Txn ι ρ ε κ β α) : δ :=
  E.applyAll d t.writes

/-- The write `b` of transaction `n` has to wait for another transaction. -/
def Engine.blocked (E : Engine ι ρ ε ω δ β) (ts : List (Txn ι ρ ε κ β α)) (n : Nat)
    (b : Option β) : Bool :=
  b.any fun b => (ts.eraseIdx n).any fun t =>
    t.status = .active && t.writes.any (E.conflicts b)

def State.put (s : State ι ρ ε κ δ β α) (n : Nat) (t : Txn ι ρ ε κ β α) :
    State ι ρ ε κ δ β α := { s with txns := s.txns.set n t }

@[simp] theorem State.put_db (s : State ι ρ ε κ δ β α) (n : Nat) (t : Txn ι ρ ε κ β α) :
    (s.put n t).db = s.db := rfl

def step (E : Engine ι ρ ε ω δ β) (code : κ → Prog ι ρ ε α) :
    Act κ ω → State ι ρ ε κ δ β α → Option (State ι ρ ε κ δ β α)
  | .begin c, s => some { s with txns := s.txns ++ [⟨c, [], code c, .active⟩] }
  | .stmt n w, s =>
    match s.txns[n]? with
    | some ⟨c, es, .call i k, .active⟩ =>
      match E.exec i w (E.applyAll s.db (writesOf es)) with
      | .error _ => some (s.put n ⟨c, es, .call i k, .aborted⟩)
      | .ok (r, b) =>
        if E.blocked s.txns n b then none
        else some (s.put n ⟨c, es ++ [⟨i, r, b⟩], k (.ok r), .active⟩)
    | _ => none
  | .commit n, s =>
    match s.txns[n]? with
    | some ⟨c, es, .ret a, .active⟩ =>
      some { (s.put n ⟨c, es, .ret a, .committed⟩) with db := E.applyAll s.db (writesOf es) }
    | _ => none
  | .abort n, s =>
    match s.txns[n]? with
    | some t => if t.status = .active then some (s.put n { t with status := .aborted }) else none
    | none => none

/-- What one step can do. -/
inductive Step (E : Engine ι ρ ε ω δ β) (code : κ → Prog ι ρ ε α)
    (s : State ι ρ ε κ δ β α) : Act κ ω → State ι ρ ε κ δ β α → Prop
  | begin (c : κ) : Step E code s (.begin c)
      { s with txns := s.txns ++ [⟨c, [], code c, .active⟩] }
  | stmt {n : Nat} {w : ω} {c : κ} {es : List (Event ι ρ (Option β))} {i : ι}
      {k : Except ε (ρ i) → Prog ι ρ ε α} {r : ρ i} {b : Option β}
      (get : s.txns[n]? = some ⟨c, es, .call i k, .active⟩)
      (exec : E.exec i w (E.applyAll s.db (writesOf es)) = .ok (r, b))
      (free : E.blocked s.txns n b = false) :
      Step E code s (.stmt n w) (s.put n ⟨c, es ++ [⟨i, r, b⟩], k (.ok r), .active⟩)
  | commit {n : Nat} {c : κ} {es : List (Event ι ρ (Option β))} {a : α}
      (get : s.txns[n]? = some ⟨c, es, .ret a, .active⟩) :
      Step E code s (.commit n)
        { (s.put n ⟨c, es, .ret a, .committed⟩) with db := E.applyAll s.db (writesOf es) }
  | stop {act : Act κ ω} {n : Nat} {t : Txn ι ρ ε κ β α}
      (get : s.txns[n]? = some t) (active : t.status = .active) :
      Step E code s act (s.put n { t with status := .aborted })

theorem step_cases {E : Engine ι ρ ε ω δ β} {code : κ → Prog ι ρ ε α} {a : Act κ ω}
    {s s' : State ι ρ ε κ δ β α} (h : step E code a s = some s') : Step E code s a s' := by
  cases a with
  | begin c =>
    simp only [step, Option.some.injEq] at h
    exact h ▸ .begin c
  | stmt n w =>
    simp only [step] at h
    split at h
    · rename_i c es i k get
      split at h
      · simp only [Option.some.injEq] at h
        exact h ▸ .stop get rfl
      · rename_i r b exec
        split at h
        · cases h
        · rename_i free
          simp only [Option.some.injEq] at h
          exact h ▸ .stmt get exec (by simpa using free)
    · cases h
  | commit n =>
    simp only [step] at h
    split at h
    · rename_i c es a get
      simp only [Option.some.injEq] at h
      exact h ▸ .commit get
    · cases h
  | abort n =>
    simp only [step] at h
    split at h
    · rename_i t get
      split at h
      · rename_i active
        simp only [Option.some.injEq] at h
        exact h ▸ .stop get active
      · cases h
    · cases h

theorem mem_put {s : State ι ρ ε κ δ β α} {n : Nat} {t u : Txn ι ρ ε κ β α}
    (h : u ∈ (s.put n t).txns) : u = t ∨ u ∈ s.txns := by
  rcases List.mem_or_eq_of_mem_set h with h | h
  · exact .inr h
  · exact .inl h

theorem getElem?_put {s : State ι ρ ε κ δ β α} {n m : Nat} {t u : Txn ι ρ ε κ β α}
    (h : (s.put n t).txns[m]? = some u) : (m = n ∧ u = t) ∨ (m ≠ n ∧ s.txns[m]? = some u) := by
  by_cases hmn : m = n
  · subst hmn
    rw [State.put, List.getElem?_set] at h
    split at h
    · split at h
      · exact .inl ⟨rfl, (Option.some.inj h).symm⟩
      · cases h
    · exact absurd rfl ‹_›
  · rw [State.put, List.getElem?_set_ne (Ne.symm hmn)] at h
    exact .inr ⟨hmn, h⟩

theorem mem_put_self {s : State ι ρ ε κ δ β α} {n : Nat} {t : Txn ι ρ ε κ β α}
    (get : s.txns[n]? = some t) (t' : Txn ι ρ ε κ β α) : t' ∈ (s.put n t').txns :=
  List.mem_set (List.getElem?_eq_some_iff.mp get).1 t'

/-- Replacing an active transaction loses no finished one. -/
theorem mem_put_of_finished {s : State ι ρ ε κ δ β α} {n : Nat} {t t' u : Txn ι ρ ε κ β α}
    (get : s.txns[n]? = some t) (active : t.status = .active) (hu : u ∈ s.txns)
    (hfin : u.status ≠ .active) : u ∈ (s.put n t').txns := by
  obtain ⟨m, hm⟩ := List.mem_iff_getElem?.mp hu
  refine List.mem_iff_getElem?.mpr ⟨m, ?_⟩
  have hne : n ≠ m := by
    rintro rfl
    rw [get] at hm
    exact hfin (Option.some.inj hm ▸ active)
  rw [State.put, List.getElem?_set_ne hne, hm]

@[simp] theorem writesOf_snoc (es : List (Event ι ρ (Option β))) (e : Event ι ρ (Option β)) :
    writesOf (es ++ [e]) = writesOf es ++ e.note.toList := by
  cases h : e.note <;> simp [writesOf, h]

@[simp] theorem Engine.applyAll_append (E : Engine ι ρ ε ω δ β) (d : δ) (bs cs : List β) :
    E.applyAll d (bs ++ cs) = E.applyAll (E.applyAll d bs) cs := by
  simp [Engine.applyAll]

/-! ## Every transaction is its program's -/

/-- The trace is one the program can produce, and the engine gave each answer. -/
structure Faithful (E : Engine ι ρ ε ω δ β) (code : κ → Prog ι ρ ε α)
    (t : Txn ι ρ ε κ β α) : Prop where
  follows : Follows (code t.call) t.trace t.rest
  exec : ∀ e ∈ t.trace, ∃ w d, E.exec e.stmt w d = .ok (e.res, e.note)

/-- A database that meets `P`, and no transaction yet. -/
def initial (P : δ → Prop) (s : State ι ρ ε κ δ β α) : Prop := P s.db ∧ s.txns = []

variable {E : Engine ι ρ ε ω δ β} {code : κ → Prog ι ρ ε α} {P : δ → Prop}
  {ok : State ι ρ ε κ δ β α → Act κ ω → Prop}

/-- What holds of a transaction when it begins and is kept by its statements
and by its end is kept by every step. -/
theorem txns_step {Q : Txn ι ρ ε κ β α → Prop} {s s' : State ι ρ ε κ δ β α} {a : Act κ ω}
    (hbegin : ∀ c, a = .begin c → Q ⟨c, [], code c, .active⟩)
    (hstmt : ∀ n w c es i k d r b, a = .stmt n w → E.exec i w d = .ok (r, b) →
      Q ⟨c, es, .call i k, .active⟩ → Q ⟨c, es ++ [⟨i, r, b⟩], k (.ok r), .active⟩)
    (hend : ∀ t st, Q t → Q { t with status := st }) (hs : ∀ t ∈ s.txns, Q t)
    (h : Step E code s a s') : ∀ t ∈ s'.txns, Q t := by
  intro u hu
  cases h with
  | begin c =>
    obtain hu | hu := List.mem_append.mp hu
    · exact hs u hu
    · rw [List.mem_singleton.mp hu]
      exact hbegin c rfl
  | stmt get exec free =>
    obtain rfl | hu := mem_put hu
    · exact hstmt _ _ _ _ _ _ _ _ _ rfl exec (hs _ (List.mem_of_getElem? get))
    · exact hs u hu
  | commit get =>
    obtain rfl | hu := mem_put (s := s) hu
    · exact hend _ .committed (hs _ (List.mem_of_getElem? get))
    · exact hs u hu
  | stop get active =>
    obtain rfl | hu := mem_put hu
    · exact hend _ .aborted (hs _ (List.mem_of_getElem? get))
    · exact hs u hu

theorem Faithful.step {s s' : State ι ρ ε κ δ β α} {a : Act κ ω}
    (hs : ∀ t ∈ s.txns, Faithful E code t) (h : Step E code s a s') :
    ∀ t ∈ s'.txns, Faithful E code t := by
  refine txns_step (fun c _ => ⟨rfl, by simp⟩) ?_ (fun t st ht => ⟨ht.follows, ht.exec⟩) hs h
  intro n w c es i k d r b _ exec ht
  refine ⟨ht.follows.snoc _ _, fun e he => ?_⟩
  obtain he | he := List.mem_append.mp he
  · exact ht.exec e he
  · rw [List.mem_singleton.mp he]
    exact ⟨w, d, exec⟩

theorem faithful {s : State ι ρ ε κ δ β α} (h : Reach (step E code) ok (initial P) s) :
    ∀ t ∈ s.txns, Faithful E code t :=
  h.invariant (I := fun s => ∀ t ∈ s.txns, Faithful E code t) (fun s hs => by simp [hs.2])
    fun _ _ _ hs _ h => Faithful.step hs (step_cases h)

/-- A property of the calls that every admitted `begin` checks. -/
theorem calls {C : κ → Prop} (hok : ∀ s c, ok s (.begin c) → C c) {s : State ι ρ ε κ δ β α}
    (h : Reach (step E code) ok (initial P) s) : ∀ t ∈ s.txns, C t.call := by
  refine h.invariant (I := fun s => ∀ t ∈ s.txns, C t.call) (fun s hs => by simp [hs.2]) ?_
  intro s a s' hs ha h
  exact txns_step (Q := fun t => C t.call) (fun c he => hok s c (he ▸ ha))
    (fun _ _ _ _ _ _ _ _ _ _ _ h => h) (fun _ _ h => h) hs (step_cases h)

/-- A property of what the environment supplies that every admitted statement
checks. -/
theorem answers {A : ω → Prop} (hok : ∀ s n w, ok s (.stmt n w) → A w) {s : State ι ρ ε κ δ β α}
    (h : Reach (step E code) ok (initial P) s) :
    ∀ t ∈ s.txns, ∀ e ∈ t.trace, ∃ w d, A w ∧ E.exec e.stmt w d = .ok (e.res, e.note) := by
  refine h.invariant (I := fun s => ∀ t ∈ s.txns, ∀ e ∈ t.trace, ∃ w d, A w ∧
    E.exec e.stmt w d = .ok (e.res, e.note)) (fun s hs => by simp [hs.2]) ?_
  intro s a s' hs ha h
  refine txns_step (Q := fun t => ∀ e ∈ t.trace, ∃ w d, A w ∧
    E.exec e.stmt w d = .ok (e.res, e.note)) (fun c _ => by simp) ?_ (fun _ _ h => h) hs
    (step_cases h)
  intro n w c es i k d r b heq exec hes e he
  obtain he | he := List.mem_append.mp he
  · exact hes e he
  · rw [List.mem_singleton.mp he]
    exact ⟨w, d, hok s n w (heq ▸ ha), exec⟩

/-- What holds initially and is kept by every write holds of every view that a
statement was answered on. -/
theorem answered_on {I : δ → Prop} (hinit : ∀ d, P d → I d)
    (happly : ∀ d b, I d → I (E.apply d b)) {s : State ι ρ ε κ δ β α}
    (h : Reach (step E code) ok (initial P) s) : I s.db ∧
      ∀ t ∈ s.txns, ∀ e ∈ t.trace, ∃ w d, I d ∧ E.exec e.stmt w d = .ok (e.res, e.note) := by
  have hall : ∀ bs d, I d → I (E.applyAll d bs) := by
    intro bs
    induction bs with
    | nil => exact fun d hd => hd
    | cons b bs ih => exact fun d hd => ih _ (happly d b hd)
  refine h.invariant (I := fun s => I s.db ∧ ∀ t ∈ s.txns, ∀ e ∈ t.trace, ∃ w d, I d ∧
    E.exec e.stmt w d = .ok (e.res, e.note)) (fun s hs => ⟨hinit _ hs.1, by simp [hs.2]⟩) ?_
  rintro s a s' ⟨hdb, hs⟩ ha h
  cases step_cases h with
  | begin c =>
    refine ⟨hdb, fun t ht => ?_⟩
    rcases List.mem_append.mp ht with ht | ht
    · exact hs t ht
    · rw [List.mem_singleton.mp ht]
      simp
  | @stmt n w c es i k r b get exec free =>
    refine ⟨hdb, fun t ht e he => ?_⟩
    rcases mem_put ht with rfl | ht
    · rcases List.mem_append.mp he with he | he
      · exact hs _ (List.mem_of_getElem? get) e he
      · rw [List.mem_singleton.mp he]
        exact ⟨w, _, hall _ _ hdb, exec⟩
    · exact hs t ht e he
  | @commit n c es a get =>
    refine ⟨hall _ _ hdb, fun t ht e he => ?_⟩
    rcases mem_put (s := s) ht with rfl | ht
    · exact hs _ (List.mem_of_getElem? get) e he
    · exact hs t ht e he
  | @stop _ n t get active =>
    refine ⟨hdb, fun u hu e he => ?_⟩
    rcases mem_put hu with rfl | hu
    · exact hs t (List.mem_of_getElem? get) e he
    · exact hs u hu e he

/-- **Committed states.** The database changes only when a transaction commits,
and then by all the writes of a complete run of its program. A property of the
database that every such commit keeps holds in every state of every run. -/
theorem db_invariant {I : δ → Prop} (hinit : ∀ d, P d → I d)
    (hcommit : ∀ s n c es a, Reach (step E code) ok (initial P) s →
      s.txns[n]? = some ⟨c, es, .ret a, .active⟩ → Faithful E code ⟨c, es, .ret a, .active⟩ →
      ok s (.commit n) → I s.db → I (E.applyAll s.db (writesOf es)))
    {s : State ι ρ ε κ δ β α} (h : Reach (step E code) ok (initial P) s) : I s.db := by
  induction h with
  | init h => exact hinit _ h.1
  | step hs ha ht ih =>
    cases step_cases ht with
    | begin c => exact ih
    | stmt get exec free => exact ih
    | commit get =>
      exact hcommit _ _ _ _ _ hs get (faithful hs _ (List.mem_of_getElem? get)) ha ih
    | stop get active => exact ih

/-! ## Serial runs -/

/-- The trace ran on `d` with nothing beside it. -/
def Replay (E : Engine ι ρ ε ω δ β) (d : δ) : List (Event ι ρ (Option β)) → Prop
  | [] => True
  | e :: es => (∃ w, E.exec e.stmt w d = .ok (e.res, e.note)) ∧
      Replay E (E.applyAll d e.note.toList) es

theorem applyAll_cons (d : δ) (e : Event ι ρ (Option β)) (es : List (Event ι ρ (Option β))) :
    E.applyAll d (writesOf (e :: es)) = E.applyAll (E.applyAll d e.note.toList) (writesOf es) := by
  cases h : e.note <;> simp [writesOf, h, Engine.applyAll]

theorem replay_append {d : δ} {es fs : List (Event ι ρ (Option β))} :
    Replay E d (es ++ fs) ↔ Replay E d es ∧ Replay E (E.applyAll d (writesOf es)) fs := by
  induction es generalizing d with
  | nil => simp [Replay, writesOf, Engine.applyAll]
  | cons e es ih => rw [List.cons_append, Replay, Replay, ih, applyAll_cons, and_assoc]

/-- A transaction begins only when every earlier one is over. -/
def serial (s : State ι ρ ε κ δ β α) : Act κ ω → Prop
  | .begin _ => ∀ t ∈ s.txns, t.status ≠ .active
  | _ => True

/-- At most one transaction is under way, and all it has done it did on the
committed database. -/
structure Alone (E : Engine ι ρ ε ω δ β) (s : State ι ρ ε κ δ β α) : Prop where
  single : ∀ (n m : Nat) (t u : Txn ι ρ ε κ β α), s.txns[n]? = some t → s.txns[m]? = some u →
    t.status = .active → u.status = .active → n = m
  replay : ∀ t ∈ s.txns, t.status = .active → Replay E s.db t.trace

theorem Alone.step {s s' : State ι ρ ε κ δ β α} {a : Act κ ω} (hs : Alone E s)
    (ha : serial s a) (h : Step E code s a s') : Alone E s' := by
  cases h with
  | begin c =>
    have last : ∀ n t, (s.txns ++ [⟨c, [], code c, .active⟩])[n]? = some t →
        t.status = .active → n = s.txns.length ∧ t.trace = [] := by
      intro n t hn hact
      rw [List.getElem?_append] at hn
      split at hn
      · exact absurd hact (ha t (List.mem_of_getElem? hn))
      · rename_i hlt
        have hlen : n - s.txns.length < 1 := by
          simpa using (List.getElem?_eq_some_iff.mp hn).1
        have hz : n - s.txns.length = 0 := by omega
        rw [hz] at hn
        simp only [List.getElem?_cons_zero, Option.some.injEq] at hn
        exact ⟨by omega, hn ▸ rfl⟩
    refine ⟨fun n m t u hn hm ht hu => ?_, fun t ht hact => ?_⟩
    · exact (last n t hn ht).1.trans (last m u hm hu).1.symm
    · obtain ⟨n, hn⟩ := List.mem_iff_getElem?.mp ht
      rw [(last n t hn hact).2]
      trivial
  | @stmt n w c es i k r b get exec free =>
    refine ⟨fun m m' t u hm hm' ht hu => ?_, fun t ht hact => ?_⟩
    · obtain ⟨rfl, rfl⟩ | ⟨hmn, old⟩ := getElem?_put hm <;>
        obtain ⟨rfl, rfl⟩ | ⟨hmn', old'⟩ := getElem?_put hm'
      · rfl
      · exact (hs.single _ _ _ _ old' get hu rfl).symm
      · exact hs.single _ _ _ _ old get ht rfl
      · exact hs.single _ _ _ _ old old' ht hu
    · obtain rfl | ht := mem_put ht
      · exact replay_append.mpr ⟨hs.replay _ (List.mem_of_getElem? get) rfl, ⟨w, exec⟩, trivial⟩
      · exact hs.replay t ht hact
  | @commit n c es a get =>
    have inactive : ∀ (m : Nat) (t : Txn ι ρ ε κ β α),
        (s.put n ⟨c, es, .ret a, .committed⟩).txns[m]? = some t → t.status ≠ .active := by
      intro m t hm hact
      obtain ⟨rfl, rfl⟩ | ⟨hmn, old⟩ := getElem?_put hm
      · cases hact
      · exact hmn (hs.single _ _ _ _ old get hact rfl)
    refine ⟨fun m m' t u hm _ ht _ => absurd ht (inactive m t hm), fun t ht hact => ?_⟩
    obtain ⟨m, hm⟩ := List.mem_iff_getElem?.mp ht
    exact absurd hact (inactive m t hm)
  | stop get active =>
    refine ⟨fun m m' t u hm hm' ht hu => ?_, fun t ht hact => ?_⟩
    · obtain ⟨rfl, rfl⟩ | ⟨_, old⟩ := getElem?_put hm
      · cases ht
      · obtain ⟨rfl, rfl⟩ | ⟨_, old'⟩ := getElem?_put hm'
        · cases hu
        · exact hs.single _ _ _ _ old old' ht hu
    · obtain rfl | ht := mem_put ht
      · cases hact
      · exact hs.replay t ht hact

/-- In a serial run every transaction sees the committed database and its own
writes, and nothing else. -/
theorem alone (hok : ∀ s a, ok s a → serial s a) {s : State ι ρ ε κ δ β α}
    (h : Reach (step E code) ok (initial P) s) : Alone E s :=
  h.invariant (I := Alone E) (fun s hs => ⟨by simp [hs.2], by simp [hs.2]⟩)
    fun _ _ _ hs ha h => hs.step (hok _ _ ha) (step_cases h)

/-! ## Unique keys -/

section UniqueKey

variable {γ : Type} (key : β → Option γ) (keys : δ → γ → Prop)

/-- The keys of pending writes are not in the database, and no two pending
writes share one. -/
structure Reserved (s : State ι ρ ε κ δ β α) : Prop where
  fresh : ∀ t ∈ s.txns, t.status = .active → ∀ g ∈ t.writes.filterMap key, ¬ keys s.db g
  nodup : ∀ t ∈ s.txns, t.status = .active → (t.writes.filterMap key).Nodup
  apart : ∀ (n m : Nat) (t u : Txn ι ρ ε κ β α), n ≠ m →
    s.txns[n]? = some t → s.txns[m]? = some u →
    t.status = .active → u.status = .active →
    ∀ g ∈ t.writes.filterMap key, g ∉ u.writes.filterMap key

variable {key keys}

theorem keys_applyAll (happly : ∀ d b g, keys (E.apply d b) g ↔ keys d g ∨ key b = some g)
    (d : δ) (bs : List β) (g : γ) :
    keys (E.applyAll d bs) g ↔ keys d g ∨ g ∈ bs.filterMap key := by
  induction bs generalizing d with
  | nil => simp [Engine.applyAll]
  | cons b bs ih =>
    rw [show E.applyAll d (b :: bs) = E.applyAll (E.apply d b) bs from rfl, ih, happly, or_assoc]
    simp only [List.mem_filterMap, List.mem_cons, exists_eq_or_imp]

theorem not_blocked {ts : List (Txn ι ρ ε κ β α)} {n m : Nat} {b : β} {u : Txn ι ρ ε κ β α}
    (h : E.blocked ts n (some b) = false) (hne : m ≠ n) (hu : ts[m]? = some u)
    (ha : u.status = .active) : ∀ b' ∈ u.writes, E.conflicts b b' = false := by
  intro b' hb'
  simp only [Engine.blocked, Option.any_some, List.any_eq_false] at h
  have := h u (List.mem_eraseIdx_iff_getElem?.mpr ⟨m, hne, hu⟩)
  simp only [ha, decide_true, Bool.true_and, List.any_eq_true, not_exists, not_and] at this
  simpa using this b' hb'

theorem Reserved.step (happly : ∀ d b g, keys (E.apply d b) g ↔ keys d g ∨ key b = some g)
    (hexec : ∀ i w d r b g, E.exec i w d = .ok (r, some b) → key b = some g → ¬ keys d g)
    (hconf : ∀ b b' g, key b = some g → key b' = some g → E.conflicts b b' = true)
    {s s' : State ι ρ ε κ δ β α} {a : Act κ ω} (hs : Reserved key keys s)
    (h : Step E code s a s') : Reserved key keys s' := by
  cases h with
  | begin c =>
    have hnew : ∀ t ∈ s.txns ++ [⟨c, [], code c, .active⟩], t ∈ s.txns ∨ t.writes = [] := by
      intro t ht
      rcases List.mem_append.mp ht with ht | ht
      · exact .inl ht
      · rw [List.mem_singleton.mp ht]; exact .inr rfl
    refine ⟨fun t ht ha => ?_, fun t ht ha => ?_, fun n m t u hne hn hm hta hua => ?_⟩
    · rcases hnew t ht with ht | ht
      · exact hs.fresh t ht ha
      · simp [ht]
    · rcases hnew t ht with ht | ht
      · exact hs.nodup t ht ha
      · simp [ht]
    · rcases hnew t (List.mem_of_getElem? hn) with ht | ht
      · rcases hnew u (List.mem_of_getElem? hm) with hu | hu
        · -- an index below the old length is an old transaction
          rw [List.getElem?_append] at hn hm
          split at hn <;> split at hm
          · exact hs.apart n m t u hne hn hm hta hua
          · have : u = ⟨c, [], code c, .active⟩ := by
              simpa using List.mem_of_getElem? hm
            subst this; simp [Txn.writes, writesOf]
          · have : t = ⟨c, [], code c, .active⟩ := by
              simpa using List.mem_of_getElem? hn
            subst this; simp [Txn.writes, writesOf]
          · have : t = ⟨c, [], code c, .active⟩ := by
              simpa using List.mem_of_getElem? hn
            subst this; simp [Txn.writes, writesOf]
        · simp [hu]
      · simp [ht]
  | @stmt n w c es i k r b get exec free =>
    have hold := hs.fresh _ (List.mem_of_getElem? get) rfl
    have hnd := hs.nodup _ (List.mem_of_getElem? get) rfl
    -- the key of the new write, if any, is in no database and no other transaction
    have hb : ∀ g, b.bind key = some g → ¬ keys s.db g ∧ g ∉ (writesOf es).filterMap key ∧
        ∀ m u, m ≠ n → s.txns[m]? = some u → u.status = .active →
          g ∉ u.writes.filterMap key := by
      intro g hg
      obtain ⟨b', rfl, hk⟩ := Option.bind_eq_some_iff.mp hg
      have hv := hexec _ _ _ _ _ _ exec hk
      rw [keys_applyAll happly] at hv
      refine ⟨fun h => hv (.inl h), fun h => hv (.inr h), ?_⟩
      intro m u hm hu ha hmem
      obtain ⟨b'', hb'', hk'⟩ := List.mem_filterMap.mp hmem
      have := not_blocked free hm hu ha b'' hb''
      rw [hconf _ _ _ hk hk'] at this
      cases this
    have hwr : (Txn.writes ⟨c, es ++ [⟨i, r, b⟩], k (.ok r), .active⟩).filterMap key =
        (writesOf es).filterMap key ++ (b.bind key).toList := by
      rw [Txn.writes, writesOf_snoc, List.filterMap_append]
      cases b with
      | none => rfl
      | some b => cases hk : key b <;> simp [hk]
    refine ⟨fun t ht ha => ?_, fun t ht ha => ?_, fun m m' t u hne hm hm' hta hua => ?_⟩
    · rcases mem_put ht with rfl | ht
      · rw [hwr]
        intro g hg
        rcases List.mem_append.mp hg with hg | hg
        · exact hold g hg
        · exact (hb g (by simpa using hg)).1
      · exact hs.fresh t ht ha
    · rcases mem_put ht with rfl | ht
      · rw [hwr]
        refine List.nodup_append.mpr ⟨hnd, by cases b.bind key <;> simp, ?_⟩
        intro g hg g' hg' he
        exact (hb g' (by simpa using hg')).2.1 (he ▸ hg)
      · exact hs.nodup t ht ha
    · rcases getElem?_put hm with ⟨rfl, rfl⟩ | ⟨hmn, old⟩ <;>
        rcases getElem?_put hm' with ⟨rfl, rfl⟩ | ⟨hmn', old'⟩
      · exact absurd rfl hne
      · rw [hwr]
        intro g hg
        rcases List.mem_append.mp hg with hg | hg
        · exact hs.apart _ _ _ _ hne get old' rfl hua g hg
        · exact (hb g (by simpa using hg)).2.2 _ _ hmn' old' hua
      · rw [hwr]
        intro g hg hg'
        rcases List.mem_append.mp hg' with hg' | hg'
        · exact hs.apart _ _ _ _ hne old get hta rfl g hg hg'
        · exact (hb g (by simpa using hg')).2.2 _ _ hmn old hta hg
      · exact hs.apart _ _ _ _ hne old old' hta hua
  | @commit n c es a get =>
    refine ⟨fun t ht ha => ?_, fun t ht ha => ?_, fun m m' t u hne hm hm' hta hua => ?_⟩
    · obtain ⟨m, hm⟩ := List.mem_iff_getElem?.mp ht
      rcases getElem?_put (s := s) hm with ⟨rfl, rfl⟩ | ⟨hmn, hm⟩
      · cases ha
      · intro g hg hk
        rcases (keys_applyAll happly _ _ _).mp hk with hk | hk
        · exact hs.fresh t (List.mem_of_getElem? hm) ha g hg hk
        · exact hs.apart _ _ _ _ hmn hm get ha rfl g hg hk
    · rcases mem_put (s := s) ht with rfl | ht
      · cases ha
      · exact hs.nodup t ht ha
    · rcases getElem?_put (s := s) hm with ⟨rfl, rfl⟩ | ⟨_, hm⟩
      · cases hta
      rcases getElem?_put (s := s) hm' with ⟨rfl, rfl⟩ | ⟨_, hm'⟩
      · cases hua
      exact hs.apart _ _ _ _ hne hm hm' hta hua
  | stop get active =>
    refine ⟨fun t ht ha => ?_, fun t ht ha => ?_, fun m m' t u hne hm hm' hta hua => ?_⟩
    · rcases mem_put ht with rfl | ht
      · cases ha
      · exact hs.fresh t ht ha
    · rcases mem_put ht with rfl | ht
      · cases ha
      · exact hs.nodup t ht ha
    · rcases getElem?_put hm with ⟨rfl, rfl⟩ | ⟨_, hm⟩
      · cases hta
      rcases getElem?_put hm' with ⟨rfl, rfl⟩ | ⟨_, hm'⟩
      · cases hua
      exact hs.apart _ _ _ _ hne hm hm' hta hua

/-- **Unique constraints hold at commit.** Where a statement refuses a key
that its view already has, and writes of one key conflict, the keys a
transaction is about to commit are new, whatever ran beside it. -/
theorem reserved (happly : ∀ d b g, keys (E.apply d b) g ↔ keys d g ∨ key b = some g)
    (hexec : ∀ i w d r b g, E.exec i w d = .ok (r, some b) → key b = some g → ¬ keys d g)
    (hconf : ∀ b b' g, key b = some g → key b' = some g → E.conflicts b b' = true)
    {s : State ι ρ ε κ δ β α} (h : Reach (step E code) ok (initial P) s) :
    Reserved key keys s :=
  h.invariant (I := Reserved key keys)
    (fun s hs => ⟨by simp [hs.2], by simp [hs.2], by simp [hs.2]⟩)
    fun _ _ _ hs _ h => hs.step happly hexec hconf (step_cases h)

end UniqueKey

end TradePulse.Core.Transactions
