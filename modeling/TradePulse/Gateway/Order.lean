import TradePulse.Gateway.Tailer

/-! # The order of what the tailer publishes

Redis may fail and `$` may be resolved anew: what the broker is given for a
stream may then lack entries, but it never has one twice or out of order. -/
namespace TradePulse.Gateway
open TradePulse.Core TradePulse.Core.Runs TradePulse.Core.StreamLog

/-! ## Invariant -/

/-- What was published of stream `s` lies within its first `r` entries, and the
next call does not go back behind these. -/
structure UpTo (t : StreamTailer) (w : TailState) (s : String) (r : Nat) : Prop where
  le_length : r ≤ (w.logs s).length
  published : (w.publishedFor s).Sublist (messages t s ((w.logs s).take r))
  cursor : ∀ n, w.lastID s = .id n → r ≤ n ∧ n ≤ (w.logs s).length

/-- Where the call under way goes on. -/
def Ahead (w : TailState) (s : String) (r : Nat) : Prop :=
  match w.phase with
  | .idle | .stopped => True
  | .blocked cursors => r ≤ cursors s ∧ cursors s ≤ (w.logs s).length
  | .replied rest => ∃ m, r ≤ m ∧ m ≤ (w.logs s).length ∧ restOf s rest <+: after (w.logs s) m

/-- The invariant. -/
structure Rising (t : StreamTailer) (w : TailState) : Prop where
  streams : ∀ p ∈ w.published, p.1 ∈ t.streamNames ∧ p.2.Event = t.eventName p.1
  rest : ∀ rest, w.phase = .replied rest → ∀ m ∈ rest, m.1 ∈ t.streamNames
  upTo : ∀ s, ∃ r, UpTo t w s r ∧ Ahead w s r

section Steps

variable {t : StreamTailer} {w w' : TailState} {s : String} {r : Nat}

theorem messages_sublist {es fs : List Entry} (h : es.Sublist fs) :
    (messages t s es).Sublist (messages t s fs) := (h.filter _).map _

theorem UpTo.congr (h : UpTo t w s r) (hlogs : w'.logs s = w.logs s)
    (hid : w'.lastID s = w.lastID s) (hpub : w'.publishedFor s = w.publishedFor s) :
    UpTo t w' s r := by
  refine ⟨hlogs ▸ h.le_length, ?_, ?_⟩
  · rw [hpub, hlogs]
    exact h.published
  · rw [hid, hlogs]
    exact h.cursor

theorem UpTo.grow (h : UpTo t w s r) {logs : String → List Entry} {phase : Phase}
    (hlogs : w.logs s <+: logs s) : UpTo t { w with logs, phase } s r := by
  refine ⟨Nat.le_trans h.le_length hlogs.length_le, ?_, fun n hn => ?_⟩
  · have htake : (logs s).take r = (w.logs s).take r := by
      obtain ⟨more, hmore⟩ := hlogs
      rw [← hmore, List.take_append_of_le_length h.le_length]
    show (w.publishedFor s).Sublist (messages t s ((logs s).take r))
    rw [htake]
    exact h.published
  · exact ⟨(h.cursor n hn).1, Nat.le_trans (h.cursor n hn).2 hlogs.length_le⟩

/-- What a call finds lies behind its cursors. -/
theorem Ahead.await (cursors : String → Nat) (hr : r ≤ cursors s)
    (hle : cursors s ≤ (w.logs s).length)
    (hp : w.phase = await t.streamNames cursors w.logs) : Ahead w s r := by
  unfold Ahead
  rw [hp, Gateway.await]
  cases hx : xread t.streamNames cursors w.logs with
  | nil => exact ⟨hr, hle⟩
  | cons m rest =>
    refine ⟨cursors s, hr, hle, ?_⟩
    rw [← hx, restOf_xread t.streamNames_nodup]
    split
    · exact List.take_prefix ..
    · exact List.nil_prefix

theorem mem_xread {names : List String} {cursors : String → Nat} {logs : String → List Entry}
    {m : XMessage} (h : m ∈ xread names cursors logs) : m.1 ∈ names := by
  obtain ⟨s, hs, hm⟩ := List.mem_flatMap.mp h
  obtain ⟨e, -, rfl⟩ := List.mem_map.mp hm
  exact hs

theorem mem_await {names : List String} {cursors : String → Nat} {logs : String → List Entry}
    {rest : List XMessage} (h : await names cursors logs = .replied rest) :
    ∀ m ∈ rest, m.1 ∈ names := by
  intro m hm
  unfold await at h
  split at h
  · cases h
  · rename_i heq
    cases h
    exact mem_xread (heq ▸ hm)

/-- The position moves on to an entry that is delivered. -/
theorem UpTo.deliver (h : UpTo t w s r) {m : Nat} (hm : r ≤ m) {e : Entry}
    (he : (w.logs s)[m]? = some e) : UpTo t (deliver t w (s, m + 1, e)) s (m + 1) := by
  have hlt := (List.getElem?_eq_some_iff.mp he).1
  refine ⟨hlt, ?_, fun n hn => ?_⟩
  · rw [publishedFor_deliver, if_pos rfl]
    have htake : (w.logs s).take (m + 1) = (w.logs s).take m ++ [e] := by
      rw [List.take_add_one, he, Option.toList_some]
    show List.Sublist _ (messages t s ((w.logs s).take (m + 1)))
    rw [htake, messages_append]
    refine List.Sublist.append_right ?_ _
    exact h.published.trans (messages_sublist (List.take_sublist_take_left hm))
  · simp only [Gateway.deliver, Function.update_self, LastID.id.injEq] at hn
    subst hn
    exact ⟨Nat.le_refl _, hlt⟩

/-- While no call is under way, the streams may grow. -/
theorem Rising.grow (h : Rising t w) {logs : String → List Entry}
    (hgrow : ∀ s, w.logs s <+: logs s) (hp : w.phase = .idle ∨ w.phase = .stopped) :
    Rising t { w with logs } := by
  refine ⟨h.streams, h.rest, fun s => ?_⟩
  obtain ⟨r, hr, -⟩ := h.upTo s
  refine ⟨r, hr.grow (hgrow s), ?_⟩
  unfold Ahead
  obtain hp | hp := hp
  · rw [hp]
    trivial
  · rw [hp]
    trivial

theorem Rising.append (h : Rising t w) {a : String} {e : Entry}
    (hw : step t (.append a e) w = some w') : Rising t w' := by
  have hgrow : ∀ s, w.logs s <+: Function.update w.logs a (w.logs a ++ [e]) s :=
    prefix_update w a e
  cases hp : w.phase with
  | blocked cursors =>
    simp only [step, hp, Option.some.injEq] at hw
    subst hw
    refine ⟨h.streams, fun rest hrest => mem_await hrest, fun s => ?_⟩
    obtain ⟨r, hr, hahead⟩ := h.upTo s
    rw [Ahead, hp] at hahead
    exact ⟨r, hr.grow (hgrow s),
      Ahead.await cursors hahead.1 (Nat.le_trans hahead.2 (hgrow s).length_le) rfl⟩
  | replied rest =>
    simp only [step, hp, Option.some.injEq] at hw
    subst hw
    refine ⟨h.streams, fun rest' hrest' => h.rest rest' (hp.trans hrest'), fun s => ?_⟩
    obtain ⟨r, hr, hahead⟩ := h.upTo s
    rw [Ahead, hp] at hahead
    obtain ⟨m, hm, hle, hrest⟩ := hahead
    exact ⟨r, hr.grow (hgrow s), m, hm, Nat.le_trans hle (hgrow s).length_le,
      hrest.trans (after_mono (hgrow s) hle)⟩
  | idle =>
    simp only [step, hp, Option.some.injEq] at hw
    subst hw
    rw [← hp]
    exact h.grow hgrow (.inl hp)
  | stopped =>
    simp only [step, hp, Option.some.injEq] at hw
    subst hw
    rw [← hp]
    exact h.grow hgrow (.inr hp)

/-- A step to a place where no call is under way. -/
theorem Rising.halt (h : Rising t w) {p : Phase} (hp : p = .idle ∨ p = .stopped) :
    Rising t { w with phase := p } := by
  refine ⟨h.streams, fun rest hrest => ?_, fun s => ?_⟩
  · obtain rfl | rfl := hp
    · cases hrest
    · cases hrest
  · obtain ⟨r, hr, -⟩ := h.upTo s
    refine ⟨r, hr.congr rfl rfl rfl, ?_⟩
    obtain rfl | rfl := hp
    · trivial
    · trivial

theorem Rising.iterate (h : Rising t w) (hw : step t .iterate w = some w') : Rising t w' := by
  have hidle : w.phase = .idle := by
    cases hp : w.phase <;> simp only [step, hp, reduceCtorEq] at hw
    rfl
  by_cases hc : w.cancelled = true
  · obtain rfl : { w with phase := .stopped } = w' := by simpa [step, hidle, hc] using hw
    exact h.halt (.inr rfl)
  · obtain rfl : { w with
        started := w.started <|> some fun s => (w.logs s).length
        phase := await t.streamNames (fun s => (w.lastID s).resolve (w.logs s).length) w.logs } =
        w' := by simpa [step, hidle, hc] using hw
    refine ⟨h.streams, fun rest hrest => mem_await hrest, fun s => ?_⟩
    obtain ⟨r, hr, -⟩ := h.upTo s
    have hresolve : r ≤ (w.lastID s).resolve (w.logs s).length ∧
        (w.lastID s).resolve (w.logs s).length ≤ (w.logs s).length := by
      cases hid : w.lastID s with
      | dollar => exact ⟨hr.le_length, Nat.le_refl _⟩
      | id n => exact hr.cursor n hid
    exact ⟨r, hr.congr rfl rfl rfl,
      Ahead.await (fun s => (w.lastID s).resolve (w.logs s).length) hresolve.1 hresolve.2 rfl⟩

theorem Rising.take (h : Rising t w) (hw : step t .take w = some w') : Rising t w' := by
  cases hp : w.phase with
  | replied rest =>
    cases rest with
    | nil =>
      simp only [step, hp, Option.some.injEq] at hw
      subst hw
      exact h.halt (.inl rfl)
    | cons m rest =>
      simp only [step, hp, Option.some.injEq] at hw
      subst hw
      obtain ⟨a, id, e⟩ := m
      have hname := h.rest _ hp (a, id, e) List.mem_cons_self
      refine ⟨fun p hmem => ?_, fun rest' hrest' m hm => ?_, fun s => ?_⟩
      · change p ∈ (deliver t w (a, id, e)).published at hmem
        rw [Gateway.deliver] at hmem
        dsimp only at hmem
        split at hmem
        · exact h.streams p hmem
        · rcases List.mem_append.mp hmem with hmem | hmem
          · exact h.streams p hmem
          · rw [List.mem_singleton] at hmem
            subst hmem
            exact ⟨hname, rfl⟩
      · cases hrest'
        exact h.rest _ hp m (List.mem_cons_of_mem _ hm)
      · obtain ⟨r, hr, hahead⟩ := h.upTo s
        rw [Ahead, hp] at hahead
        obtain ⟨m, hm, hle, hrest⟩ := hahead
        by_cases ha : a = s
        · subst ha
          rw [restOf, List.filter_cons_of_pos (by simp), List.map_cons] at hrest
          obtain ⟨rfl, he, hrest⟩ := prefix_after_cons hrest
          exact ⟨m + 1, (hr.deliver hm he).congr rfl rfl rfl, m + 1, Nat.le_refl _,
            (List.getElem?_eq_some_iff.mp he).1, hrest⟩
        · rw [restOf, List.filter_cons_of_neg (by simpa using ha)] at hrest
          refine ⟨r, hr.congr rfl ?_ ?_, m, hm, hle, hrest⟩
          · exact Function.update_of_ne (Ne.symm ha) ..
          · exact (publishedFor_deliver id a e).trans (by rw [if_neg ha, List.append_nil])
  | _ => simp only [step, hp, reduceCtorEq] at hw

theorem Rising.step {a : TailAct} (h : Rising t w) (hw : step t a w = some w') : Rising t w' := by
  cases a with
  | append a e => exact h.append hw
  | iterate => exact h.iterate hw
  | take => exact h.take hw
  | timeout =>
    cases hp : w.phase with
    | blocked cursors =>
      simp only [Gateway.step, hp, Option.some.injEq] at hw
      subst hw
      exact h.halt (.inl rfl)
    | _ => simp only [Gateway.step, hp, reduceCtorEq] at hw
  | error =>
    have hwhere : (if w.cancelled then Phase.stopped else .idle) = .idle ∨
        (if w.cancelled then Phase.stopped else .idle) = .stopped := by
      split
      · exact .inr rfl
      · exact .inl rfl
    cases hp : w.phase with
    | idle =>
      simp only [Gateway.step, hp, Option.some.injEq] at hw
      subst hw
      exact h.halt hwhere
    | blocked cursors =>
      simp only [Gateway.step, hp, Option.some.injEq] at hw
      subst hw
      exact h.halt hwhere
    | _ => simp only [Gateway.step, hp, reduceCtorEq] at hw
  | cancel =>
    cases hw
    refine ⟨h.streams, h.rest, fun s => ?_⟩
    obtain ⟨r, hr, hahead⟩ := h.upTo s
    exact ⟨r, hr.congr rfl rfl rfl, hahead⟩

end Steps

theorem rising_connected {t : StreamTailer} {w : TailState} (h : connected w) : Rising t w := by
  obtain ⟨hphase, -, hpub, hcur⟩ := h
  refine ⟨fun p hp => ?_, fun rest hrest => ?_, fun s => ⟨0, ⟨Nat.zero_le _, ?_, fun n hn => ?_⟩, ?_⟩⟩
  · rw [hpub] at hp
    cases hp
  · rw [hphase] at hrest
    cases hrest
  · rw [TailState.publishedFor, hpub]
    exact List.nil_sublist _
  · rw [(hcur s).1] at hn
    cases hn
  · rw [Ahead, hphase]
    trivial

/-- What the broker was given for a stream lies in the stream, in its order. -/
theorem Rising.sublist {t : StreamTailer} {w : TailState} (h : Rising t w) (s : String) :
    (w.publishedFor s).Sublist (messages t s (w.logs s)) := by
  obtain ⟨r, hr, -⟩ := h.upTo s
  exact hr.published.trans (messages_sublist (List.take_sublist r _))

end TradePulse.Gateway
