import Mathlib.Algebra.Ring.Nat
import Mathlib.Data.List.Basic

/-! # Event streams

The reading end of Server-Sent Events: a text is split into lines, a line that
starts with a colon is a comment, any other names a field and its value, and a
blank line dispatches what has been collected. The fields `id` and `retry` do
not show in what is dispatched and are read like unknown ones. -/
namespace TradePulse.Core.EventStream

/-- What is dispatched: the type of the event and its data. -/
abbrev Dispatched := List Char × List Char

/-- Lines end at LF, CR or CRLF: an LF behind a CR ends no other line. What is
not ended is no line. -/
def linesFrom : Bool → List Char → List Char → List (List Char)
  | _, _, [] => []
  | afterCR, cur, c :: cs =>
    if c = '\n' then
      if afterCR then linesFrom false cur cs else cur :: linesFrom false [] cs
    else if c = '\r' then cur :: linesFrom true [] cs
    else linesFrom false (cur ++ [c]) cs

def lines (text : List Char) : List (List Char) := linesFrom false [] text

structure Buffers where
  eventType : List Char
  data : List Char
  deriving DecidableEq

def empty : Buffers := ⟨[], []⟩

/-- What stands before the first colon. -/
def fieldOf (line : List Char) : List Char := line.takeWhile (· ≠ ':')

/-- What stands behind it, less one leading space. -/
def valueOf (line : List Char) : List Char :=
  match line.dropWhile (· ≠ ':') with
  | ':' :: ' ' :: value => value
  | ':' :: value => value
  | _ => []

/-- A line that is not blank. -/
def Buffers.collect (b : Buffers) (line : List Char) : Buffers :=
  if line.head? = some ':' then b
  else if fieldOf line = "event".toList then { b with eventType := valueOf line }
  else if fieldOf line = "data".toList then { b with data := b.data ++ valueOf line ++ ['\n'] }
  else b

/-- A blank line: nothing without data, and an event without a type is a
message. -/
def Buffers.dispatch (b : Buffers) : Option Dispatched :=
  if b.data = [] then none
  else some (if b.eventType = [] then "message".toList else b.eventType, b.data.dropLast)

def dispatches : Buffers → List (List Char) → List Dispatched
  | _, [] => []
  | b, [] :: ls => b.dispatch.toList ++ dispatches empty ls
  | b, (c :: l) :: ls => dispatches (b.collect (c :: l)) ls

/-- What an event source dispatches for a text. -/
def parse (text : List Char) : List Dispatched := dispatches empty (lines text)

/-! ## Lines -/

/-- A text within one line. -/
def OneLine (l : List Char) : Prop := ∀ c ∈ l, c ≠ '\n' ∧ c ≠ '\r'

instance (l : List Char) : Decidable (OneLine l) :=
  List.decidableBAll (fun c => c ≠ '\n' ∧ c ≠ '\r') l

theorem linesFrom_append {l : List Char} (h : OneLine l) (cur : List Char) (cs : List Char)
    {afterCR : Bool} (hl : l ≠ [] ∨ afterCR = false) :
    linesFrom afterCR cur (l ++ cs) = linesFrom false (cur ++ l) cs := by
  induction l generalizing cur afterCR with
  | nil =>
    obtain rfl : afterCR = false := hl.resolve_left (not_not.mpr rfl)
    rw [List.nil_append, List.append_nil]
  | cons c l ih =>
    obtain ⟨hlf, hcr⟩ := h c List.mem_cons_self
    rw [List.cons_append, linesFrom, if_neg hlf, if_neg hcr,
      ih (fun d hd => h d (List.mem_cons_of_mem _ hd)) _ (.inr rfl), List.append_assoc]
    rfl

/-- A line and its LF. -/
theorem lines_line {l : List Char} (h : OneLine l) (cs : List Char) :
    lines (l ++ '\n' :: cs) = l :: lines cs := by
  rw [lines, linesFrom_append h _ _ (.inr rfl), linesFrom]
  rfl

/-- Two line ends in a row leave a blank line, with no more in the lines before
it than stands before them. -/
theorem linesFrom_blank (u cs cur : List Char) (afterCR : Bool) (hcur : afterCR = true → cur = []) :
    ∃ ls tail, linesFrom afterCR cur (u ++ '\n' :: '\n' :: cs) = ls ++ [] :: tail ∧
      (ls.map List.length).sum ≤ cur.length + u.length := by
  induction u generalizing cur afterCR with
  | nil =>
    cases afterCR with
    | false => exact ⟨[cur], lines cs, rfl, by simp⟩
    | true =>
      obtain rfl := hcur rfl
      exact ⟨[], lines cs, rfl, by simp⟩
  | cons c u ih =>
    rw [List.cons_append, linesFrom]
    split
    · split
      · rename_i hcr
        obtain ⟨ls, tail, hls, hlen⟩ := ih cur false nofun
        refine ⟨ls, tail, hls, ?_⟩
        rw [List.length_cons]
        omega
      · obtain ⟨ls, tail, hls, hlen⟩ := ih [] false nofun
        refine ⟨cur :: ls, tail, by rw [hls]; rfl, ?_⟩
        simp only [List.map_cons, List.sum_cons, List.length_cons, List.length_nil] at hlen ⊢
        omega
    · split
      · obtain ⟨ls, tail, hls, hlen⟩ := ih [] true fun _ => rfl
        refine ⟨cur :: ls, tail, by rw [hls]; rfl, ?_⟩
        simp only [List.map_cons, List.sum_cons, List.length_cons, List.length_nil] at hlen ⊢
        omega
      · obtain ⟨ls, tail, hls, hlen⟩ := ih (cur ++ [c]) false nofun
        refine ⟨ls, tail, hls, ?_⟩
        rw [List.length_append, List.length_singleton] at hlen
        rw [List.length_cons]
        omega

/-! ## Fields -/

theorem valueOf_length {line : List Char} (h : fieldOf line = "data".toList) :
    (valueOf line).length + 1 ≤ line.length := by
  have hsplit := congrArg List.length (List.takeWhile_append_dropWhile
    (p := (· ≠ ':')) (l := line))
  have hfield : (line.takeWhile (· ≠ ':')).length = 4 := congrArg List.length h
  rw [List.length_append, hfield] at hsplit
  unfold valueOf
  split
  · rename_i hdrop
    rw [hdrop] at hsplit
    simp only [List.length_cons] at hsplit
    omega
  · rename_i hdrop
    rw [hdrop] at hsplit
    simp only [List.length_cons] at hsplit
    omega
  · simp only [List.length_nil]
    omega

/-- A line adds no more than it holds. -/
theorem collect_length (b : Buffers) (line : List Char) : b.data.length ≤
    (b.collect line).data.length ∧ (b.collect line).data.length ≤ b.data.length + line.length := by
  unfold Buffers.collect
  split
  · exact ⟨Nat.le_refl _, Nat.le_add_right ..⟩
  · split
    · exact ⟨Nat.le_refl _, Nat.le_add_right ..⟩
    · split
      · rename_i hfield
        have := valueOf_length hfield
        simp only [List.length_append, List.length_singleton]
        omega
      · exact ⟨Nat.le_refl _, Nat.le_add_right ..⟩

/-- A blank line dispatches the data collected. -/
theorem dispatches_blank {b : Buffers} (hb : 0 < b.data.length) (ls : List (List Char)) :
    dispatches b ([] :: ls) =
      (if b.eventType = [] then "message".toList else b.eventType, b.data.dropLast) ::
        dispatches empty ls := by
  rw [dispatches, Buffers.dispatch, if_neg (List.length_pos_iff.mp hb)]
  rfl

/-- With data collected, the lines up to a blank one dispatch an event, whose
data is no longer than what was collected and the lines together. -/
theorem dispatches_length {b : Buffers} (hb : 0 < b.data.length) (ls tail : List (List Char)) :
    ∃ e es, dispatches b (ls ++ [] :: tail) = e :: es ∧
      e.2.length + 1 ≤ b.data.length + (ls.map List.length).sum := by
  induction ls generalizing b with
  | nil =>
    refine ⟨_, _, dispatches_blank hb tail, ?_⟩
    simp only [List.length_dropLast, List.map_nil, List.sum_nil]
    omega
  | cons l ls ih =>
    cases l with
    | nil =>
      refine ⟨_, _, dispatches_blank hb (ls ++ [] :: tail), ?_⟩
      simp only [List.length_dropLast]
      omega
    | cons c l =>
      obtain ⟨hmore, hless⟩ := collect_length b (c :: l)
      obtain ⟨e, es, he, hlen⟩ := ih (b := b.collect (c :: l)) (Nat.lt_of_lt_of_le hb hmore)
      refine ⟨e, es, he, ?_⟩
      rw [List.map_cons, List.sum_cons]
      omega

/-! ## A text that is still arriving -/

theorem linesFrom_mono (afterCR : Bool) (cur : List Char) {text text' : List Char}
    (h : text <+: text') : linesFrom afterCR cur text <+: linesFrom afterCR cur text' := by
  obtain ⟨rest, rfl⟩ := h
  induction text generalizing afterCR cur with
  | nil => exact List.nil_prefix
  | cons c text ih =>
    rw [List.cons_append, linesFrom, linesFrom]
    split
    · split
      · exact ih _ _
      · exact List.prefix_cons_inj _ |>.mpr (ih _ _)
    · split
      · exact List.prefix_cons_inj _ |>.mpr (ih _ _)
      · exact ih _ _

theorem dispatches_mono (b : Buffers) {ls ls' : List (List Char)} (h : ls <+: ls') :
    dispatches b ls <+: dispatches b ls' := by
  obtain ⟨rest, rfl⟩ := h
  induction ls generalizing b with
  | nil => exact List.nil_prefix
  | cons l ls ih =>
    cases l with
    | nil => exact List.prefix_append_right_inj _ |>.mpr (ih _)
    | cons c l => exact ih _

/-- More text dispatches more events, after those already dispatched. -/
theorem parse_mono {text text' : List Char} (h : text <+: text') :
    parse text <+: parse text' :=
  dispatches_mono _ (linesFrom_mono _ _ h)

/-- A character within a line does not end it. -/
theorem parse_unended (text : List Char) {c : Char} (hc : c ≠ '\n' ∧ c ≠ '\r') :
    parse (text ++ [c]) = parse text := by
  have hlines : ∀ afterCR cur, linesFrom afterCR cur (text ++ [c]) = linesFrom afterCR cur text := by
    induction text with
    | nil =>
      intro afterCR cur
      simp [linesFrom, hc.1, hc.2]
    | cons d text ih =>
      intro afterCR cur
      simp only [List.cons_append, linesFrom, ih]
  rw [parse, lines, hlines, parse, lines]

end TradePulse.Core.EventStream
