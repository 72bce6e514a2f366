import TradePulse.Dashboard.Provider
import TradePulse.Feed.Wire
import TradePulse.Gateway.Clients
import TradePulse.Gateway.Order

/-! # The live feed

From the entries of the Redis streams to the pages that show them: the tailer,
the broker, a handler for each connection, the bytes on their way, and the
event source of each page, which connects anew when its connection fails. All
of them take their steps in any order. -/
namespace TradePulse.Feed
open TradePulse.Core TradePulse.Core.EventStream TradePulse.Core.Runs
open TradePulse.Gateway (TailState TailAct StreamTailer Entry Message Chan BrokerRun BrokerAct
  BrokerEvent Bytes brokerStep newBroker connected eventSource)
open TradePulse.Dashboard (JsNumber Parse Page)

/-! ## Model -/

/-- `MARKET_DATA_STREAM` and `RISK_STREAM`. -/
structure Names where
  ticks : String
  risk : String
  apart : ticks ≠ risk

/-- The tailer that `main` starts. -/
def Names.tailer (n : Names) : StreamTailer where
  streams := [(n.ticks, "ticks"), (n.risk, "risk")]
  nodup := by simp [n.apart]

/-- A connection to `/stream` and its handler. -/
structure Connection where
  /-- The page that has opened it. -/
  tab : Nat
  /-- What `subscribe` has returned, or is about to. -/
  ch : Option Chan
  /-- The response has begun. -/
  greeted : Bool
  /-- The handler has returned, but for its deferred `unsubscribe`. -/
  left : Bool
  written : List Written
  /-- How many bytes of the response have reached the browser. -/
  arrived : Nat
  /-- How many of its events the page has handled. -/
  handled : Nat

def newConnection (i : Nat) : Connection := ⟨i, none, false, false, [], 0, 0⟩

/-- The body of the response so far. -/
def Connection.sent (c : Connection) : Bytes := if c.greeted then body c.written else []

/-- What the event source makes of the bytes that have arrived. -/
def Connection.events (c : Connection) : List Dispatched := eventSource (c.sent.take c.arrived)

/-- A mounted provider: the open connection of its event source, its state, and
a record of the events handled, with what the clock showed. -/
structure Tab (N : Type) where
  connection : Option Nat
  page : Page N
  handled : List (Dispatched × Nat)

structure LiveFeed (N : Type) where
  tail : TailState
  broker : BrokerRun
  connections : List Connection
  tabs : Nat → Tab N

inductive Act where
  /-- A step of the tailer, or of the streams. -/
  | tail (a : TailAct)
  /-- The next statement of the publish under way. -/
  | publish
  /-- Its `select`, for the client that comes next. -/
  | send (ch : Chan)
  /-- The event source of a page opens a connection. -/
  | connect (i : Nat)
  /-- The handler calls `subscribe`. -/
  | subscribe (n : Nat)
  /-- The next statement of the handler's call. -/
  | handler (n : Nat)
  /-- The handler begins the response. -/
  | greet (n : Nat)
  /-- The handler receives a message and writes it. -/
  | forward (n : Nat)
  | keepAlive (n : Nat)
  /-- The context of the request is done. -/
  | leave (n : Nat)
  /-- `onopen` -/
  | opened (i : Nat)
  /-- More bytes reach the browser. -/
  | arrive (i k : Nat)
  /-- The page handles the next event. -/
  | handle (i now : Nat)
  /-- The connection fails, and `onerror` says so. -/
  | fail (i : Nat)

section Step

variable {N : Type} [JsNumber N]

def LiveFeed.setConnection (w : LiveFeed N) (n : Nat) (c : Connection) : LiveFeed N :=
  { w with connections := w.connections.set n c }

def LiveFeed.setTab (w : LiveFeed N) (i : Nat) (t : Tab N) : LiveFeed N :=
  { w with tabs := Function.update w.tabs i t }

/-- Steps that are not the tailer's own. -/
def outside : TailAct → Bool
  | .append .. | .cancel => true
  | .iterate | .timeout | .error | .take => false

/-- What the loop body for the next message publishes. -/
def due (t : StreamTailer) (w : TailState) : TailAct → Option Message
  | .take => match w.phase with
    | .replied ((s, _, e) :: _) => if e.payload = "" then none else some ⟨t.eventName s, e.payload⟩
    | _ => none
  | _ => none

/-- A call of `publish` begins where one is due. -/
def announce (msg : Option Message) (b : BrokerRun) : Option BrokerRun :=
  match msg with
  | none => some b
  | some msg => brokerStep (.publish msg) b

/-- The connection whose handler is between `subscribe` and its return. -/
def LiveFeed.serving (w : LiveFeed N) (n : Nat) : Option (Connection × Chan) := do
  let c ← w.connections[n]?
  let ch ← c.ch
  if c.left = false ∧ w.broker.1.pc (.handler n) = .idle then some (c, ch) else none

/-- The open connection of a page. -/
def LiveFeed.reading (w : LiveFeed N) (i : Nat) : Option (Nat × Connection) := do
  let n ← (w.tabs i).connection
  let c ← w.connections[n]?
  return (n, c)

def step (names : Names) (parse : Parse N) : Act → LiveFeed N → Option (LiveFeed N)
  | .tail a, w =>
    -- the tailer waits for `publish` to return
    if outside a = true ∨ w.broker.1.pc .tailer = .idle then do
      let tail ← Gateway.step names.tailer a w.tail
      let broker ← announce (due names.tailer w.tail a) w.broker
      return { w with tail, broker }
    else none
  | .publish, w => do
    let broker ← brokerStep (.next .tailer) w.broker
    return { w with broker }
  | .send ch, w => do
    let broker ← brokerStep (.send ch) w.broker
    return { w with broker }
  | .connect i, w =>
    match (w.tabs i).connection with
    | some _ => none
    | none =>
      some ({ w with connections := w.connections ++ [newConnection i] }.setTab i
        { w.tabs i with connection := some w.connections.length })
  | .subscribe n, w => do
    let c ← w.connections[n]?
    if c.ch = none then
      let broker ← brokerStep (.subscribe n) w.broker
      return { w with broker }.setConnection n { c with ch := some w.broker.1.made }
    else none
  | .handler n, w => do
    let broker ← brokerStep (.next (.handler n)) w.broker
    return { w with broker }
  | .greet n, w => do
    let (c, _) ← w.serving n
    if c.greeted then none else return w.setConnection n { c with greeted := true }
  | .forward n, w => do
    let (c, ch) ← w.serving n
    let msg ← (w.broker.1.channels ch).buffer.head?
    if c.greeted then
      let broker ← brokerStep (.receive ch) w.broker
      return { w with broker }.setConnection n { c with written := c.written ++ [some msg] }
    else none
  | .keepAlive n, w => do
    let (c, _) ← w.serving n
    if c.greeted then return w.setConnection n { c with written := c.written ++ [none] } else none
  | .leave n, w => do
    let (c, ch) ← w.serving n
    if c.greeted then
      let broker ← brokerStep (.unsubscribe n ch) w.broker
      return { w with broker }.setConnection n { c with left := true }
    else none
  | .opened i, w => do
    let (_, c) ← w.reading i
    if c.greeted then
      return w.setTab i { w.tabs i with page := { (w.tabs i).page with status := .open } }
    else none
  | .arrive i k, w => do
    let (n, c) ← w.reading i
    if c.arrived + k ≤ c.sent.length then
      return w.setConnection n { c with arrived := c.arrived + k }
    else none
  | .handle i now, w => do
    let (n, c) ← w.reading i
    let e ← c.events[c.handled]?
    return (w.setConnection n { c with handled := c.handled + 1 }).setTab i
      { w.tabs i with
        page := (w.tabs i).page.handle parse e now
        handled := (w.tabs i).handled ++ [(e, now)] }
  | .fail i, w => do
    let _ ← w.reading i
    return w.setTab i { w.tabs i with
      connection := none
      page := { (w.tabs i).page with status := .reconnecting } }

/-- Streams of events on one line each, a broker without clients, and pages not
yet connected. -/
def start (w : LiveFeed N) : Prop :=
  (connected w.tail ∧ ∀ s, ∀ e ∈ w.tail.logs s, OneLine e.payload.toList) ∧
    newBroker w.broker ∧ w.connections = [] ∧ ∀ i, w.tabs i = ⟨none, Page.initial, []⟩

/-- Producers write their events on one line. -/
def oneLine (_ : LiveFeed N) : Act → Prop
  | .tail (.append _ e) => OneLine e.payload.toList
  | _ => True

instance (w : LiveFeed N) (a : Act) : Decidable (oneLine w a) := by
  unfold oneLine
  split <;> infer_instance

end Step
end TradePulse.Feed
