import TradePulse.Ledger.Effects

/-! # The ledger as a concurrent system

Any number of `postTrade` and `creditAccount` calls, each a READ COMMITTED
transaction, interleaved statement by statement. -/
namespace TradePulse.Ledger
open TradePulse.Core TradePulse.Core.Transactions

/-- A state of the ledger's transactions. -/
abbrev LedgerState := State Statement Statement.Result LedgerError Call Db Write Reply

abbrev LedgerTxn := Txn Statement Statement.Result LedgerError Call Write Reply

abbrev LedgerAct := Act Call Ambient

/-- One step of the concurrent ledger. -/
abbrev ledgerStep (rules : ComplianceRules) : LedgerAct → LedgerState → Option LedgerState :=
  step engine (service rules)

/-- The quantity of the call has at most four decimals. -/
def Call.ExactQuantity : Call → Prop
  | .postTrade _ req => Numeric.Exact 4 req.quantity
  | .creditAccount .. => True

instance (c : Call) : Decidable c.ExactQuantity := by
  unfold Call.ExactQuantity
  split <;> infer_instance

def exactQuantities (_ : LedgerState) : LedgerAct → Prop
  | .begin c => c.ExactQuantity
  | _ => True

instance (s : LedgerState) (a : LedgerAct) : Decidable (exactQuantities s a) := by
  unfold exactQuantities
  split <;> infer_instance

/-- The posted trades that a transaction is about to commit. -/
def postedTrades (es : List LedgerEvent) : List Trade :=
  ((writesOf es).filterMap Write.trade?).filter (·.status = .posted)

/-! ## Schedules -/

def uuid (n : Nat) : UUID := ⟨BitVec.ofNat 128 n⟩

/-- A ledger with one account and nothing booked. -/
def oneAccount (cash : Money) : Db where
  accounts := [⟨⟨"A", by decide⟩, ⟨"USD", by decide⟩, cash⟩]
  accounts_pkey := by simp
  trades := []
  journal_entries := []
  journal_lines := []
  audit_log := []
  outbox_events := []

def thousand : Money := ⟨10000000, by decide⟩

/-- The next `k` statements of transaction `n`, drawing identifiers from `base`
on, all at one clock reading. -/
def stmts (n k base : Nat) (clock : OffsetDateTime) : List LedgerAct :=
  (List.range k).map fun i => .stmt n ⟨uuid (base + i), clock⟩

/-- Thirty-two identifiers from `base` on, at one clock reading. -/
def supplyFrom (base n : Nat) : Ambient := ⟨uuid (base + n % 32), 0⟩

def buy (request : Nat) (quantity price : BigDecimal) : Call :=
  .postTrade (some "c") ⟨uuid request, "A", "X", "BUY", quantity, price, none⟩

end TradePulse.Ledger
