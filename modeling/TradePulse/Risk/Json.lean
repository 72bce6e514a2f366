import TradePulse.Core.Prog
import Mathlib.Algebra.Group.Int.Defs
import Mathlib.Algebra.GroupWithZero.Defs

/-! # Python values at the edges of the risk engine

What `json.loads` returns, what Python and SQLite make of it, and the float
operations the engine uses. Floats are any type with those operations, so that
a result holds for doubles and for exact arithmetic alike. -/
namespace TradePulse.Risk

/-- Exceptions, as far as a handler tells them apart. -/
inductive PyError where
  | AttributeError
  | TypeError
  | ValueError
  | OverflowError
  | RecursionError
  /-- SQLite has no type for a bound value. -/
  | InterfaceError
  /-- A constraint failed and the statement does not ignore it. -/
  | IntegrityError
  /-- redis-py refuses an argument. -/
  | DataError
  | RedisError
  deriving DecidableEq

/-- The operations on floats. `none` and `error` are where Python raises. -/
class PyFloat (F : Type) extends Zero F, Add F, Sub F, Mul F, Div F where
  /-- `float(n)`; too large an integer overflows. -/
  ofInt : Int → Option F
  /-- `float(s)`. -/
  ofString : String → Option F
  isNaN : F → Bool
  isInf : F → Bool
  isZero : F → Bool
  lt : F → F → Bool
  /-- Comparison with an integer, which Python does exactly. -/
  ltInt : F → Int → Bool
  abs : F → F
  /-- `round(x, digits)`. -/
  round : F → Nat → F
  /-- `sum(xs)`, which starts from 0. -/
  sum : List F → F
  /-- `SUM` over a `REAL` column: NULL of no row, and NULL for a sum that is NaN. -/
  sumColumn : List F → Option F
  /-- `statistics.mean` and `statistics.pstdev`. -/
  mean : List F → Except PyError F
  pstdev : List F → Except PyError F
  /-- The text SQLite makes of a real in a `TEXT` column. -/
  toText : F → String
  /-- The literals `1.65` and `1000.0`. -/
  z95 : F
  thousand : F

def PyFloat.isFinite {F : Type} [PyFloat F] (x : F) : Bool := !isNaN x && !isInf x

/-- A string that no UTF-8 text holds (lone surrogates) is kept apart. -/
inductive Json (F : Type) where
  | null
  | bool (b : Bool)
  | int (n : Int)
  | float (x : F)
  | str (s : String)
  | surrogates (codePoints : List Nat)
  | arr (xs : List (Json F))
  | obj (kvs : List (String × Json F))

namespace Json

variable {F : Type} [PyFloat F]

/-- `bool(x)`. -/
def truthy : Json F → Bool
  | .null => false
  | .bool b => b
  | .int n => n ≠ 0
  | .float x => !PyFloat.isZero x
  | .str s => s ≠ ""
  | .surrogates _ => true
  | .arr xs => !xs.isEmpty
  | .obj kvs => !kvs.isEmpty

theorem truthy_str {s : String} : (str s : Json F).truthy = true ↔ s ≠ "" := by
  simp [truthy]

/-- `x or y`. -/
def or (x y : Json F) : Json F := if x.truthy then x else y

/-- `x.get(key)`, which only a dict has. -/
def get (key : String) : Json F → Except PyError (Json F)
  | .obj kvs => .ok ((kvs.lookup key).getD .null)
  | _ => .error .AttributeError

/-- `float(x)`. -/
def toFloat : Json F → Except PyError F
  | .bool b => .ok (if b then (PyFloat.ofInt 1).getD 0 else 0)
  | .int n => match PyFloat.ofInt n with
    | some x => .ok x
    | none => .error .OverflowError
  | .float x => .ok x
  | .str s => match PyFloat.ofString s with
    | some x => .ok x
    | none => .error .ValueError
  | .surrogates _ => .error .ValueError
  | .null | .arr _ | .obj _ => .error .TypeError

/-- `_as_float`. -/
def asFloat (value : Json F) : Except PyError (Option F) :=
  match value with
  | .null => .ok none
  | value => match value.toFloat with
    | .ok x => .ok (some x)
    | .error .TypeError | .error .ValueError => .ok none
    | .error e => .error e

/-- The value as SQLite holds it in a `TEXT` column, or compares it with one:
`none` is NULL. -/
def bindText : Json F → Except PyError (Option String)
  | .null => .ok none
  | .bool b => .ok (some (if b then "1" else "0"))
  | .int n => if -2 ^ 63 ≤ n ∧ n < 2 ^ 63 then .ok (some (toString n)) else .error .OverflowError
  | .float x => .ok (if PyFloat.isNaN x then none else some (PyFloat.toText x))
  | .str s => .ok (some s)
  | .surrogates _ => .error .ValueError
  | .arr _ | .obj _ => .error .InterfaceError

end Json

/-- The value as SQLite holds it in a `REAL` column. -/
def bindReal {F : Type} [PyFloat F] (x : F) : Option F := if PyFloat.isNaN x then none else some x

end TradePulse.Risk
