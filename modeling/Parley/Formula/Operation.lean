import Parley.Formula.Fault
import Parley.Formula.Outcome
import Parley.Formula.Registry

/-!
# Operations on objects

Operations never change their operands. Each one either names an object that
exists already, asks for a new one, or has no result for operands of these
kinds. Integers have 64 bits and wrap around; division truncates towards zero.

- `Content`, `Yield`: what an operation asks for, before an identifier is given.
- `Yield.settle`: gives the next identifier to a new object.
- `Object.plus`, `Object.minus`, `Object.negate`: operations on one object.
- `Object.apply`: operations on two objects, by `BinaryOp`.
- `Object.member`: looking a live object up through the view.
-/

namespace Parley.Formula

/-- What a new object holds. -/
inductive Content where
  | integer (value : Int64)
  | array (items : List (Option Object))
  | bare

/-- The object with this content and identifier. -/
def Content.publish (id : ObjectId) : Content → Object
  | .integer value => .integer id value
  | .array items => .array id items
  | .bare => .bare id

@[simp] theorem Content.id_publish (id : ObjectId) (content : Content) :
    (content.publish id).id = id := by
  cases content <;> rfl

/-- What an operation results in. -/
inductive Yield where
  /-- An object that was there before. -/
  | existing (object : Object)
  /-- A new object. -/
  | fresh (content : Content)

/-- The object itself, and the identifier that is next after it. Only a new
object takes an identifier. -/
def Yield.settle (next : ObjectId) : Yield → Object × ObjectId
  | .existing object => (object, next)
  | .fresh content => (content.publish next, next + 1)

theorem Yield.le_settle_next (next : ObjectId) (yielded : Yield) :
    next ≤ (yielded.settle next).2 := by
  cases yielded <;> simp [settle]

/-- The operations on two objects. -/
inductive BinaryOp where
  | add
  | subtract
  | multiply
  | divide
  | modulo
  | and
  | or
  | xor
  deriving DecidableEq

namespace Object

/-! ## Operations on one object -/

/-- An integer is its own positive. -/
def plus : Object → Option Yield
  | .integer id value => some (.existing (.integer id value))
  | _ => none

def minus : Object → Option Yield
  | .integer _ value => some (.fresh (.integer (-value)))
  | _ => none

def negate : Object → Option Yield
  | .boolean value => some (.existing (.boolean !value))
  | _ => none

/-! ## Operations on two objects -/

/-- Combines two integers into a new one. -/
def arithmetic (f : Int64 → Int64 → Int64) (a b : Object) : Option Yield :=
  match a, b with
  | .integer _ x, .integer _ y => some (.fresh (.integer (f x y)))
  | _, _ => none

/-- Combines two integers, of which the second is a divisor. A divisor of zero
is a fault; operands that are not integers are not. -/
def quotient (f : Int64 → Int64 → Int64) (a b : Object) : Outcome Fault Yield :=
  match a, b with
  | .integer _ x, .integer _ y =>
    if y = 0 then .fault .divisionByZero else .found (.fresh (.integer (f x y)))
  | _, _ => .missing

/-- Combines two truth values into one of the singletons. -/
def logic (f : Bool → Bool → Bool) (a b : Object) : Option Yield :=
  match a, b with
  | .boolean x, .boolean y => some (.existing (.boolean (f x y)))
  | _, _ => none

/-- The sum of two integers, or two arrays one after the other. Appending an
empty array yields the first array itself. -/
def add (a b : Object) : Option Yield :=
  match a, b with
  | .array id items, .array _ [] => some (.existing (.array id items))
  | .array _ xs, .array _ ys => some (.fresh (.array (xs ++ ys)))
  | a, b => arithmetic (· + ·) a b

def subtract : Object → Object → Option Yield :=
  arithmetic (· - ·)

def multiply : Object → Object → Option Yield :=
  arithmetic (· * ·)

def divide : Object → Object → Outcome Fault Yield :=
  quotient (· / ·)

/-- The remainder has the sign of the dividend. -/
def modulo : Object → Object → Outcome Fault Yield :=
  quotient (· % ·)

def conjunction : Object → Object → Option Yield :=
  logic (· && ·)

def disjunction : Object → Object → Option Yield :=
  logic (· || ·)

def exclusion : Object → Object → Option Yield :=
  logic (· != ·)

/-- The operation that `op` stands for. -/
def apply (op : BinaryOp) (a b : Object) : Outcome Fault Yield :=
  match op with
  | .add => .ofOption (a.add b)
  | .subtract => .ofOption (a.subtract b)
  | .multiply => .ofOption (a.multiply b)
  | .divide => a.divide b
  | .modulo => a.modulo b
  | .and => .ofOption (a.conjunction b)
  | .or => .ofOption (a.disjunction b)
  | .xor => .ofOption (a.exclusion b)

/-! ## Member access -/

/-- The live object that an integer names as a member of the view. The two
operands are alive while they are looked at, whatever else is `held`. -/
def member (held : List Object) (a b : Object) : Option Object :=
  match a, b with
  | .view, .integer id value =>
    if value < 0 then none
    else Registry.lookup (.integer id value :: held) value.toInt.toNat
  | _, _ => none

end Object

end Parley.Formula
