import Parley.Formula.Grammar

/-!
# Tables of objects

A table holds objects in numbered slots. Its steps make objects, combine those in
its slots, and empty slots again; whatever is in a slot, or inside such an object,
is alive.

- `Table`: the slots and the next identifier.
- `Table.Step`, `Table.Answer`: what can be done, and what it answers.
- `Table.step`: does it.
-/

namespace Parley.Formula

/-- Objects in numbered slots. A slot may be empty. -/
structure Table where
  slots : List (Option Object)
  next : ObjectId

namespace Table

/-- The table without slots, before any object was made. -/
def empty : Table where
  slots := []
  next := Object.firstFreshId

/-- The objects that the table holds. -/
def held (t : Table) : List Object :=
  t.slots.filterMap fun slot => slot

/-- The number of live objects. -/
def live (t : Table) : Nat :=
  Registry.size t.held

/-- The object in a slot. -/
def object? (t : Table) (slot : Nat) : Option Object :=
  (t.slots[slot]?).join

/-- The operations on one object. -/
inductive UnaryOp where
  | clone
  | plus
  | minus
  | negate

/-- What can be done with a table. Slots are given by number. -/
inductive Step where
  | singleton (object : Object)
  | make (content : Content)
  /-- An array of what is in the slots given. -/
  | makeArray (items : List (Option Nat))
  | unary (op : UnaryOp) (a : Nat)
  | binary (op : BinaryOp) (a b : Nat)
  | member (a b : Nat)
  | lookup (id : ObjectId)
  | parse (text : String)
  | equal (a b : Nat)
  /-- Reads an object as an integer and as a truth value. -/
  | scalar (a : Nat)
  | drop (a : Nat)

/-- What a step answers. -/
inductive Answer where
  /-- A slot was added; it is empty if there was no result. -/
  | added (slot : Nat) (object : Option Object)
  | failed (fault : Fault)
  | equal (same : Bool)
  | scalar (integer : Option Int64) (boolean : Option Bool)
  | dropped
  /-- The step named a slot with nothing in it. -/
  | emptySlot

/-- Adds a slot. -/
def add (t : Table) (object : Option Object) : Answer × Table :=
  (.added t.slots.length object, { t with slots := t.slots ++ [object] })

/-- Adds a slot for what an operation results in. -/
def addYield (t : Table) : Outcome Fault Yield → Answer × Table
  | .found yielded =>
    let (object, next) := yielded.settle t.next
    { t with next }.add (some object)
  | .missing => t.add none
  | .fault cause => (.failed cause, t)

/-- What an operation on one object results in. -/
def UnaryOp.apply (op : UnaryOp) (a : Object) : Option Yield :=
  match op with
  | .clone => some (.existing a)
  | .plus => a.plus
  | .minus => a.minus
  | .negate => a.negate

/-- Goes on with the object in a slot. -/
def withObject (t : Table) (a : Nat) (f : Object → Answer × Table) : Answer × Table :=
  match t.object? a with
  | some object => f object
  | none => (.emptySlot, t)

/-- Goes on with the objects in two slots. -/
def withObjects (t : Table) (a b : Nat) (f : Object → Object → Answer × Table) :
    Answer × Table :=
  t.withObject a fun x => t.withObject b fun y => f x y

/-- Does one step. -/
def step (t : Table) : Step → Answer × Table
  | .singleton object => t.add (some object)
  | .make content => t.addYield (.found (.fresh content))
  | .makeArray items =>
    t.addYield (.found (.fresh (.array (items.map fun item => item.bind t.object?))))
  | .unary op a => t.withObject a fun x => t.addYield (.ofOption (op.apply x))
  | .binary op a b => t.withObjects a b fun x y => t.addYield (x.apply op y)
  | .member a b => t.withObjects a b fun x y => t.add (x.member t.held y)
  | .lookup id => t.add (Registry.lookup t.held id)
  | .parse text =>
    match Formula.parse t.held text t.next with
    | (.ok value, next) => { t with next }.add (some value)
    | (.error fault, next) => (.failed fault, { t with next })
  | .equal a b => t.withObjects a b fun x y => (.equal (x.equal y), t)
  | .scalar a => t.withObject a fun x => (.scalar x.integer? x.boolean?, t)
  | .drop a => (.dropped, { t with slots := t.slots.set a none })

/-- Does steps one after the other, giving each answer with the number of live
objects after it. -/
def run (t : Table) : List Step → List (Answer × Nat)
  | [] => []
  | s :: steps =>
    let (answer, t) := t.step s
    (answer, t.live) :: t.run steps

end Table

end Parley.Formula
