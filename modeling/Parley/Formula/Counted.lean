import Parley.Formula.Heap
import Parley.Formula.Reply
import Parley.Formula.Table

/-!
# Formulas with counted references

The rules of the grammar once more, as they deal with memory. A rule that finds an object
hands over one reference to it. What a rule was holding when it finds nothing, or when a
fault ends it, it gives up; what it used for the last time it gives up as well. The state
of the rules is the heap, so that nobody has to tell them which objects are alive.

- `keeping`, `spending`: references that are given up at the end of a rule.
- `expression`, `statement`, `parse`: the rules and the evaluation of a whole text.
- `runLine`, `replyLine`: the replies to lines.
- `Slots`: tables of objects with counted references.
-/

namespace Parley.Formula.Counted

/-- Rules that take references to objects. -/
abbrev CountedRule := Rule Heap Fault Object

section References

variable {α : Type}

/-- Gives references up unless the rule finds something. -/
def keeping (objects : List Object) (rule : Rule Heap Fault α) : Rule Heap Fault α :=
  fun c h =>
    match rule c h with
    | (.found value, c, h) => (.found value, c, h)
    | (outcome, c, h) => (outcome, c, h.release objects)

/-- Gives references up after the rule. -/
def spending (objects : List Object) (rule : Rule Heap Fault α) : Rule Heap Fault α :=
  fun c h =>
    match rule c h with
    | (outcome, c, h) => (outcome, c, h.release objects)

end References

/-- Takes a reference to what an operation results in. -/
def settle (yielded : Yield) : CountedRule :=
  .withState fun h => h.settle yielded

/-- Makes an object that takes over the references to its items. -/
def publish (content : Content) : CountedRule :=
  .withState fun h => h.publish content

/-- Looks a member of an object up. -/
def member (base key : Object) : CountedRule :=
  fun c h =>
    let object? := h.member base key
    (.ofOption object?, c, h.retain? object?)

def skipSpaces : Rule Heap Fault Unit :=
  .move Cursor.skipSpaces

def advance : Rule Heap Fault Unit :=
  .move fun c => c.advance.2

def expectChar (c : Char) : Rule Heap Fault Unit :=
  .expect (Cursor.advanceIf c)

def acceptChar (c : Char) : Rule Heap Fault Bool :=
  .choose (Cursor.advanceIf c)

/-! ## Chains of operators -/

section Chains

variable (operator? : Char → Option BinaryOp) (operand : CountedRule)

/-- Goes on with a chain of which `left` is the value so far. -/
def chainFrom : (room : List Char) → (left : Object) → CountedRule
  | [], left => pure left
  | _ :: room, left => do
    skipSpaces
    match (← .look Cursor.peek).bind operator? with
    | none => pure left
    | some op =>
      let right? ← keeping [left] <| Rule.optional <| .attempt do
        advance
        operand
      match right? with
      | none => pure left
      | some right =>
        let value ← spending [left, right] do
          settle (← .ofOutcome (left.apply op right))
        chainFrom room value

def chain : CountedRule :=
  .attempt do
    let first ← operand
    chainFrom operator? operand (← .look Cursor.rest) first

end Chains

def expressionOver (unary : CountedRule) : CountedRule :=
  chain logicalOperator? (chain additiveOperator? (chain multiplicativeOperator? unary))

/-! ## Values -/

section Values

variable (expression : CountedRule)

/-- The items of an array after its first bracket; those read so far are kept. -/
def itemsFrom : (room : List Char) → (items : List Object) → Rule Heap Fault (List Object)
  | [], items => keeping items.reverse .missing
  | _ :: room, items => do
    let item ← keeping items.reverse expression
    skipSpaces
    if ← acceptChar ',' then itemsFrom room (item :: items)
    else do
      keeping (item :: items).reverse (expectChar ']')
      pure (item :: items).reverse

def array : CountedRule := do
  expectChar '['
  skipSpaces
  let items ←
    if ← acceptChar ']' then pure []
    else itemsFrom expression (← .look Cursor.rest) []
  publish (.array (items.map some))

def parenthesized : CountedRule := do
  skipSpaces
  expectChar '('
  let value ← expression
  keeping [value] do
    skipSpaces
    expectChar ')'
  pure value

def constant (word : String) (yielded : Yield) : CountedRule := do
  Rule.expect (Cursor.keyword word.toList)
  settle yielded

def literalOver : CountedRule := do
  skipSpaces
  .nested (array expression)
    <|> constant "null" (.existing .null)
    <|> constant "newobj" (.fresh .bare)
    <|> constant "allobj" (.existing .view)
    <|> constant "true" (.existing (.boolean true))
    <|> constant "false" (.existing (.boolean false))
    <|> (do settle (.fresh (.integer (← .read Cursor.integer))))

def valueOver : CountedRule :=
  .nested (parenthesized expression) <|> literalOver expression

def memberOver : CountedRule := do
  let base ← valueOver expression
  let key? ← keeping [base] <| Rule.optional <| .attempt do
    skipSpaces
    expectChar '.'
    valueOver expression
  match key? with
  | none => pure base
  | some key => spending [key, base] (member base key)

end Values

section Signs

variable (unary : CountedRule)

def signed : CountedRule := do
  skipSpaces
  let sign ← .read Cursor.sign
  let operand ← unary
  spending [operand] do
    let yielded ← Rule.ofOutcome <| .ofOption <|
      match sign with
      | .plus => operand.plus
      | .minus => operand.minus
    settle yielded

def negated : CountedRule := do
  skipSpaces
  expectChar '!'
  let operand ← unary
  spending [operand] do
    settle (← .ofOutcome (.ofOption operand.negate))

end Signs

/-! ## The rules -/

/-- An operand that nests at most `levels` levels. -/
def unary : (levels : Nat) → CountedRule
  | 0 => .missing
  | levels + 1 =>
    .attempt (memberOver (expressionOver (unary levels)))
      <|> .nested (signed (unary levels))
      <|> .nested (negated (unary levels))

def expression : CountedRule :=
  expressionOver (unary maxLevels)

def statement : CountedRule :=
  .attempt do
    let value ← expression
    skipSpaces
    let _ ← acceptChar ';'
    pure value

/-- Evaluates a text, which has to be one statement. Whoever asked for the value has a
reference to it. -/
def parse (text : String) (h : Heap) : Except Fault Object × Heap :=
  let (outcome, stopped, h) := statement (.ofText text.toList) h
  let stopped := stopped.skipSpaces
  match outcome with
  | .fault cause => (.error cause, h)
  | .found value =>
    if stopped.isAtEnd then (.ok value, h)
    else (.error (.notAFormula (String.ofList stopped.rest)), h.release [value])
  | .missing => (.error (.notAFormula (String.ofList stopped.rest)), h)

/-! ## Replies -/

/-- The reply to one line. The value is given up once it is printed. -/
def runLine (line : String) (h : Heap) : Except Fault String × Heap :=
  match parse line h with
  | (.ok value, h) => (.ok value.code, h.release [value])
  | (.error (.notAFormula _), h) => (.ok (invalidMarker ++ line), h)
  | (.error .divisionByZero, h) => (.error .divisionByZero, h)

/-- The reply to one line; every line has one. -/
def replyLine (line : String) (h : Heap) : String × Heap :=
  match runLine line h with
  | (.ok reply, h) => (reply, h)
  | (.error fault, h) => (faultNotice fault line, h)

/-! ## Tables -/

/-- Objects in numbered slots, each slot with a reference to its object. -/
structure Slots where
  slots : List (Option Object)
  heap : Heap

namespace Slots

/-- The table without slots, before any object was made. -/
def empty : Slots where
  slots := []
  heap := Heap.start

/-- The objects in the slots. -/
def held (t : Slots) : List Object :=
  t.slots.filterMap fun slot => slot

def object? (t : Slots) (slot : Nat) : Option Object :=
  (t.slots[slot]?).join

/-- Adds a slot that takes over a reference. -/
def add (t : Slots) (object : Option Object) : Table.Answer × Slots :=
  (.added t.slots.length object, { t with slots := t.slots ++ [object] })

/-- Adds a slot with a reference of its own. -/
def addShared (t : Slots) (object : Option Object) : Table.Answer × Slots :=
  { t with heap := t.heap.retain? object }.add object

/-- Adds a slot for what an operation results in. -/
def addYield (t : Slots) : Outcome Fault Yield → Table.Answer × Slots
  | .found yielded =>
    let (object, heap) := t.heap.settle yielded
    { t with heap }.add (some object)
  | .missing => t.add none
  | .fault cause => (.failed cause, t)

/-- Goes on with the object in a slot. -/
def withObject (t : Slots) (a : Nat) (f : Object → Table.Answer × Slots) : Table.Answer × Slots :=
  match t.object? a with
  | some object => f object
  | none => (.emptySlot, t)

/-- Goes on with the objects in two slots. -/
def withObjects (t : Slots) (a b : Nat) (f : Object → Object → Table.Answer × Slots) :
    Table.Answer × Slots :=
  t.withObject a fun x => t.withObject b fun y => f x y

/-- Does one step. -/
def step (t : Slots) : Table.Step → Table.Answer × Slots
  | .singleton object => t.addShared (some object)
  | .make content => t.addYield (.found (.fresh content))
  | .makeArray items =>
    t.addYield (.found (.fresh (.array (items.map fun item => item.bind t.object?))))
  | .unary op a => t.withObject a fun x => t.addYield (.ofOption (op.apply x))
  | .binary op a b => t.withObjects a b fun x y => t.addYield (x.apply op y)
  | .member a b => t.withObjects a b fun x y => t.addShared (t.heap.member x y)
  | .lookup id => t.addShared (t.heap.lookup id)
  | .parse text =>
    match Counted.parse text t.heap with
    | (.ok value, heap) => { t with heap }.add (some value)
    | (.error fault, heap) => (.failed fault, { t with heap })
  | .equal a b => t.withObjects a b fun x y => (.equal (x.equal y), t)
  | .scalar a => t.withObject a fun x => (.scalar x.integer? x.boolean?, t)
  | .drop a =>
    (.dropped, { slots := t.slots.set a none, heap := t.heap.release (t.object? a).toList })

/-- The table after steps, one after the other. -/
def after (t : Slots) (steps : List Table.Step) : Slots :=
  steps.foldl (fun t s => (t.step s).2) t

/-- Does steps one after the other, giving each answer with the number of keys in the
registry after it. -/
def run (t : Slots) : List Table.Step → List (Table.Answer × Nat)
  | [] => []
  | s :: steps =>
    let (answer, t) := t.step s
    (answer, t.heap.keys.length) :: t.run steps

end Slots

end Parley.Formula.Counted
