import Parley.Formula.Operation
import Parley.Formula.Rule
import Parley.Formula.Token

/-!
# Formulas

The grammar of formulas. A formula is evaluated while it is read:

```text
statement  := expression ';'?
expression := sum ( ('&' | '|' | '^') sum )*
sum        := product ( ('+' | '-') product )*
product    := unary ( ('*' | '/' | '%') unary )*
unary      := value ( '.' value )? | ('+' | '-') unary | '!' unary
value      := '(' expression ')' | literal
literal    := array | 'null' | 'newobj' | 'allobj' | 'true' | 'false' | integer
array      := '[' ( expression ( ',' expression )* )? ']'
```

Parentheses, arrays, signs and `!` each open one level of nesting, of which a
cursor allows `maxNesting`; a formula that nests deeper is not one. Every rule
that calls itself does so one level further in, so that the rules are defined by
recursion on the number of levels that are left.

An object that a rule still needs is alive while the rest of the formula is read.
The rules therefore know the objects `held` around them.

- `statement`, `expression`, `literal`: the rules.
- `parse`: evaluates a whole text.
-/

namespace Parley.Formula

/-- Rules of the grammar; the state is the next identifier. -/
abbrev GrammarRule := Rule ObjectId Fault Object

/-- Takes what an operation results in, giving it an identifier if it is new. -/
def settle (yielded : Yield) : GrammarRule :=
  .withState fun next => yielded.settle next

def skipSpaces : Rule ObjectId Fault Unit :=
  .move Cursor.skipSpaces

/-- Takes the next character, whatever it is. -/
def advance : Rule ObjectId Fault Unit :=
  .move fun c => c.advance.2

/-- Takes a character that has to be next. -/
def expectChar (c : Char) : Rule ObjectId Fault Unit :=
  .expect (Cursor.advanceIf c)

/-- Takes a character if it is next. -/
def acceptChar (c : Char) : Rule ObjectId Fault Bool :=
  .choose (Cursor.advanceIf c)

/-! ## Chains of operators -/

/-- The operators of each level of precedence, by symbol. -/
def logicalOperator? (c : Char) : Option BinaryOp :=
  if c = '&' then some .and else if c = '|' then some .or else if c = '^' then some .xor
  else none

def additiveOperator? (c : Char) : Option BinaryOp :=
  if c = '+' then some .add else if c = '-' then some .subtract else none

def multiplicativeOperator? (c : Char) : Option BinaryOp :=
  if c = '*' then some .multiply else if c = '/' then some .divide
  else if c = '%' then some .modulo else none

/-- Goes on with a chain of which `left` is the value so far. An operator without
a right operand is left unread; operands that an operator does not support fail
the chain. Each step reads an operator, so there are at most as many steps as
characters in `room`, which is what was left at the beginning. -/
def chainFrom (operator? : Char → Option BinaryOp) (operand : List Object → GrammarRule)
    (held : List Object) : (room : List Char) → (left : Object) → GrammarRule
  | [], left => pure left
  | _ :: room, left => do
    skipSpaces
    match (← .look Cursor.peek).bind operator? with
    | none => pure left
    | some op =>
      let right? ← Rule.optional <| .attempt do
        advance
        operand (left :: held)
      match right? with
      | none => pure left
      | some right =>
        let yielded ← Rule.ofOutcome (left.apply op right)
        chainFrom operator? operand held room (← settle yielded)

/-- A chain of operands and operators, evaluated from left to right. -/
def chain (operator? : Char → Option BinaryOp) (operand : List Object → GrammarRule)
    (held : List Object) : GrammarRule :=
  .attempt do
    let first ← operand held
    chainFrom operator? operand held (← .look Cursor.rest) first

/-- An expression over the operands that `unary` reads. -/
def expressionOver (unary : List Object → GrammarRule) (held : List Object) : GrammarRule :=
  chain logicalOperator? (chain additiveOperator? (chain multiplicativeOperator? unary)) held

/-! ## Values

The rules below take the rule for the operands one level further in. -/

/-- The items of an array after its first bracket; those read so far are held as
well. Each takes a comma or the last bracket, so that `room` bounds their number. -/
def itemsFrom (expression : List Object → GrammarRule) (held : List Object) :
    (room : List Char) → (items : List Object) → Rule ObjectId Fault (List Object)
  | [], _ => .missing
  | _ :: room, items => do
    let item ← expression held
    skipSpaces
    if ← acceptChar ',' then
      itemsFrom expression (item :: held) room (item :: items)
    else do
      expectChar ']'
      pure (item :: items).reverse

def array (expression : List Object → GrammarRule) (held : List Object) : GrammarRule := do
  expectChar '['
  skipSpaces
  let items ←
    if ← acceptChar ']' then pure []
    else itemsFrom expression held (← .look Cursor.rest) []
  settle (.fresh (.array (items.map some)))

def parenthesized (expression : List Object → GrammarRule) (held : List Object) :
    GrammarRule := do
  skipSpaces
  expectChar '('
  let value ← expression held
  skipSpaces
  expectChar ')'
  pure value

/-- A keyword that stands for an object. -/
def constant (word : String) (yielded : Yield) : GrammarRule := do
  Rule.expect (Cursor.keyword word.toList)
  settle yielded

/-- An array, a keyword or an integer. The spaces before it are skipped even if
there is none. -/
def literalOver (expression : List Object → GrammarRule) (held : List Object) :
    GrammarRule := do
  skipSpaces
  .nested (array expression held)
    <|> constant "null" (.existing .null)
    <|> constant "newobj" (.fresh .bare)
    <|> constant "allobj" (.existing .view)
    <|> constant "true" (.existing (.boolean true))
    <|> constant "false" (.existing (.boolean false))
    <|> (do settle (.fresh (.integer (← .read Cursor.integer))))

def valueOver (expression : List Object → GrammarRule) (held : List Object) : GrammarRule :=
  .nested (parenthesized expression held) <|> literalOver expression held

/-- A value, or a member of one. A point without a member after it is left
unread; a member that does not exist fails the rule. -/
def memberOver (expression : List Object → GrammarRule) (held : List Object) :
    GrammarRule := do
  let base ← valueOver expression held
  let member? ← Rule.optional <| .attempt do
    skipSpaces
    expectChar '.'
    valueOver expression (base :: held)
  match member? with
  | none => pure base
  | some member => Rule.ofOutcome (.ofOption (base.member held member))

def signed (unary : List Object → GrammarRule) (held : List Object) : GrammarRule := do
  skipSpaces
  let sign ← .read Cursor.sign
  let operand ← unary held
  let yielded ← Rule.ofOutcome <| .ofOption <|
    match sign with
    | .plus => operand.plus
    | .minus => operand.minus
  settle yielded

def negated (unary : List Object → GrammarRule) (held : List Object) : GrammarRule := do
  skipSpaces
  expectChar '!'
  let operand ← unary held
  settle (← .ofOutcome (.ofOption operand.negate))

/-! ## The rules -/

/-- An operand that nests at most `levels` levels. -/
def unary : (levels : Nat) → (held : List Object) → GrammarRule
  | 0, _ => .missing
  | levels + 1, held =>
    .attempt (memberOver (expressionOver (unary levels)) held)
      <|> .nested (signed (unary levels) held)
      <|> .nested (negated (unary levels) held)

/-- The levels of recursion that suffice on every cursor: the innermost of the
nested rules needs one more than there are levels of nesting. -/
def maxLevels : Nat := maxNesting + 1

def expression (held : List Object) : GrammarRule :=
  expressionOver (unary maxLevels) held

def literal (held : List Object) : GrammarRule :=
  literalOver (expressionOver (unary maxNesting)) held

/-- An expression with an optional semicolon after it. -/
def statement (held : List Object) : GrammarRule :=
  .attempt do
    let value ← expression held
    skipSpaces
    let _ ← acceptChar ';'
    pure value

/-- Evaluates a text, which has to be one statement, while `held` is alive and
`next` is the next identifier. -/
def parse (held : List Object) (text : String) (next : ObjectId) :
    Except Fault Object × ObjectId :=
  let (outcome, stopped, next) := statement held (.ofText text.toList) next
  let stopped := stopped.skipSpaces
  match outcome with
  | .fault cause => (.error cause, next)
  | .found value =>
    if stopped.isAtEnd then (.ok value, next)
    else (.error (.notAFormula (String.ofList stopped.rest)), next)
  | .missing => (.error (.notAFormula (String.ofList stopped.rest)), next)

end Parley.Formula
