import Parley.Formula.Grammar

/-!
# Moves of a cursor

A cursor can be moved by hand: each of its operations and each grammar rule is a
move, and moves can be run inside `Rule.attempt` and `Rule.nested`. After each
move one sees what it answered and where the cursor is.

- `Move`, `Sight`: a move, and what is seen after it.
- `performAll`: makes moves one after the other.
-/

namespace Parley.Formula

/-- What a rule that is made up of moves comes to. -/
inductive Verdict where
  | found
  | missing
  | fault

/-- What can be done with a cursor. -/
inductive Move where
  | beginScope
  | endScope (restore : Bool)
  | skipSpaces
  | peek
  | advance
  | advanceIf (c : Char)
  | advanceIfText (pattern : String)
  | remaining
  | text
  | isIdentChar (c : Char)
  | keyword (word : String)
  | sign
  | integer
  | statement
  | expression
  | literal
  /-- Makes the inner moves as a rule of its own scope. -/
  | attempt (moves : List Move) (verdict : Verdict)
  | nested (moves : List Move) (verdict : Verdict)
  /-- Nested rules of the given depth, of which each first takes one character
  and the innermost makes the moves. -/
  | chain (depth : Nat) (moves : List Move) (verdict : Verdict)
  deriving Inhabited

/-- What a move answers. -/
inductive Answer where
  | nothing
  | flag (value : Bool)
  | char (value : Option Char)
  | chars (value : List Char)
  | sign (value : Option Sign)
  | integer (value : Option Int64)
  | object (outcome : Outcome Fault Object)
  | verdict (value : Verdict)

/-- What is seen after a move: its answer, where the cursor is, and what was seen
during the moves inside it. -/
inductive Sight where
  | mk (answer : Answer) (cursor : Cursor) (inner : Option (List Sight))

namespace Verdict

def toOutcome : Verdict → Outcome Unit Unit
  | .found => .found ()
  | .missing => .missing
  | .fault => .fault ()

def ofOutcome : Outcome Unit Unit → Verdict
  | .found _ => .found
  | .missing => .missing
  | .fault _ => .fault

end Verdict

/-- Runs a rule under `depth` nested rules, each of which first takes one
character. -/
def descend {σ ε α : Type} (rule : Rule σ ε α) : (depth : Nat) → Rule σ ε α
  | 0 => rule
  | depth + 1 => .nested fun c s => descend rule depth c.advance.2 s

/-- Moves as a rule; the state keeps what was seen. -/
def movesRule (moves : Cursor → ObjectId → List Sight × Cursor × ObjectId)
    (verdict : Verdict) : Rule (ObjectId × List Sight) Unit Unit :=
  fun c (next, _) =>
    let (seen, c, next) := moves c next
    (verdict.toOutcome, c, (next, seen))

/-- What is seen after a rule made up of moves. -/
def sightOfRule (rule : Rule (ObjectId × List Sight) Unit Unit) (c : Cursor)
    (next : ObjectId) : Sight × Cursor × ObjectId :=
  let (outcome, c, (next, seen)) := rule c (next, [])
  (.mk (.verdict (Verdict.ofOutcome outcome)) c (some seen), c, next)

/-- What is seen after a move without moves inside it. -/
def sight (answer : Answer) (c : Cursor) (next : ObjectId) : Sight × Cursor × ObjectId :=
  (.mk answer c none, c, next)

/-- What is seen after a grammar rule, whose value is given up. -/
def sightOfGrammar (rule : GrammarRule) (c : Cursor) (next : ObjectId) :
    Sight × Cursor × ObjectId :=
  let (outcome, c, next) := rule c next
  sight (.object outcome) c next

mutual

/-- Makes one move. -/
def perform : Move → Cursor → ObjectId → Sight × Cursor × ObjectId
  | .beginScope, c, next => sight .nothing c.beginScope next
  | .endScope restore, c, next => sight .nothing (c.endScope restore) next
  | .skipSpaces, c, next => sight .nothing c.skipSpaces next
  | .peek, c, next => sight (.char c.peek) c next
  | .advance, c, next => sight (.char c.advance.1) c.advance.2 next
  | .advanceIf ch, c, next => sight (.flag (c.advanceIf ch).1) (c.advanceIf ch).2 next
  | .advanceIfText pattern, c, next =>
    let (present, c) := c.advanceIfText pattern.toList
    sight (.flag present) c next
  | .remaining, c, next => sight (.chars c.rest) c next
  | .text, c, next => sight (.chars c.text) c next
  | .isIdentChar ch, c, next => sight (.flag (Formula.isIdentChar ch)) c next
  | .keyword word, c, next =>
    let (present, c) := c.keyword word.toList
    sight (.flag present) c next
  | .sign, c, next => sight (.sign c.sign.1) c.sign.2 next
  | .integer, c, next => sight (.integer c.integer.1) c.integer.2 next
  | .statement, c, next => sightOfGrammar (Formula.statement []) c next
  | .expression, c, next => sightOfGrammar (Formula.expression []) c next
  | .literal, c, next => sightOfGrammar (Formula.literal []) c next
  | .attempt moves verdict, c, next =>
    sightOfRule (.attempt (movesRule (fun c next => performAll moves c next) verdict)) c next
  | .nested moves verdict, c, next =>
    sightOfRule (.nested (movesRule (fun c next => performAll moves c next) verdict)) c next
  | .chain depth moves verdict, c, next =>
    sightOfRule
      (descend (movesRule (fun c next => performAll moves c next) verdict) (max depth 1))
      c next

/-- Makes moves one after the other. -/
def performAll : List Move → Cursor → ObjectId → List Sight × Cursor × ObjectId
  | [], c, next => ([], c, next)
  | move :: moves, c, next =>
    let (seen, c, next) := perform move c next
    let (rest, c, next) := performAll moves c next
    (seen :: rest, c, next)

end

end Parley.Formula
