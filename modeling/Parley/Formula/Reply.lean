import Parley.Formula.Grammar

/-!
# Replies to lines

What a line of text is answered with: its value if it is a formula, and else the
line itself behind a mark.

- `runLine`: the reply, where a division by zero is a fault.
- `replyLine`: the reply, where a fault is told as text as well.
- `selfCheck`: evaluates a formula with a literal of every kind.
-/

namespace Parley.Formula

/-- Put in front of a line that is not a formula. -/
def invalidMarker : String :=
  "(not a valid SIFOSC expression) "

/-- The reply to one line, and the identifier that is next after it. The value
is given up once it is printed. -/
def runLine (line : String) (next : ObjectId) : Except Fault String × ObjectId :=
  match parse [] line next with
  | (.ok value, next) => (.ok value.code, next)
  | (.error (.notAFormula _), next) => (.ok (invalidMarker ++ line), next)
  | (.error .divisionByZero, next) => (.error .divisionByZero, next)

/-- The text that tells of a fault in a line. -/
def faultNotice (fault : Fault) (line : String) : String :=
  "(SIFOSC evaluation failed: " ++ fault.message ++ ") " ++ line

/-- The reply to one line; every line has one. -/
def replyLine (line : String) (next : ObjectId) : String × ObjectId :=
  match runLine line next with
  | (.ok reply, next) => (reply, next)
  | (.error fault, next) => (faultNotice fault line, next)

/-- The formula that is evaluated before a server answers with formulas. -/
def selfCheckSource : String :=
  "[null,allobj,true,false]"

/-- Evaluates the formula of the self-check. -/
def selfCheck (next : ObjectId) : Except Fault Unit × ObjectId :=
  match parse [] selfCheckSource next with
  | (.ok _, next) => (.ok (), next)
  | (.error fault, next) => (.error fault, next)

end Parley.Formula
