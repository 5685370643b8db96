import Parley.Console.Lines
import Parley.Console.Output
import Parley.Formula.Reply

/-!
# The calculator

Evaluates each line typed at a console and prints its value. Lines of blanks alone
are skipped.

- `Calculator.reply`: what is printed for one line.
- `Calculator.replies`: what is printed for several.
- `Calculator.run`: evaluates all that is typed.
-/

namespace Parley.Console.Calculator

open Formula (ObjectId)
open Wire (Bytes IoResult)

/-- What is printed for a line, and the next identifier of an object after it. -/
def reply (line : String) (next : ObjectId) : String × ObjectId :=
  match Formula.runLine line next with
  | (.ok reply, next) => (reply, next)
  | (.error fault, next) => ("error: " ++ fault.message, next)

/-- What is printed for several lines. Identifiers go on from line to line. -/
def replies : List String → ObjectId → List String
  | [], _ => []
  | line :: lines, next =>
    if (Text.trim line).isEmpty then replies lines next
    else
      let (reply, next) := reply line next
      reply :: replies lines next

/-- Evaluates what is typed, from a fresh start, until the input ends or the output
breaks. -/
def run (input : Bytes) (output : Output) : IoResult Unit × Output :=
  let typed := Typed.ofBytes input
  match output.printLines (replies typed.lines Formula.Object.firstFreshId) with
  | (.ok (), output) => (typed.ending, output)
  | (.error fault, output) => (.error fault, output)

end Parley.Console.Calculator
