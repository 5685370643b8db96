import Parley.Chat.Stamp
import Parley.Formula.Reply

/-!
# Transforms

What a server makes of a line before it passes it on.
-/

namespace Parley.Chat

open Formula (ObjectId)

/-- What is done to each line. -/
inductive Transform where
  /-- The time and the sender's name are put in front. -/
  | stamp
  /-- The line is evaluated as a formula. -/
  | formula
  | custom (reply : (sender line : String) → String)

namespace Transform

/-- The line that is passed on. `now` is the time, and `next` the next identifier of
an object; it changes if formulas are evaluated. -/
def apply (transform : Transform) (now : DateTime) (next : ObjectId)
    (sender line : String) : String × ObjectId :=
  match transform with
  | .stamp => (Chat.stamp now sender line, next)
  | .formula => Formula.replyLine line next
  | .custom reply => (reply sender line, next)

/-- What a transform is called. -/
def name : Transform → String
  | .stamp => "Stamp"
  | .formula => "Sifosc"
  | .custom _ => "Custom(..)"

end Transform

end Parley.Chat
