import Parley.Main
import Parley.Formula.Moves
import Parley.Formula.Table
import Parley.Proofs.Formula.Depth
import Parley.Proofs.Formula.Length
import Parley.Proofs.Formula.Identity
import Parley.Proofs.Formula.History
import Parley.Proofs.Formula.Draws
import Parley.Proofs.Formula.Remaining
import Parley.Proofs.Formula.Recursion
import Parley.Proofs.Formula.Division
import Parley.Proofs.Formula.Equality
import Parley.Proofs.Formula.Budget
import Parley.Proofs.Formula.Integers
import Parley.Proofs.Wire.Frames
import Parley.Proofs.Wire.Reading
import Parley.Proofs.Wire.Delivery
import Parley.Proofs.Wire.Faults
import Parley.Proofs.Chat.Handles
import Parley.Proofs.Chat.Containment
import Parley.Proofs.Chat.Isolation
import Parley.Proofs.Chat.Calls
import Parley.Proofs.Chat.Deadlock
import Parley.Proofs.Chat.Registrations
import Parley.Proofs.Chat.Owners
import Parley.Proofs.Chat.Outcomes
import Parley.Proofs.Chat.Answering
import Parley.Proofs.Chat.Serving
import Parley.Proofs.Console.Evaluation
