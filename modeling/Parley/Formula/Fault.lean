import Parley.Text.Quoted

/-!
# Faults of a formula

A line either has a value or fails in one of two ways.
-/

namespace Parley.Formula

/-- Why a text has no value. -/
inductive Fault where
  /-- The text is not one whole formula; `remaining` is what could not be read. -/
  | notAFormula (remaining : String)
  | divisionByZero

/-- The message that describes a fault. -/
def Fault.message : Fault → String
  | .notAFormula remaining => "not a valid expression: " ++ Text.quoted remaining
  | .divisionByZero => "division by zero"

end Parley.Formula
