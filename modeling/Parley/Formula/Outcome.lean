/-!
# Outcomes

What trying something comes to: a value, no value, or a fault that ends the
whole evaluation. "No value" lets another alternative be tried; a fault does not.
-/

namespace Parley.Formula

/-- The result of an operation or of a grammar rule. -/
inductive Outcome (ε α : Type) where
  | found (value : α)
  /-- There is no value, and nothing went wrong. -/
  | missing
  /-- The evaluation as a whole has failed. -/
  | fault (cause : ε)

namespace Outcome

variable {ε α β : Type}

def isFound : Outcome ε α → Bool
  | .found _ => true
  | _ => false

def map (f : α → β) : Outcome ε α → Outcome ε β
  | .found value => .found (f value)
  | .missing => .missing
  | .fault cause => .fault cause

/-- An absent value is no value. -/
def ofOption : Option α → Outcome ε α
  | some value => .found value
  | none => .missing

@[simp] theorem isFound_map (f : α → β) (outcome : Outcome ε α) :
    (outcome.map f).isFound = outcome.isFound := by
  cases outcome <;> rfl

end Outcome

end Parley.Formula
