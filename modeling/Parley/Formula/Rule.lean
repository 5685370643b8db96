import Parley.Formula.Cursor
import Parley.Formula.Outcome

/-!
# Grammar rules

A rule reads from a cursor, may change some state besides, and comes to an
outcome. Rules are combined in sequence, where the first one that finds nothing
ends it, and by choice, where the next alternative is tried only if the one
before found nothing.

- `Rule`: the monad of rules.
- `Rule.orElse`: choice.
- `Rule.attempt`: runs a rule in a scope of its own, so that the cursor stays
  where it was unless the rule found something.
- `Rule.nested`: the same for rules that may call themselves, of which at most
  `maxNesting` are open at a time.
-/

namespace Parley.Formula

/-- A rule over state `σ`, with faults `ε` and values `α`. -/
def Rule (σ ε α : Type) : Type :=
  Cursor → σ → Outcome ε α × Cursor × σ

namespace Rule

variable {σ ε α β : Type}

/-! ## Sequence and choice -/

protected def pure (value : α) : Rule σ ε α :=
  fun c s => (.found value, c, s)

protected def bind (rule : Rule σ ε α) (next : α → Rule σ ε β) : Rule σ ε β :=
  fun c s =>
    match rule c s with
    | (.found value, c, s) => next value c s
    | (.missing, c, s) => (.missing, c, s)
    | (.fault cause, c, s) => (.fault cause, c, s)

instance : Monad (Rule σ ε) where
  pure := Rule.pure
  bind := Rule.bind

/-- Tries the second rule, from where the first one left off, if that found
nothing. -/
protected def orElse (first : Rule σ ε α) (second : Unit → Rule σ ε α) : Rule σ ε α :=
  fun c s =>
    match first c s with
    | (.missing, c, s) => second () c s
    | result => result

instance : OrElse (Rule σ ε α) := ⟨Rule.orElse⟩

/-- Comes to a given outcome without reading. -/
def ofOutcome (outcome : Outcome ε α) : Rule σ ε α :=
  fun c s => (outcome, c, s)

/-- Finds nothing. -/
def missing : Rule σ ε α :=
  ofOutcome .missing

/-- Whether the rule found something, as a value. -/
def optional (rule : Rule σ ε α) : Rule σ ε (Option α) :=
  fun c s =>
    match rule c s with
    | (.found value, c, s) => (.found (some value), c, s)
    | (.missing, c, s) => (.found none, c, s)
    | (.fault cause, c, s) => (.fault cause, c, s)

/-! ## Reading -/

/-- Looks at the cursor. -/
def look (f : Cursor → α) : Rule σ ε α :=
  fun c s => (.found (f c), c, s)

/-- Moves the cursor. -/
def move (f : Cursor → Cursor) : Rule σ ε Unit :=
  fun c s => (.found (), f c, s)

/-- Reads something that may not be there. -/
def read (f : Cursor → Option α × Cursor) : Rule σ ε α :=
  fun c s => (.ofOption (f c).1, (f c).2, s)

/-- Reads something that has to be there. -/
def expect (f : Cursor → Bool × Cursor) : Rule σ ε Unit :=
  fun c s => (if (f c).1 then .found () else .missing, (f c).2, s)

/-- Reads something that may or may not be there, and says which. -/
def choose (f : Cursor → Bool × Cursor) : Rule σ ε Bool :=
  fun c s => (.found (f c).1, (f c).2, s)

/-- Uses the state besides the cursor. -/
def withState (f : σ → α × σ) : Rule σ ε α :=
  fun c s => (.found (f s).1, c, (f s).2)

/-! ## Scopes -/

/-- Runs a rule in a scope of its own. The cursor keeps its new place only if the
rule found something. -/
def attempt (rule : Rule σ ε α) : Rule σ ε α :=
  fun c s =>
    match rule c.beginScope s with
    | (outcome, c, s) => (outcome, c.endScope (!outcome.isFound), s)

/-- Runs a rule that may call itself. It finds nothing, without being run, if
`maxNesting` such rules are open already. -/
def nested (rule : Rule σ ε α) : Rule σ ε α :=
  fun c s =>
    if c.nesting < maxNesting then
      match attempt rule { c with nesting := c.nesting + 1 } s with
      | (outcome, c, s) => (outcome, { c with nesting := c.nesting - 1 }, s)
    else (.missing, c, s)

theorem nested_of_full (rule : Rule σ ε α) {c : Cursor} (s : σ) (h : maxNesting ≤ c.nesting) :
    nested rule c s = (.missing, c, s) := by
  simp [nested, Nat.not_lt.2 h]

end Rule

end Parley.Formula
