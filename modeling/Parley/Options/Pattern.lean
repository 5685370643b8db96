import Parley.Options.Pattern.Set
import Parley.Text.Alphabetic
import Parley.Text.Numeric

/-!
# Patterns

Regular expressions that a value can be compared with: atoms and sets side by side,
repetition by `?`, `*` and `+`, alternatives between bars, and groups, which can have a
name or change switches. A pattern comes from between braces, so there is no repetition
by a count in braces, and no other use of them.

- `Reading`: what has been read of a pattern.
- `isPattern`: whether a text is a pattern.
-/

namespace Parley.Options.Pattern

/-! ## What has been read -/

/-- What stands side by side in a pattern. -/
inductive Item where
  /-- A change of switches, which matches nothing. -/
  | change
  /-- Something to match, with how deep groups and the like lie in each other in it. -/
  | part (depth : Nat)

def Item.depth : Item → Nat
  | change => 0
  | part depth => depth

/-- What has been read of a group or of the whole. -/
structure Body where
  /-- How deep the finished alternatives are. -/
  alternatives : List Nat
  /-- What stands in the last alternative, the last item first. -/
  items : List Item

namespace Body

def empty : Body :=
  ⟨[], []⟩

def add (body : Body) (item : Item) : Body :=
  { body with items := item :: body.items }

/-- The body behind a bar. -/
def addBar (body : Body) : Body :=
  ⟨depthOfAll (body.items.map Item.depth) :: body.alternatives, []⟩

def depth (body : Body) : Nat :=
  depthOfAll body.addBar.alternatives

/-- Repeats the last item. There must be one, and something that it matches. -/
def repeatLast (body : Body) : Option Body :=
  match body.items with
  | .part depth :: items => some { body with items := .part (depth + 1) :: items }
  | _ => none

end Body

/-- What has been read of a pattern. -/
structure Reading where
  switches : Switches
  /-- The names of groups. -/
  names : List (List Char)
  /-- What has been read of the innermost open group. -/
  body : Body
  /-- The open groups around it, with the switches that hold again in them. -/
  outer : List (Body × Switches)

namespace Reading

/-! ## Groups -/

def add (r : Reading) (item : Item) : Reading :=
  { r with body := r.body.add item }

/-- Opens a group. -/
def enter (r : Reading) (switches : Switches) : Reading :=
  { r with switches, body := .empty, outer := (r.body, r.switches) :: r.outer }

/-- Closes the innermost group. -/
def leave (r : Reading) : Option Reading :=
  match r.outer with
  | (body, switches) :: outer =>
    some { r with switches, body := body.add (.part (1 + r.body.depth)), outer }
  | [] => none

/-- Whether a text can name a group. -/
def isName : List Char → Bool
  | [] => false
  | c :: rest =>
    (c = '_' || Text.isAlphabetic c) &&
      rest.all fun c =>
        ['_', '.', '[', ']'].contains c || Text.isAlphabetic c || Text.isNumeric c

/-- Opens a group with a name, which must be a new one. -/
def enterNamed (r : Reading) (text : List Char) : Option (Reading × List Char) :=
  let name := text.takeWhile (· ≠ '>')
  match text.dropWhile (· ≠ '>') with
  | _ :: rest =>
    if isName name && !r.names.contains name then
      some ({ r with names := name :: r.names }.enter r.switches, rest)
    else none
  | [] => none

/-- Changes switches, for a group or for what follows. A change of nothing is none. -/
def change (r : Reading) (text : List Char) : Option (Reading × List Char) :=
  let isLetter := fun c => c ≠ ':' && c ≠ ')'
  let letters := text.takeWhile isLetter
  let switches := r.switches.apply letters
  if Switches.areLetters letters then
    match text.dropWhile isLetter with
    | ':' :: rest => some (r.enter switches, rest)
    | _ :: rest =>
      if letters.isEmpty then none else some ({ r with switches }.add .change, rest)
    | [] => none
  else none

/-- Reads what stands behind an opening parenthesis. What would look ahead or behind has
signs there that switch nothing and name no group. -/
def openGroup (r : Reading) (text : List Char) : Option (Reading × List Char) :=
  match r.switches.skip text with
  | '?' :: 'P' :: '<' :: rest => r.enterNamed rest
  | '?' :: '<' :: rest => r.enterNamed rest
  | '?' :: rest => r.change rest
  | rest => some (r.enter r.switches, rest)

/-! ## The whole -/

/-- Adds an atom, if it may stand here. -/
def addAtom (r : Reading) (atom : Atom) : Option Reading :=
  if atom.isAllowed r.switches then some (r.add (.part 0)) else none

/-- Repeats the last item. A question mark behind it makes it match as little as
possible. -/
def repeatLast (r : Reading) (text : List Char) : Option (Reading × List Char) :=
  let rest := if text.head? = some '?' then text.drop 1 else text
  r.body.repeatLast.map fun body => ({ r with body }, rest)

/-- Reads on from a character. -/
def next (r : Reading) (c : Char) (rest : List Char) : Option (Reading × List Char) :=
  match c with
  | '(' => r.openGroup rest
  | ')' => r.leave.map fun r => (r, rest)
  | '|' => some ({ r with body := r.body.addBar }, rest)
  | '[' => (readSet r.switches rest).map fun (depth, rest) => (r.add (.part depth), rest)
  | '?' | '*' | '+' => r.repeatLast rest
  | '\x7b' => none
  | '\\' =>
    match readEscape r.switches rest with
    | some (atom, rest) => (r.addAtom atom).map fun r => (r, rest)
    | none => none
  | '.' => (r.addAtom .dot).map fun r => (r, rest)
  | '^' | '$' => (r.addAtom .edge).map fun r => (r, rest)
  | c => (r.addAtom (.character c)).map fun r => (r, rest)

/-- Reads to the end of a text. Every round takes a character. -/
def finish : (bound : Nat) → Reading → List Char → Option Reading
  | 0, _, _ => none
  | bound + 1, r, text =>
    match r.switches.skip text with
    | [] => some r
    | c :: rest =>
      match r.next c rest with
      | some (r, rest) => finish bound r rest
      | none => none

end Reading

/-- How deep groups and the like may lie in each other. -/
def maxDepth : Nat := 250

/-- Whether a text is a pattern. -/
def isPattern (text : List Char) : Bool :=
  match Reading.finish (text.length + 1) ⟨.initial, [], .empty, []⟩ text with
  | some r => r.outer.isEmpty && r.body.depth ≤ maxDepth
  | none => false

end Parley.Options.Pattern
