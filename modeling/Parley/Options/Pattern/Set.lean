import Parley.Options.Pattern.Atom

/-!
# Sets in patterns

A set of characters in brackets: characters, ranges of them, classes by name, further
sets, and `&&`, `--` and `~~` between such lists.

- `readSet`: reads a set, and says how deep sets lie in each other in it.
-/

namespace Parley.Options.Pattern

/-- How deep things lie in each other where several stand side by side. A thing alone
is not any deeper for it. -/
def depthOfAll : (depths : List Nat) → Nat
  | [] => 0
  | [depth] => depth
  | depths => 1 + depths.foldl max 0

/-- A set that is still open. -/
structure OpenSet where
  /-- How deep what stands before the last operator is, if there is one. -/
  left : Option Nat
  /-- How deep the items since then are. -/
  items : List Nat

namespace OpenSet

def add (set : OpenSet) (depth : Nat) : OpenSet :=
  { set with items := depth :: set.items }

/-- How deep all that has been read is. -/
def depth (set : OpenSet) : Nat :=
  match set.left with
  | none => depthOfAll set.items
  | some left => 1 + max left (depthOfAll set.items)

/-- The set behind a further operator. -/
def addOperator (set : OpenSet) : OpenSet :=
  ⟨some set.depth, []⟩

end OpenSet

/-- The names of classes of plain characters. -/
def classNames : List String :=
  ["alnum", "alpha", "ascii", "blank", "cntrl", "digit", "graph", "lower", "print", "punct",
   "space", "upper", "word", "xdigit"]

/-- Reads a class by its name between colons, behind a bracket. With `^` it is the
opposite. Other text is no class, and may be a set. -/
def readNamedClass (text : List Char) : Option (Bool × List Char) :=
  match text with
  | ':' :: rest =>
    let opposite := rest.head? == some '^'
    let rest := if opposite then rest.drop 1 else rest
    match rest.dropWhile (· ≠ ':') with
    | ':' :: ']' :: behind =>
      if classNames.contains (String.ofList (rest.takeWhile (· ≠ ':'))) then
        some (opposite, behind)
      else none
    | _ => none
  | _ => none

/-- Whether a class by its name may stand in a set. Its characters are plain ones, so it
needs no tables but those of upper and lower case. -/
def allowsNamedClass (s : Switches) (opposite : Bool) : Bool :=
  if s.characters then !s.eitherCase else !opposite

/-- Reads a character of a set, or an escape. -/
def readItem (s : Switches) : List Char → Option (Atom × List Char)
  | [] => none
  | '\\' :: rest => readEscape s rest
  | c :: rest => some (.character c, rest)

/-- Whether two atoms are the ends of a range. -/
def isRange (s : Switches) (first last : Atom) : Bool :=
  match first.character?, last.character? with
  | some c, some d => c ≤ d && first.isAllowedInSet s && last.isAllowedInSet s
  | _, _ => false

/-- Reads an item of a set, or a range. A dash before the end or before a dash is no
range. -/
def readRange (s : Switches) (text : List Char) : Option (List Char) :=
  match readItem s text with
  | none => none
  | some (first, rest) =>
    let single := if first.isAllowedInSet s then some (s.skip rest) else none
    match s.skip rest with
    | '-' :: behind =>
      if s.peek behind = some ']' || s.peek behind = some '-' then single
      else
        match readItem s (s.skip behind) with
        | some (last, rest) => if isRange s first last then some rest else none
        | none => none
    | _ => single

/-- Counts the dashes at the beginning of a text. They stand for themselves there. -/
def readDashes (s : Switches) : (bound : Nat) → List Char → Nat × List Char
  | bound + 1, '-' :: rest =>
    let (dashes, rest) := readDashes s bound (s.skip rest)
    (dashes + 1, rest)
  | _, text => (0, text)

/-- Reads the beginning of a set, behind its bracket and a `^`: dashes, or a closing
bracket, which stands for itself there. -/
def readFirst (s : Switches) (text : List Char) : Option (OpenSet × List Char) :=
  match readDashes s text.length text with
  | (0, ']' :: rest) => if s.allowsCharacter then some (⟨none, [0]⟩, s.skip rest) else none
  | (0, rest) => some (⟨none, []⟩, rest)
  | (dashes, rest) =>
    if s.allowsCharacter then some (⟨none, List.replicate dashes 0⟩, rest) else none

/-- Reads the beginning of a set, behind its bracket. All but some bytes would not be
text. -/
def openSet (s : Switches) (text : List Char) : Option (OpenSet × List Char) :=
  match s.skip text with
  | '^' :: rest => if s.characters then readFirst s (s.skip rest) else none
  | rest => readFirst s rest

/-- Reads sets up to the end of the outermost of them. Every round takes a character. -/
def readSets (s : Switches) :
    (bound : Nat) → OpenSet → (outer : List OpenSet) → List Char → Option (Nat × List Char)
  | 0, _, _, _ => none
  | bound + 1, set, outer, text =>
    match s.skip text with
    | [] => none
    | ']' :: rest =>
      match outer with
      | [] => some (1 + set.depth, rest)
      | enclosing :: outer => readSets s bound (enclosing.add (1 + set.depth)) outer rest
    | '[' :: rest =>
      match readNamedClass rest with
      | some (opposite, rest) =>
        if allowsNamedClass s opposite then readSets s bound (set.add 0) outer rest
        else none
      | none =>
        match openSet s rest with
        | some (inner, rest) => readSets s bound inner (set :: outer) rest
        | none => none
    | c :: rest =>
      if (c = '&' || c = '-' || c = '~') && rest.head? = some c then
        readSets s bound set.addOperator outer (rest.drop 1)
      else
        match readRange s (c :: rest) with
        | some rest => readSets s bound (set.add 0) outer rest
        | none => none

/-- Reads a set, behind its bracket. -/
def readSet (s : Switches) (text : List Char) : Option (Nat × List Char) :=
  match openSet s text with
  | some (set, rest) => readSets s (rest.length + 1) set [] rest
  | none => none

end Parley.Options.Pattern
