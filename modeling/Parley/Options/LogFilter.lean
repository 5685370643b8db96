import Parley.Options.Number
import Parley.Options.Pattern
import Parley.Text.Cut

/-!
# Log filters

Which log messages are wanted, as a text. It consists of directives separated by
commas. A directive is a level, or the name of a part of the program, or both with `=`
between them; behind the name there may be a span in brackets, and in it a field in
braces, perhaps with a value.

The parts of a directive are found in its text without the blanks around it, and then
taken by their positions from the text with them. So a blank in front moves all parts
to the left, where a level is none any more, and a blank behind belongs to the level.

- `FilterFault`: why a text is no filter.
- `Place`: where in a directive its reading has come to.
- `checkLogFilter`: whether a text is a filter.
-/

namespace Parley.Options

/-- Why a text is no filter. -/
inductive FilterFault where
  /-- A directive is not well-formed. -/
  | malformed
  /-- A part of a directive would begin or end inside a character. -/
  | splitCharacter
  deriving DecidableEq

/-! ## Levels and fields -/

/-- The names of levels. -/
def levelNames : List String :=
  ["off", "error", "warn", "info", "debug", "trace"]

/-- Whether a text is a level: nothing, a name in letters of either case, or the number
of a name in their order. -/
def isLevel (text : List Char) : Bool :=
  let digits := if text.head? = some '+' then text.drop 1 else text
  text.isEmpty ||
    levelNames.contains (String.ofList (text.map Char.toLower)) ||
    (digitsValue? digits).any (· < levelNames.length)

/-- Whether a text is a field: a name, and perhaps `=` and a number or a pattern. A
further `=` ends the value. -/
def isField (text : List Char) : Bool :=
  match text.dropWhile (· ≠ '=') with
  | [] => !text.isEmpty
  | _ :: rest =>
    let value := rest.takeWhile (· ≠ '=')
    isNumber value || Pattern.isPattern value

/-- Whether a name can begin with a character. -/
def startsName (c : Char) : Bool :=
  c == '-' || c == ':' || c == '_' || Text.isAlphabetic c || Text.isNumeric c

/-! ## Directives -/

/-- Where in a directive its reading has come to. With a part that is still open goes the
position of its first byte. -/
inductive Place where
  | beginning
  /-- In a name, which begins the directive, or in a level alone. -/
  | name
  | span (first : Nat)
  | field (first : Nat)
  | behindFields
  | behindSpan
  | level (first : Nat)

/-- A part of the text of a directive. -/
def partOf (text : List Char) (first stop : Nat) : Except FilterFault (List Char) :=
  match Text.between? text first stop with
  | some part => .ok part
  | none => .error .splitCharacter

namespace Place

/-- Reads the next character of a directive, the one at the position `here`. A part is
taken when it ends. -/
def next (text : List Char) (here : Nat) (c : Char) : Place → Except FilterFault Place
  | beginning =>
    if c = '[' then .ok (span (here + 1))
    else if startsName c then .ok name
    else .error .malformed
  | name =>
    if c = '=' then (partOf text 0 here).map fun _ => level (here + 1)
    else if c = '[' then (partOf text 0 here).map fun _ => span (here + 1)
    else .ok name
  | span first =>
    if c = ']' then (partOf text first here).map fun _ => behindSpan
    else if c = '\x7b' then (partOf text first here).map fun _ => field (here + 1)
    else .ok (span first)
  | field first =>
    if c = '\x7d' then
      match partOf text first here with
      | .ok part => if isField part then .ok behindFields else .error .malformed
      | .error fault => .error fault
    else .ok (field first)
  | behindFields => if c = ']' then .ok behindSpan else .error .malformed
  | behindSpan => if c = '=' then .ok (level (here + 1)) else .error .malformed
  | level first => .ok (level first)

/-- Reads characters of a directive, the first of them at the position `here`. -/
def read (text : List Char) : (here : Nat) → Place → List Char → Except FilterFault Place
  | _, place, [] => .ok place
  | here, place, c :: rest =>
    match place.next text here c with
    | .ok place => read text (here + c.utf8Size) place rest
    | .error fault => .error fault

/-- Whether a directive may end here. -/
def finish (text : List Char) : Place → Except FilterFault Unit
  | name => .ok ()
  | behindSpan => .ok ()
  | level first =>
    match Text.dropBytes? text first with
    | some part => if isLevel part then .ok () else .error .malformed
    | none => .error .splitCharacter
  | _ => .error .malformed

end Place

/-- Whether a text is a directive. -/
def checkDirective (text : String) : Except FilterFault Unit :=
  match Place.read text.toList 0 .beginning (Text.trim text).toList with
  | .ok place => place.finish text.toList
  | .error fault => .error fault

/-- Whether texts are directives, up to the first that is none. -/
def checkDirectives : List String → Except FilterFault Unit
  | [] => .ok ()
  | text :: rest =>
    match checkDirective text with
    | .ok () => checkDirectives rest
    | .error fault => .error fault

/-- Whether a text is a filter. Nothing between two commas is no directive. -/
def checkLogFilter (text : String) : Except FilterFault Unit :=
  checkDirectives ((text.splitOn ",").filter fun part => !part.isEmpty)

end Parley.Options
