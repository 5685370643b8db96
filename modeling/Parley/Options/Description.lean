import Parley.Options.Table

/-!
# The description of the command line

What is printed when help is asked for. The short form has one line for each option,
with what is said about them in one column; the long form has a paragraph for each,
and describes the values there are as well.

- `shortDescription`, `longDescription`: the two forms.
- `versionLine`: what is printed when the version is asked for.
-/

namespace Parley.Options

/-- What the program is called. -/
def programName : String := "fachpi"

/-- The version of the program. -/
def programVersion : String := "0.1.0"

def versionLine : String :=
  programName ++ " " ++ programVersion ++ "\n"

/-- Text with blanks behind it, up to a width. -/
def padded (width : Nat) (text : String) : String :=
  text ++ String.ofList (List.replicate (width - text.length) ' ')

/-- Lines, each with its end. -/
def unlines (lines : List String) : String :=
  String.join (lines.map (· ++ "\n"))

namespace Entry

/-- How it is written behind two dashes, with what its value is called. -/
def longForm (e : Entry) : String :=
  "--" ++ e.word ++
    match e.value with
    | some value => " <" ++ value ++ ">"
    | none => ""

/-- How it is written, in all its forms. -/
def forms (e : Entry) : String :=
  (match e.letter with
    | some letter => "-" ++ String.singleton letter ++ ", "
    | none => "    ") ++ e.longForm

/-- The value if none is given, as it is told. -/
def fallbackNotes (e : Entry) : List String :=
  match e.fallback with
  | some value => ["[default: " ++ value ++ "]"]
  | none => []

/-! ## Short form -/

/-- What is said about it, in one line. -/
def remark (e : Entry) : String :=
  let choices :=
    if e.choices.isEmpty then []
    else ["[possible values: " ++ ", ".intercalate (e.choices.map (·.1)) ++ "]"]
  let about := if e.about.isEmpty then [] else [e.about]
  " ".intercalate (about ++ e.fallbackNotes ++ choices)

/-- The width of the longest of all forms. -/
def formsWidth : Nat :=
  (all.map fun e => e.forms.length).foldl max 0

/-- Its line in the short description. -/
def line (e : Entry) : String :=
  "  " ++ padded (formsWidth + 2) e.forms ++ e.remark

/-! ## Long form -/

/-- The lines that describe its values. -/
def choiceLines (e : Entry) : List String :=
  let width := (e.choices.map fun choice => choice.1.length).foldl max 0 + 2
  "Possible values:" ::
    e.choices.map fun choice => "- " ++ padded width (choice.1 ++ ":") ++ choice.2

/-- What is said about it, by paragraphs. -/
def paragraphs (e : Entry) : List (List String) :=
  let about := if e.key = .help then aboutHelp true else e.about
  (if about.isEmpty then [] else [[about]]) ++
    (if e.choices.isEmpty then [] else [e.choiceLines]) ++
    e.fallbackNotes.map fun note => [note]

/-- Its lines in the long description. There is a blank line between paragraphs, and
one in place of them if there are none. -/
def block (e : Entry) : List String :=
  let body := [""].intercalate e.paragraphs
  ("  " ++ e.forms) :: (if body.isEmpty then [""] else body).map ("          " ++ ·)

end Entry

/-- The lines above the options. -/
def heading : List String :=
  ["Fast chat protocol server, client and SIFOSC calculator", "",
    "Usage: " ++ programName ++ " [OPTIONS] --mode <MODE>", "", "Options:"]

/-- A line for each option. -/
def shortDescription : String :=
  unlines (heading ++ Entry.all.map Entry.line)

/-- Paragraphs for each option. -/
def longDescription : String :=
  unlines (heading ++ [""].intercalate (Entry.all.map Entry.block))

end Parley.Options
