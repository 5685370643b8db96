/-!
# The table of options

What can be given on the command line: the words and letters that stand for it, and
what is said about it. Reading the command line and describing it both go by this
table.

- `Key`: the things that can be given.
- `Entry`, `Entry.all`: what is known of each.
-/

namespace Parley.Options

/-- What the program is run as. -/
inductive Mode where
  /-- Passes lines on, with time and sender. -/
  | server
  /-- Connects a console to a server. -/
  | client
  /-- Evaluates formulas typed at a console. -/
  | calculator
  /-- Passes on the values of formulas. -/
  | formulaServer
  deriving DecidableEq

namespace Mode

/-- All modes, in the order in which they are described. -/
def all : List Mode :=
  [.server, .client, .calculator, .formulaServer]

/-- How a mode is written on the command line. -/
def word : Mode → String
  | .server => "server"
  | .client => "client"
  | .calculator => "repl"
  | .formulaServer => "sifosc-server"

/-- What is said about a mode. -/
def about : Mode → String
  | .server => "Relay every line to all clients, stamped with time and sender"
  | .client => "Chat through a server from this console"
  | .calculator => "Evaluate SIFOSC formulas typed on this console"
  | .formulaServer => "Relay the value of every line evaluated as a SIFOSC formula"

/-- The mode that a word stands for. -/
def ofWord? (word : String) : Option Mode :=
  all.find? fun mode => mode.word == word

theorem ofWord?_word (mode : Mode) : ofWord? mode.word = some mode := by
  cases mode <;> decide

end Mode

/-- The server to connect to if none is named. -/
def defaultHost : String := "localhost"

/-- The display name if none is given. -/
def defaultUserName : String := "anonymous"

/-- What can be given on the command line. -/
inductive Key where
  | mode
  | hostName
  | portNumber
  | userName
  | noLogo
  | logLevel
  | help
  | version
  deriving DecidableEq

/-- What is known of something that can be given. -/
structure Entry where
  key : Key
  /-- Stands for it behind a single dash. -/
  letter : Option Char
  /-- Stands for it behind two dashes. -/
  word : String
  /-- What its value is called, if it has one. -/
  value : Option String
  /-- What is said about it. -/
  about : String
  /-- The value if none is given. -/
  fallback : Option String
  /-- The values there are, with what is said about them, if not any text will do. -/
  choices : List (String × String)

namespace Entry

/-- The entry for something that has no value. -/
def flag (key : Key) (letter : Option Char) (word about : String) : Entry where
  key
  letter
  word
  value := none
  about
  fallback := none
  choices := []

/-- What is said about the help, which comes in two lengths. -/
def aboutHelp (long : Bool) : String :=
  if long then "Print help (see a summary with '-h')" else "Print help (see more with '--help')"

/-- All entries, in the order in which they are described. -/
def all : List Entry :=
  [{ key := .mode, letter := some 'm', word := "mode", value := some "MODE", about := ""
     fallback := none, choices := Mode.all.map fun mode => (mode.word, mode.about) },
   { key := .hostName, letter := some 'n', word := "host-name", value := some "HOST_NAME"
     about := "Server to connect to in client mode. Servers listen on every interface"
     fallback := some defaultHost, choices := [] },
   { key := .portNumber, letter := some 'p', word := "port", value := some "PORT"
     about := "Port to connect to, or to listen on in server modes (0 picks a free one)"
     fallback := some "0", choices := [] },
   { key := .userName, letter := some 'u', word := "user-name", value := some "USER_NAME"
     about := "Display name sent to the other end"
     fallback := some defaultUserName, choices := [] },
   flag .noLogo none "no-logo" "",
   { key := .logLevel, letter := none, word := "log-level", value := some "LOG_LEVEL"
     about := "Log filter, e.g. \x60debug\x60 or \x60fachpi=trace\x60 (overrides RUST_LOG)"
     fallback := none, choices := [] },
   flag .help (some 'h') "help" (aboutHelp false),
   flag .version (some 'V') "version" "Print version"]

/-- The entry that a letter stands for. -/
def ofLetter? (letter : Char) : Option Entry :=
  all.find? fun entry => entry.letter == some letter

/-- The entry that a word stands for. -/
def ofWord? (word : String) : Option Entry :=
  all.find? fun entry => entry.word == word

end Entry

end Parley.Options
