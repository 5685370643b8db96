import Parley.Chat.Server
import Parley.Console.Calculator
import Parley.Options.Description
import Parley.Options.LogFilter
import Parley.Options.Reading

/-!
# The program

What the program does with a command line and the bytes typed at its console: it ends
at once, or evaluates what is typed, or goes on as a server or as a client.

- `Run`: how far a run of the program gets by itself.
- `run`: runs it.
- `Run.refused`: what becomes of it where nobody listens.
-/

namespace Parley

open Wire (Bytes)

/-- What is printed before anything else. -/
def logo : String :=
  Options.unlines
    ["",
     "  ___ _   ___ _  _ ___ ___",
     " | __/_\\ / __| || | _ \\_ _|",
     " | _/ _ \\ (__| __ |  _/| |",
     " |_/_/ \\_\\___|_||_|_| |___|",
     "",
     " " ++ Options.programName ++ " " ++ Options.programVersion,
     ""]

/-- How the program ends. -/
inductive ExitCode where
  | success
  /-- Something failed on the way. -/
  | failure
  /-- The command line makes no sense. -/
  | usage
  /-- The program broke off. -/
  | aborted
  deriving DecidableEq

def ExitCode.toNat : ExitCode → Nat
  | .success => 0
  | .failure => 1
  | .usage => 2
  | .aborted => 101

/-- How far a run of the program gets by itself, and what it has printed by then. -/
inductive Run where
  | ended (code : ExitCode) (printed : Bytes)
  /-- It listens until it is interrupted. -/
  | serving (server : Chat.Server) (printed : Bytes)
  /-- It has to connect to a server. -/
  | connecting (options : Options) (printed : Bytes)

namespace Run

/-- The end of a run that printed a text. -/
def endedWith (code : ExitCode) (printed : String) : Run :=
  .ended code (Text.Utf8.encode printed)

/-- A run that has to connect where nobody listens fails. -/
def refused : Run → Run
  | .connecting _ printed => .ended .failure printed
  | run => run

end Run

/-- What a server prints once it listens. -/
def listeningLine (options : Options) : String :=
  "listening on " ++ options.listenAddress ++ "\n"

/-- Starts a server. -/
def serve (node : Chat.Node) (options : Options) (printed : String) : Run :=
  .serving (Chat.Server.ofNode node).start (Text.Utf8.encode (printed ++ listeningLine options))

/-- Runs the program in its mode, after it has printed something. -/
def runMode (options : Options) (clock : Chat.Clock) (printed : String) (input : Bytes) :
    Run :=
  match options.mode with
  | .calculator =>
    match Console.Calculator.run input ⟨Text.Utf8.encode printed, none⟩ with
    | (.ok (), output) => .ended .success output.written
    | (.error _, output) => .ended .failure output.written
  | .client => .connecting options (Text.Utf8.encode printed)
  | .server =>
    serve (.newServer options.userName .stamp Formula.Object.firstFreshId clock) options printed
  | .formulaServer =>
    match Chat.Node.newFormulaServer options.userName clock with
    | .ok node => serve node options printed
    | .error _ => .endedWith .failure printed

/-- Whether the log filter is one, if there is one. -/
def Options.checkLogLevel (options : Options) : Except Options.FilterFault Unit :=
  match options.logLevel with
  | some text => Options.checkLogFilter text
  | none => .ok ()

/-- Follows options. Those that cannot be followed are refused before anything is
printed. -/
def follow (options : Options) (clock : Chat.Clock) (input : Bytes) : Run :=
  match options.check with
  | .error _ => .endedWith .failure ""
  | .ok () =>
    match options.checkLogLevel with
    | .ok () => runMode options clock (if options.noLogo then "" else logo) input
    | .error .malformed => .endedWith .failure ""
    | .error .splitCharacter => .endedWith .aborted ""

/-- Whether a run looks at what is typed before it ends. -/
def readsInput (words : List String) : Bool :=
  match Options.read words with
  | .ok options => options.mode = .calculator
  | .error _ => false

/-- Runs the program. `words` is the command line without the name of the program,
`clock` shows the time, and `input` is what is typed at the console. -/
def run (words : List String) (clock : Chat.Clock) (input : Bytes) : Run :=
  match Options.read words with
  | .ok options => follow options clock input
  | .error (.helpRequested true) => .endedWith .success Options.longDescription
  | .error (.helpRequested false) => .endedWith .success Options.shortDescription
  | .error .versionRequested => .endedWith .success Options.versionLine
  | .error _ => .endedWith .usage ""

end Parley
