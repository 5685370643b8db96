import Parley.Options.Table

/-!
# Faults of the command line

Why a command line does not say how to run the program, and why a well-formed one
cannot be followed.
-/

namespace Parley.Options

/-- Why reading a command line stops. -/
inductive Fault where
  /-- A word stands for nothing. -/
  | unknown (word : String)
  /-- Something that needs a value came without one. -/
  | missingValue (key : Key)
  /-- A value is none of those there are. -/
  | noSuchChoice (key : Key) (value : String)
  /-- A value does not read as a number in the range. -/
  | badNumber (key : Key) (value : String)
  /-- Something that has no value came with one. -/
  | unneededValue (key : Key) (value : String)
  /-- Something was given twice. -/
  | repeated (key : Key)
  | missingMode
  /-- The description was asked for, at length or in short. -/
  | helpRequested (long : Bool)
  | versionRequested

/-- Why options cannot be followed. -/
inductive Misuse where
  | clientWithoutPort
  | emptyUserName

def Misuse.message : Misuse → String
  | .clientWithoutPort => "client mode needs the server's port (--port)"
  | .emptyUserName => "the user name must not be empty"

end Parley.Options
