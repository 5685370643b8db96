import Parley.Program

/-!
# The command line

Runs the program with its command line and its console. Connections are not part of
it: a server or a client ends with a failure.
-/

namespace Parley

/-- Reads all that is typed, until it ends. -/
partial def readTyped (input : IO.FS.Stream) (typed : ByteArray) : IO ByteArray := do
  let chunk ← input.read 65536
  if chunk.isEmpty then pure typed else readTyped input (typed ++ chunk)

/-- Prints what a run has printed, and yields its exit code. -/
def conclude (run : Run) : IO UInt32 := do
  let output ← IO.getStdout
  match run with
  | .ended code printed =>
    output.write ⟨printed.toArray⟩
    if code = .usage then IO.eprint Options.shortDescription
    pure (UInt32.ofNat code.toNat)
  | .serving .. =>
    IO.eprintln "error: could not listen"
    pure 1
  | .connecting options printed =>
    output.write ⟨printed.toArray⟩
    IO.eprintln ("error: chat with " ++ options.hostName ++ " failed")
    pure 1

end Parley

def main (words : List String) : IO UInt32 := do
  let typed ←
    if Parley.readsInput words then Parley.readTyped (← IO.getStdin) .empty
    else pure .empty
  Parley.conclude (Parley.run words (.still ⟨1970, 1, 1, 0, 0, 0, 0⟩) typed.toList)
