import ImpStack.CommandLine.Session

/-!
The program in the surroundings of an operating system.
-/
namespace ImpStack.Main

/-- The system's words for a failure, with its number. -/
def failureText : IO.Error → String
  | .noFileOrDirectory _ code details | .permissionDenied _ code details
  | .inappropriateType _ code details => s!"{details} (os error {code})"
  | error => error.toString

def readText (path : String) : IO (Except String String) := do
  match ← (IO.FS.withFile path .read fun file => file.readBinToEnd).toBaseIO with
  | .error error => return .error (failureText error)
  | .ok bytes =>
    match String.fromUTF8? bytes with
    | some text => return .ok text
    | none => return .error "stream did not contain valid UTF-8"

def writeText (path text : String) : IO (Except String Unit) := do
  match ← (IO.FS.writeFile path text).toBaseIO with
  | .error error => return .error (failureText error)
  | .ok () => return .ok ()

/-- Runs the machine a stretch at a time and prints the lines of each stretch. -/
partial def finish (assembly : Assembly) (machine : Machine) : IO Outcome := do
  let (machine, outcome?) := machine.run assembly 100000
  let stdout ← IO.getStdout
  stdout.putStr machine.sink.text
  stdout.flush
  match outcome? with
  | some outcome => return Machine.conclude machine.sink outcome
  | none => finish assembly { machine with sink := .unlimited }

instance : Surroundings IO where
  read := readText
  write := writeText
  out text := do (← IO.getStdout).putStr text
  err text := do (← IO.getStderr).putStr text
  finish := finish

end ImpStack.Main

def main (args : List String) : IO UInt32 := ImpStack.CommandLine.execute args
