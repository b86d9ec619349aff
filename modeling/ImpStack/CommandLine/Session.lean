import ImpStack.CommandLine.Options
import ImpStack.Diagnostic
import ImpStack.Machine.Step
import ImpStack.Syntax.Printer

/-!
What the program does with files and with its output (SPEC_FULL, section 6). It works in any
surroundings that offer files, two output streams and the run of a machine to its end. Nothing is
written when an earlier stage has failed.
-/
namespace ImpStack

class Surroundings (m : Type → Type) where
  /-- The text of a file, or why there is none. -/
  read : (path : String) → m (Except String String)
  write : (path text : String) → m (Except String Unit)
  out : String → m Unit
  err : String → m Unit
  /-- Runs the machine until it stops; its lines go to the output. -/
  finish : Assembly → Machine → m Outcome

/-- Why no listing could be made of a file. -/
inductive BuildError where
  | read (path cause : String)
  | write (path cause : String)
  | compile (error : CompileError)
  deriving DecidableEq, Repr

namespace BuildError

def message : BuildError → String
  | read path _ => s!"failed to read {path}"
  | write path _ => s!"failed to write {path}"
  | compile error => error.message

def cause? : BuildError → Option String
  | read _ cause => some cause
  | write _ cause => some cause
  | compile _ => none

end BuildError

section

variable {m : Type → Type} [Monad m] [Surroundings m]

/-- Compiles the file `input` and writes the listing to `output`. Nothing is written when the
compilation fails. -/
def compileFile (input output : String) : m (Except BuildError Assembly) := do
  match ← Surroundings.read input with
  | .error cause => return .error (.read input cause)
  | .ok source =>
    match Assembly.ofSource Assembly.defaultName source with
    | .error error => return .error (.compile error)
    | .ok assembly =>
      match ← Surroundings.write output assembly.listing with
      | .error cause => return .error (.write output cause)
      | .ok () => return .ok assembly

namespace CommandLine

def usage : String :=
  "Usage: impstack [OPTIONS] <INPUT>\n\n" ++
  "  -o, --output <OUTPUT>  Where to write the listing [default: Main.sasm]\n" ++
  "      --run              Run the entry function after compiling\n" ++
  "      --entry <ENTRY>    Function to run with --run [default: main]\n" ++
  "      --emit-ast         Print the syntax tree instead of compiling\n" ++
  "  -v, --verbose          Log every stage\n" ++
  "  -h, --help             Print help\n" ++
  "  -V, --version          Print version\n"

def version : String := "impstack 0.1.0\n"

/-- The text of an error on which the program ends. -/
def errorText (message : String) (cause? : Option String) : String :=
  match cause? with
  | none => s!"Error: {message}\n"
  | some cause => s!"Error: {message}\n\nCaused by:\n    {cause}\n"

def log (options : Options) (line : String) : m Unit :=
  if options.verbose then Surroundings.err (line ++ "\n") else pure ()

def failBuild (options : Options) (error : BuildError) : m UInt32 := do
  match error with
  | .compile error => Surroundings.err (error.report options.input)
  | _ => Surroundings.err (errorText error.message error.cause?)
  return 1

/-- Runs the entry function and shows the value it returns. -/
def runEntry (options : Options) (assembly : Assembly) : m UInt32 := do
  let outcome ←
    match Machine.start assembly options.entry .unlimited with
    | .error fault => pure (.error fault)
    | .ok machine => Surroundings.finish assembly machine
  match outcome with
  | .error fault =>
    Surroundings.err (errorText fault.message none)
    return 1
  | .ok none => return 0
  | .ok (some value) =>
    Surroundings.out (Terminal.boldGreen "Returned" ++ s!" {value.text}\n")
    return 0

/-- Compiles the text of the input file as the options say. -/
def compileSource (options : Options) (source : String) : m UInt32 := do
  if options.emitTree then
    match Program.ofSource source with
    | .error error => failBuild options (.compile (.grammar error))
    | .ok program =>
      Surroundings.out (program.text ++ "\n")
      return 0
  else
    match Assembly.ofSource Assembly.defaultName source with
    | .error error => failBuild options (.compile error)
    | .ok assembly =>
      log options "compiled"
      match ← Surroundings.write options.output assembly.listing with
      | .error cause => failBuild options (.write options.output cause)
      | .ok () =>
        log options s!"wrote {options.output}"
        Surroundings.out
          (Terminal.boldGreen "Compiled" ++ s!" {options.input} -> {options.output}\n")
        if options.run then runEntry options assembly else return 0

/-- The whole program; its answer is the exit code. -/
def execute (args : List String) : m UInt32 := do
  match Request.ofArgs args with
  | .error error =>
    Surroundings.err s!"error: {error.message}\n\n{usage}"
    return 2
  | .ok .help =>
    Surroundings.out usage
    return 0
  | .ok .version =>
    Surroundings.out version
    return 0
  | .ok (.compile options) =>
    match ← Surroundings.read options.input with
    | .error cause => failBuild options (.read options.input cause)
    | .ok source =>
      log options s!"read {options.input}"
      compileSource options source

end CommandLine

end

end ImpStack
