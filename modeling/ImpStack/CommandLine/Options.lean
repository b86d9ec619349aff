/-!
The arguments of the command line (SPEC_FULL, section 6).

An argument that starts with a dash, a lone dash apart, is an option; `--` ends the options. A
setting takes its value from the same argument or from the next one, which must not be an option. No
option may be given twice.
-/
namespace ImpStack

structure Options where
  input : String
  output : String
  entry : String
  run : Bool
  emitTree : Bool
  verbose : Bool
  deriving DecidableEq, Repr

/-- What the arguments ask for. -/
inductive Request where
  | compile (options : Options)
  | help
  | version
  deriving DecidableEq, Repr

inductive UsageError where
  | missingInput
  | unexpectedArgument (arg : String)
  | missingValue (setting : String)
  | emptyValue (setting : String)
  | needlessValue (flag : String)
  | repeated (option : String)
  deriving DecidableEq, Repr

def UsageError.message : UsageError → String
  | missingInput => "no input file"
  | unexpectedArgument arg => s!"unexpected argument '{arg}'"
  | missingValue setting => s!"'--{setting}' needs a value"
  | emptyValue setting => s!"the value of '{setting}' is empty"
  | needlessValue flag => s!"'--{flag}' takes no value"
  | repeated option => s!"'{option}' is given twice"

/-- An option without a value. -/
inductive Flag where
  | run | emitTree | verbose
  deriving DecidableEq, Repr

def Flag.name : Flag → String
  | run => "run"
  | emitTree => "emit-ast"
  | verbose => "verbose"

/-- An option with a value. -/
inductive Setting where
  | output | entry
  deriving DecidableEq, Repr

def Setting.name : Setting → String
  | output => "output"
  | entry => "entry"

/-- The options read so far. -/
structure Draft where
  input? : Option String
  output? : Option String
  entry? : Option String
  flags : List Flag
  deriving DecidableEq, Repr

/-- What an option leads to. -/
inductive OptionRead where
  | done (draft : Draft)
  /-- The value of the setting is the next argument. -/
  | wants (draft : Draft) (setting : Setting)
  | answer (request : Request)
  deriving DecidableEq, Repr

namespace Draft

def empty : Draft := ⟨none, none, none, []⟩

def raise (draft : Draft) (flag : Flag) : Except UsageError Draft :=
  if flag ∈ draft.flags then .error (.repeated flag.name)
  else .ok { draft with flags := flag :: draft.flags }

/-- A path must not be empty; the name of the entry function may be. -/
def set (draft : Draft) (setting : Setting) (value : String) : Except UsageError Draft :=
  match setting with
  | .output =>
    if draft.output?.isSome then .error (.repeated setting.name)
    else if value = "" then .error (.emptyValue setting.name)
    else .ok { draft with output? := some value }
  | .entry =>
    if draft.entry?.isSome then .error (.repeated setting.name)
    else .ok { draft with entry? := some value }

def addInput (draft : Draft) (path : String) : Except UsageError Draft :=
  if draft.input?.isSome then .error (.unexpectedArgument path)
  else if path = "" then .error (.emptyValue "input")
  else .ok { draft with input? := some path }

def finish (draft : Draft) : Except UsageError Request :=
  match draft.input? with
  | none => .error .missingInput
  | some input =>
    .ok (.compile {
      input
      output := draft.output?.getD "Main.sasm"
      entry := draft.entry?.getD "main"
      run := Flag.run ∈ draft.flags
      emitTree := Flag.emitTree ∈ draft.flags
      verbose := Flag.verbose ∈ draft.flags })

/-- A name behind two dashes, with the value behind `=` if there is one. -/
def readLong (draft : Draft) (name : String) (value? : Option String) :
    Except UsageError OptionRead :=
  let flag (flag : Flag) := (draft.raise flag).map OptionRead.done
  let setting (setting : Setting) :=
    match value? with
    | some value => (draft.set setting value).map OptionRead.done
    | none => .ok (.wants draft setting)
  let bare (read : Except UsageError OptionRead) :=
    if value?.isSome then .error (.needlessValue name) else read
  if name = "output" then setting .output
  else if name = "entry" then setting .entry
  else if name = "run" then bare (flag .run)
  else if name = "emit-ast" then bare (flag .emitTree)
  else if name = "verbose" then bare (flag .verbose)
  else if name = "help" then bare (.ok (.answer .help))
  else if name = "version" then bare (.ok (.answer .version))
  else .error (.unexpectedArgument ("--" ++ name))

/-- The letters behind one dash. What follows the letter of a setting is its value, an equals sign
before it apart. -/
def readShort (draft : Draft) : List Char → Except UsageError OptionRead
  | [] => .ok (.done draft)
  | 'v' :: letters => do
    let draft ← draft.raise .verbose
    draft.readShort letters
  | 'o' :: [] => .ok (.wants draft .output)
  | 'o' :: '=' :: value => (draft.set .output (String.ofList value)).map .done
  | 'o' :: value => (draft.set .output (String.ofList value)).map .done
  | 'h' :: _ => .ok (.answer .help)
  | 'V' :: _ => .ok (.answer .version)
  | letter :: _ => .error (.unexpectedArgument (String.ofList ['-', letter]))

/-- One option, by its characters. -/
def readOption (draft : Draft) : List Char → Except UsageError OptionRead
  | '-' :: '-' :: rest =>
    let name := String.ofList (rest.takeWhile (· ≠ '='))
    match rest.dropWhile (· ≠ '=') with
    | [] => draft.readLong name none
    | _ :: value => draft.readLong name (some (String.ofList value))
  | letters => draft.readShort letters.tail

end Draft

def isOption (arg : String) : Bool := arg.toList.head? = some '-' && arg ≠ "-"

/-- The arguments behind those that `draft` stands for. -/
def Request.read (draft : Draft) : List String → Except UsageError Request
  | [] => draft.finish
  | arg :: args =>
    if arg = "--" then do
      let draft ← args.foldlM Draft.addInput draft
      draft.finish
    else if isOption arg then do
      match ← draft.readOption arg.toList with
      | .done draft => Request.read draft args
      | .answer request => return request
      | .wants draft setting =>
        match args with
        | [] => .error (.missingValue setting.name)
        | value :: args =>
          if isOption value then .error (.missingValue setting.name)
          else do
            let draft ← draft.set setting value
            Request.read draft args
    else do
      let draft ← draft.addInput arg
      Request.read draft args

def Request.ofArgs (args : List String) : Except UsageError Request := Request.read .empty args

end ImpStack
