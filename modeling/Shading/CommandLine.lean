import Shading.Run

/-!
    The command line.

    Arguments are read from left to right. An option has a long name, and some have a letter too. Its
    value stands in the same argument, behind an equals sign, which a letter can do without, or it is the
    next argument, which must not look like an option. Behind `--` every argument is an input. Asking for
    the version or for help ends the reading at once: what stands in front has to be right, what follows
    is not looked at, and conflicts between options do not matter. -/

namespace Shading

/-- What the program is called. -/
def programName : String := "triad-shaderc"

/-- The answer to a question for the version. -/
def versionText : String := programName ++ " 0.1.0\n"

/-- The answer to a question for help. -/
def helpText : String :=
  String.join ([
    "Usage: " ++ programName ++ " [OPTIONS] [INPUT]",
    "",
    "      --builtin <NAME>       adapt a built-in shader instead of a file",
    "  -s, --stage <STAGE>        vertex (default) or fragment",
    "  -b, --backend <BACKEND>    gles2, gles3 (default), glcore, vulkan or metal",
    "  -D, --define <SYMBOL>      a symbol that is defined; can be given again",
    "      --defines-file <PATH>  a file whose directives define symbols",
    "  -o, --output <PATH>        the file for the result; it is printed otherwise",
    "  -m, --manifest <PATH>      a manifest of jobs to run instead of one input",
    "      --list-backends        print the backends and their dialects",
    "      --log-level <LEVEL>    how much to log; nothing is logged",
    "  -h, --help                 print this help",
    "  -V, --version              print the version"].map (· ++ "\n"))

namespace CommandLine

/-- The options. -/
inductive Switch where
  | builtin
  | stage
  | backend
  | define
  | definesFile
  | output
  | manifest
  | listBackends
  | logLevel
  | help
  | version
  deriving DecidableEq, Repr

namespace Switch

/-- The options in order. -/
def all : List Switch :=
  [.builtin, .stage, .backend, .define, .definesFile, .output, .manifest, .listBackends, .logLevel,
   .help, .version]

/-- The long name of an option. -/
def name : Switch → String
  | .builtin => "builtin"
  | .stage => "stage"
  | .backend => "backend"
  | .define => "define"
  | .definesFile => "defines-file"
  | .output => "output"
  | .manifest => "manifest"
  | .listBackends => "list-backends"
  | .logLevel => "log-level"
  | .help => "help"
  | .version => "version"

/-- The letter of an option, if it has one. -/
def letter? : Switch → Option Char
  | .stage => some 's'
  | .backend => some 'b'
  | .define => some 'D'
  | .output => some 'o'
  | .manifest => some 'm'
  | .help => some 'h'
  | .version => some 'V'
  | _ => none

/-- The option takes a value. -/
def takesValue : Switch → Bool
  | .listBackends | .help | .version => false
  | _ => true

/-- The option of a long name. -/
def named? (name : Text) : Option Switch := all.find? fun switch => switch.name.toList == name

/-- The option of a letter. -/
def lettered? (c : Char) : Option Switch := all.find? fun switch => switch.letter? == some c

end Switch

/-- What is wrong with a command line. -/
inductive UsageError where
  | unknownOption (arg : Text)
  | missingValue (switch : Switch)
  | unneededValue (switch : Switch)
  | repeated (switch : Switch)
  | invalidValue (switch : Switch) (value : Text)
  | emptyInput
  | tooManyInputs (arg : Text)
  | inputConflict (switch : Switch)
  | conflict (one other : Switch)
  deriving DecidableEq, Repr

/-- The wording of an error. -/
def UsageError.message : UsageError → String
  | .unknownOption arg => "unknown option: " ++ String.ofList arg
  | .missingValue switch => "a value is required for --" ++ switch.name
  | .unneededValue switch => "no value is taken by --" ++ switch.name
  | .repeated switch => "given more than once: --" ++ switch.name
  | .invalidValue switch value =>
    "invalid value for --" ++ switch.name ++ ": " ++ String.ofList value
  | .emptyInput => "the input is empty"
  | .tooManyInputs arg => "unexpected input: " ++ String.ofList arg
  | .inputConflict switch => "an input cannot be given with --" ++ switch.name
  | .conflict one other => "--" ++ one.name ++ " cannot be given with --" ++ other.name

/-- What has been read of a command line. -/
structure Draft where
  input : Option Path
  builtin : Option Text
  stage : Option Stage
  backend : Option Backend
  defines : List Text
  definesFile : Option Path
  output : Option Path
  manifest : Option Path
  logLevel : Option Text
  listBackends : Bool

/-- What a command line asks for. -/
inductive Demand where
  | request (request : Request)
  | version
  | help
  deriving DecidableEq, Repr

namespace Draft

/-- Nothing has been read. -/
def empty : Draft := ⟨none, none, none, none, [], none, none, none, none, false⟩

/-- The option has been given and must not be given again. -/
def has (d : Draft) : Switch → Bool
  | .builtin => d.builtin.isSome
  | .stage => d.stage.isSome
  | .backend => d.backend.isSome
  | .definesFile => d.definesFile.isSome
  | .output => d.output.isSome
  | .manifest => d.manifest.isSome
  | .logLevel => d.logLevel.isSome
  | .listBackends => d.listBackends
  | .define | .help | .version => false

/-- Take an input. -/
def withInput (d : Draft) (arg : Text) : Except UsageError Draft :=
  if d.input.isSome then .error (.tooManyInputs arg)
  else if arg.isEmpty then .error .emptyInput
  else .ok { d with input := some arg }

/-- Take inputs only. -/
def withInputs (d : Draft) : List Text → Except UsageError Draft
  | [] => .ok d
  | arg :: args =>
    match d.withInput arg with
    | .error error => .error error
    | .ok d => d.withInputs args

/-- Take the value of an option. A path must not be empty. -/
def withValue (d : Draft) (switch : Switch) (value : Text) : Except UsageError Draft :=
  let refused : Except UsageError Draft := .error (.invalidValue switch value)
  if d.has switch then .error (.repeated switch)
  else match switch with
    | .builtin => .ok { d with builtin := some value }
    | .stage =>
      match Stage.ofText? value with
      | some stage => .ok { d with stage := some stage }
      | none => refused
    | .backend =>
      match Backend.ofText? value with
      | some backend => .ok { d with backend := some backend }
      | none => refused
    | .define => .ok { d with defines := d.defines ++ [value] }
    | .definesFile => if value.isEmpty then refused else .ok { d with definesFile := some value }
    | .output => if value.isEmpty then refused else .ok { d with output := some value }
    | .manifest => if value.isEmpty then refused else .ok { d with manifest := some value }
    | .logLevel => .ok { d with logLevel := some value }
    | .listBackends | .help | .version => .error (.unneededValue switch)

/-- Two options of which only one may be given, or an option with an input. -/
def conflict? (d : Draft) : Option UsageError :=
  if d.input.isSome && d.builtin.isSome then some (.inputConflict .builtin)
  else if d.input.isSome && d.manifest.isSome then some (.inputConflict .manifest)
  else if d.manifest.isSome && d.builtin.isSome then some (.conflict .manifest .builtin)
  else none

/-- The shader that is asked for; an input goes before a built-in shader. -/
def source? (d : Draft) : Option Source :=
  match d.input, d.builtin with
  | some path, _ => some (.file path)
  | none, some name => some (.builtin name)
  | none, none => none

/-- What the whole command line asks for. The stage is the vertex stage and the backend is GLES 3 unless
    they are given. -/
def request (d : Draft) : Except UsageError Request :=
  match d.conflict? with
  | some error => .error error
  | none =>
    if d.listBackends then .ok .listBackends
    else match d.manifest with
      | some path => .ok (.manifest path)
      | none =>
        .ok (.single
          { source := d.source?
            stage := d.stage.getD .vertex
            backend := d.backend.getD .gles3
            defines := d.defines
            definesFile := d.definesFile
            output := d.output })

end Draft

/-- What an argument is, seen by itself. -/
inductive Word where
  | input
  | ending
  | unknown
  | option (switch : Switch) (value : Option Text)

/-- The text behind an equals sign, or all of it when there is none at its beginning. -/
def behindEquals : Text → Text
  | '=' :: value => value
  | value => value

/-- Tell what an argument is. A lone `-` is an input. Behind the letter of an option without a value
    more letters may stand; the options are such that these are never looked at. -/
def classify : Text → Word
  | ['-', '-'] => .ending
  | '-' :: '-' :: body =>
    match Switch.named? (body.takeWhile (· ≠ '=')) with
    | none => .unknown
    | some switch =>
      match body.dropWhile (· ≠ '=') with
      | [] => .option switch none
      | _ :: value => .option switch (some value)
  | '-' :: c :: body =>
    match Switch.lettered? c with
    | none => .unknown
    | some switch =>
      if switch.takesValue && !body.isEmpty then .option switch (some (behindEquals body))
      else .option switch none
  | _ => .input

/-- The argument cannot be the value of the option in front of it. -/
def looksLikeOption (arg : Text) : Bool := arg.head? == some '-' && arg != ['-']

/-- Read the arguments, given what has been read. -/
def readArgs (d : Draft) : List Text → Except UsageError Demand
  | [] => d.request.map .request
  | arg :: args =>
    match classify arg with
    | .ending => do return .request (← (← d.withInputs args).request)
    | .unknown => .error (.unknownOption arg)
    | .input =>
      match d.withInput arg with
      | .error error => .error error
      | .ok d => readArgs d args
    | .option switch value =>
      if switch.takesValue then
        match value, args with
        | some value, args =>
          match d.withValue switch value with
          | .error error => .error error
          | .ok d => readArgs d args
        | none, [] => .error (.missingValue switch)
        | none, next :: args =>
          if looksLikeOption next then .error (.missingValue switch)
          else match d.withValue switch next with
            | .error error => .error error
            | .ok d => readArgs d args
      else if value.isSome then .error (.unneededValue switch)
      else if switch = .version then .ok .version
      else if switch = .help then .ok .help
      else if d.listBackends then .error (.repeated .listBackends)
      else readArgs { d with listBackends := true } args

/-- What the arguments ask for. -/
def parse (args : List Text) : Except UsageError Demand := readArgs .empty args

end CommandLine

/-- How a program run ends: what it prints, what it complains of, and the exit code. -/
structure Ending where
  code : Nat
  printed : Text
  complaint : Option String

/-- Run a command line on a file system; answer how it ends and the files that are then there. -/
def Workspace.runCommand (args : List Text) (files : FileSystem) : Ending × FileSystem :=
  match CommandLine.parse args with
  | .error error => (⟨2, [], some error.message⟩, files)
  | .ok .version => (⟨0, versionText.toList, none⟩, files)
  | .ok .help => (⟨0, helpText.toList, none⟩, files)
  | .ok (.request request) =>
    match Workspace.run request files with
    | (.ok (), w) => (⟨0, w.printed, none⟩, w.files)
    | (.error failure, w) =>
      (⟨1, w.printed, some (programName ++ " error: " ++ failure.message)⟩, w.files)

end Shading
