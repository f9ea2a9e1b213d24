import Movesets.Storage.Export
import Movesets.Session

set_option autoImplicit false

/-!
# The command line

`--data`, `--out` and `--log-dir` take a value, behind `=` or as the next argument; `--debug` and
`--console` take none.  No option may be given twice, and nothing else may be given.  Arguments are
read from left to right, and a request for help or for the version ends the reading.

A run loads the data directory, compiles the model and writes the documents.
-/

namespace Movesets.CommandLine

structure Options where
  data : Option String
  out : Option String
  logDir : Option String
  debug : Bool
  console : Bool
  deriving DecidableEq, Repr

namespace Options

def none : Options := ⟨.none, .none, .none, false, false⟩

def dataDir (o : Options) : String := o.data.getD "Stancecraft Data"

def logPath (o : Options) : String := o.logDir.getD "logs"

end Options

/-- What the arguments ask for. -/
inductive Request where
  | run (options : Options)
  | help
  | version
  deriving DecidableEq, Repr

/-- Why arguments are refused. -/
inductive UsageError where
  | unexpected (argument : String)
  | valueMissing (option : String)
  | valueUnwanted (option : String)
  | repeated (option : String)
  deriving DecidableEq, Repr

namespace UsageError

def message : UsageError → String
  | .unexpected a => "error: unexpected argument '" ++ a ++ "' found"
  | .valueMissing o => "error: a value is required for '--" ++ o ++ "' but none was supplied"
  | .valueUnwanted o => "error: unexpected value for '--" ++ o ++ "' found"
  | .repeated o => "error: the argument '--" ++ o ++ "' cannot be used multiple times"

end UsageError

/-- What a long option is for. -/
inductive OptionKind where
  | data
  | out
  | logDir
  | debug
  | console
  | help
  | version
  deriving DecidableEq, Repr

namespace OptionKind

def name : OptionKind → String
  | .data => "data"
  | .out => "out"
  | .logDir => "log-dir"
  | .debug => "debug"
  | .console => "console"
  | .help => "help"
  | .version => "version"

def all : List OptionKind := [.data, .out, .logDir, .debug, .console, .help, .version]

def ofName? (s : String) : Option OptionKind := all.find? fun k => k.name == s

def takesValue : OptionKind → Bool
  | .data => true
  | .out => true
  | .logDir => true
  | _ => false

end OptionKind

/-- The options with the value of one set, unless it was set before. -/
def setValue (o : Options) (k : OptionKind) (value : String) : Except UsageError Options :=
  match k with
  | .data => if o.data.isSome then .error (.repeated k.name) else .ok { o with data := some value }
  | .out => if o.out.isSome then .error (.repeated k.name) else .ok { o with out := some value }
  | .logDir =>
    if o.logDir.isSome then .error (.repeated k.name) else .ok { o with logDir := some value }
  | _ => .error (.valueUnwanted k.name)

/-- The options with one switched on, unless it was before. -/
def setSwitch (o : Options) (k : OptionKind) : Except UsageError Options :=
  match k with
  | .debug => if o.debug then .error (.repeated k.name) else .ok { o with debug := true }
  | .console => if o.console then .error (.repeated k.name) else .ok { o with console := true }
  | _ => .error (.valueMissing k.name)

/-- An argument that can be a value: it does not start like an option, or is a lone hyphen. -/
def isValue (a : String) : Bool := !a.startsWith "-" || a == "-"

/-- The name of a long option and the value attached to it. -/
def splitLong (cs : List Char) : String × Option String :=
  let name := String.ofList (cs.takeWhile (· != '='))
  match cs.dropWhile (· != '=') with
  | [] => (name, none)
  | _ :: value => (name, some (.ofList value))

def parseFrom (o : Options) : List String → Except UsageError Request
  | [] => .ok (.run o)
  | a :: rest =>
    match a.toList with
    | ['-', '-'] =>
      match rest with
      | [] => .ok (.run o)
      | b :: _ => .error (.unexpected b)
    | '-' :: '-' :: cs =>
      let (name, value) := splitLong cs
      match OptionKind.ofName? name with
      | none => .error (.unexpected a)
      | some k =>
        match value with
        | some v =>
          match setValue o k v with
          | .error e => .error e
          | .ok o => parseFrom o rest
        | none =>
          if k = .help then .ok .help
          else if k = .version then .ok .version
          else if k.takesValue then
            match rest with
            | [] => .error (.valueMissing k.name)
            | v :: rest =>
              if isValue v then
                match setValue o k v with
                | .error e => .error e
                | .ok o => parseFrom o rest
              else .error (.valueMissing k.name)
          else
            match setSwitch o k with
            | .error e => .error e
            | .ok o => parseFrom o rest
    | '-' :: 'h' :: _ => .ok .help
    | '-' :: 'V' :: _ => .ok .version
    | _ => .error (.unexpected a)

def parse (args : List String) : Except UsageError Request := parseFrom .none args

variable {m : Type → Type} [Monad m] [Disk m]

/-- Loads, compiles and writes; the number of documents written. -/
def run (o : Options) (env : List (String × String)) : ExceptT StorageError m Nat := do
  let dataDir := o.dataDir
  Config.makeUnlessThere dataDir (.dataDirectory dataDir)
  let settings ← Config.loadSettings dataDir env
  Config.makeUnlessThere o.logPath (.logDirectory o.logPath)
  Config.orFail (Disk.hasPath (Path.join o.logPath ".")) (.logFile o.logPath)
  let model ← Config.loadModel dataDir
  let library ← Config.loadLibrary dataDir
  let session := ((Session.start model library).setMode settings.cycleMode).session
  let outDir := o.out.getD (Config.outputDir dataDir settings)
  Export.write outDir settings.preserveConditions session.compile.result

/-- How a program ends: what it says, and the code that it exits with. -/
structure Ending where
  code : Nat
  output : String
  error : String

def usage : String :=
  "Usage: stancecraft [OPTIONS]\n\nOptions:\n" ++
  "      --data <DATA>        Directory of the settings, rules and library files\n" ++
  "                           [default: \"Stancecraft Data\"]\n" ++
  "      --out <OUT>          Output directory for documents\n" ++
  "      --debug              Log at debug level\n" ++
  "      --console            Also log to the console\n" ++
  "      --log-dir <LOG_DIR>  Directory for log files [default: logs]\n" ++
  "  -h, --help               Print help\n" ++
  "  -V, --version            Print version\n"

/-- The code that a failed run exits with: without a log file it is broken off. -/
def failureCode : StorageError → Nat
  | .logFile _ => 101
  | _ => 1

/-- The whole program: it ends with 2 on wrong usage and with `failureCode` on failure. -/
def program (args : List String) (env : List (String × String)) : m Ending := do
  match parse args with
  | .error e => return ⟨2, "", e.message ++ "\n"⟩
  | .ok .help => return ⟨0, usage, ""⟩
  | .ok .version => return ⟨0, "stancecraft 1.0.0\n", ""⟩
  | .ok (.run o) =>
    match ← (run o env : ExceptT StorageError m Nat).run with
    | .error e => return ⟨failureCode e, "", "Error: " ++ e.message ++ "\n"⟩
    | .ok _ => return ⟨0, "", ""⟩

end Movesets.CommandLine
