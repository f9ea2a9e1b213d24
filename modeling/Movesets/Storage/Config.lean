import Movesets.Storage.Disk
import Movesets.Data.Reader
import Movesets.Data.Printer
import Movesets.Environment
import Movesets.RulesFile
import Movesets.Library

set_option autoImplicit false

/-!
# The data directory

The settings, the rules and the library are each kept in one file of the data directory.  A file
that is not there stands for the defaults.  Settings and library are decoded strictly, so that one
bad value fails the file; rules are read leniently and fail only if the file is no data at all.
-/

namespace Movesets

inductive ConfigFile where
  | settings
  | rules
  | library
  deriving DecidableEq, Repr

namespace ConfigFile

def word : ConfigFile → String
  | .settings => "settings"
  | .rules => "rules"
  | .library => "library"

def fileName : ConfigFile → String
  | .settings => "Stancecraft Settings.yaml"
  | .rules => "Stancecraft Rules.yaml"
  | .library => "Stancecraft Library.yaml"

/-- The path of the file in a data directory. -/
def path (f : ConfigFile) (dataDir : String) : String := Path.join dataDir f.fileName

end ConfigFile

/-- Why configuration could not be loaded or saved, or documents not written. -/
inductive StorageError where
  | dataDirectory (path : String)
  | logDirectory (path : String)
  | logFile (directory : String)
  | unreadable (file : ConfigFile) (path : String)
  | malformed (file : ConfigFile) (path : String)
  | unwritable (file : ConfigFile) (path : String)
  | environment
  | outputDirectory (path : String)
  | document (path : String)
  deriving DecidableEq, Repr

namespace StorageError

def message : StorageError → String
  | .dataDirectory path => "Failed to create data directory: " ++ path
  | .logDirectory path => "Failed to create log directory: " ++ path
  | .logFile directory => "Failed to open a log file in: " ++ directory
  | .unreadable f path => "Failed to read " ++ f.word ++ ": " ++ path
  | .malformed f path => "Failed to parse " ++ f.word ++ ": " ++ path
  | .unwritable f path => "Failed to write " ++ f.word ++ ": " ++ path
  | .environment => "Failed to parse environment overrides"
  | .outputDirectory path => "Failed to create output directory: " ++ path
  | .document path => "Failed to write document: " ++ path

end StorageError

namespace Config

/-- The settings in the text of a settings file. -/
def parseSettings? (text : String) : Option Settings :=
  if Data.isEmptyFile text then some .default
  else (Data.read? .verbatim text).bind (Settings.ofFile? .verbatim)

/-- The model in the text of a rules file; a file without a value is one with nothing in it. -/
def parseModel? (text : String) : Option Model :=
  if Data.isEmptyFile text then some (RulesFile.model .null)
  else (Data.read? .configuration text).map RulesFile.model

/-- The library in the text of a library file. -/
def parseLibrary? (text : String) : Option Library :=
  if Data.isEmptyFile text then some .empty
  else (Data.read? .verbatim text).bind (Library.ofData? .verbatim)

variable {m : Type → Type} [Monad m] [Disk m]

/-- What an operation that may fail on a file makes of its failure. -/
def orFail (done : m Bool) (e : StorageError) : ExceptT StorageError m Unit := do
  if ← done then pure () else throw e

/-- Makes a directory unless its path exists. -/
def makeUnlessThere (path : String) (e : StorageError) : ExceptT StorageError m Unit := do
  if ← Disk.hasPath (m := m) path then pure () else orFail (Disk.makeDirectory path) e

/-- Loads a file of the data directory, or takes the default if it is not there. -/
def load {α : Type} (f : ConfigFile) (dataDir : String) (fallback : α)
    (parse? : String → Option α) : ExceptT StorageError m α := do
  let path := f.path dataDir
  if ← Disk.hasPath (m := m) path then
    match ← Disk.readText (m := m) path with
    | none => throw (.unreadable f path)
    | some text =>
      match parse? text with
      | none => throw (.malformed f path)
      | some a => pure a
  else pure fallback

/-- Saves data as a file of the data directory. -/
def save (f : ConfigFile) (dataDir : String) (d : Data) : ExceptT StorageError m Unit :=
  let path := f.path dataDir
  orFail (Disk.writeText path (d.pretty .configuration)) (.unwritable f path)

/-- The settings of the file with the overrides of the environment. -/
def loadSettings (dataDir : String) (env : List (String × String)) :
    ExceptT StorageError m Settings := do
  let settings ← load .settings dataDir .default parseSettings?
  match Environment.overridden? env settings with
  | none => throw .environment
  | some settings => pure settings

def loadModel (dataDir : String) : ExceptT StorageError m Model :=
  load .rules dataDir .builtIn parseModel?

def loadLibrary (dataDir : String) : ExceptT StorageError m Library :=
  load .library dataDir .empty parseLibrary?

def saveSettings (dataDir : String) (s : Settings) : ExceptT StorageError m Unit :=
  save .settings dataDir s.toFile

def saveModel (dataDir : String) (model : Model) : ExceptT StorageError m Unit :=
  save .rules dataDir model.toData

def saveLibrary (dataDir : String) (l : Library) : ExceptT StorageError m Unit :=
  save .library dataDir l.toData

/-- The output directory of the settings, taken from the data directory. -/
def outputDir (dataDir : String) (s : Settings) : String := Path.join dataDir s.outputDir

end Config

end Movesets
