import Movesets.Storage.Config
import Movesets.Document

set_option autoImplicit false

/-!
# Exporting documents

Each document is written to a file of its own.  When conditions are preserved, the foreign
conditions of the file that is there are kept; a file that is no document counts as none.  The first
file that cannot be written ends the export.
-/

namespace Movesets.Export

variable {m : Type → Type} [Monad m] [Disk m]

/-- The document that a file holds, if it holds one. -/
def existing (path : String) : m (Option Data) := do
  return (← Disk.readText path).bind (Data.read? .document)

/-- The text of a document, over what its file holds if that is to be preserved. -/
def text (d : Document) (existing : Option Data) : String := (d.render existing).pretty .document

def writeOne (outDir : String) (preserve : Bool) (d : Document) : ExceptT StorageError m Unit := do
  let path := Path.join outDir d.fileName
  let kept ← if preserve then (existing path : m _) else pure none
  Config.orFail (Disk.writeText path (text d kept)) (.document path)

/-- Writes all documents; the number of documents written. -/
def write (outDir : String) (preserve : Bool) (documents : List Document) :
    ExceptT StorageError m Nat := do
  Config.orFail (Disk.makeDirectory outDir) (.outputDirectory outDir)
  documents.forM (writeOne outDir preserve)
  return documents.length

end Movesets.Export
