import Movesets.Storage.Path
import Movesets.Table

set_option autoImplicit false

/-!
# Disks

The operations on files that a program needs, and files in memory as their model: a tree of
directories with named entries, and files with their texts.
-/

namespace Movesets

/-- Files that a computation can reach.  Writing and making directories tell if they succeed. -/
class Disk (m : Type → Type) where
  hasPath : String → m Bool
  readText : String → m (Option String)
  writeText : String → String → m Bool
  /-- Makes a directory and those that lead to it; one that is there already will do. -/
  makeDirectory : String → m Bool

/-- A file with its text, or a directory with its entries under their names. -/
inductive FileNode where
  | file (text : String)
  | directory (entries : List (String × FileNode))

namespace FileNode

def empty : FileNode := .directory []

def isDirectory : FileNode → Bool
  | .directory _ => true
  | .file _ => false

def text? : FileNode → Option String
  | .file text => some text
  | .directory _ => none

def at? : FileNode → List String → Option FileNode
  | n, [] => some n
  | .directory entries, name :: names => (entries.lookup name).bind fun n => n.at? names
  | .file _, _ :: _ => none

/-- The tree with the node that names lead to set; directories that are missing are made. -/
def set : FileNode → List String → FileNode → FileNode
  | _, [], new => new
  | .directory entries, name :: names, new =>
    .directory (Table.setEntry name (((entries.lookup name).getD empty).set names new) entries)
  | .file text, _ :: _, _ => .file text

def remove : FileNode → List String → FileNode
  | .directory entries, [name] => .directory (entries.filter fun e => e.1 != name)
  | .directory entries, name :: names =>
    match entries.lookup name with
    | some n => .directory (Table.setEntry name (n.remove names) entries)
    | none => .directory entries
  | n, _ => n

mutual

/-- The files of a tree that is found at a place. -/
def files (place : List String) : FileNode → List (List String × String)
  | .file text => [(place, text)]
  | .directory entries => filesAmong place entries

/-- The files among the entries of a directory. -/
def filesAmong (place : List String) : List (String × FileNode) → List (List String × String)
  | [] => []
  | (name, n) :: rest => files (place ++ [name]) n ++ filesAmong place rest

end

end FileNode

/-- Files in memory, and the directory that relative paths start from. -/
structure FileTree where
  root : FileNode
  working : List String

namespace FileTree

def node? (t : FileTree) (place : List String) : Option FileNode := t.root.at? place

def isDirectory (t : FileTree) (place : List String) : Bool :=
  (t.node? place).any FileNode.isDirectory

def set (t : FileTree) (place : List String) (n : FileNode) : FileTree :=
  { t with root := t.root.set place n }

def remove (t : FileTree) (place : List String) : FileTree :=
  { t with root := t.root.remove place }

/-- A tree in which only the working directory exists. -/
def empty (working : List String) : FileTree := ⟨FileNode.empty.set working .empty, working⟩

/-- The place reached from a place by some parts; every place passed has to be a directory. -/
def walk? (t : FileTree) (place : List String) : List String → Option (List String)
  | [] => some place
  | part :: rest =>
    if !t.isDirectory place then none
    else if part = "." then t.walk? place rest
    else if part = ".." then t.walk? place.dropLast rest
    else t.walk? (place ++ [part]) rest

/-- Where a path starts. -/
def origin (t : FileTree) (path : String) : List String :=
  if Path.isAbsolute path then [] else t.working

/-- The place of a path, whether or not there is something. -/
def place? (t : FileTree) (path : String) : Option (List String) :=
  if Path.isUsable path then t.walk? (t.origin path) (Path.steps path) else none

def hasPath (t : FileTree) (path : String) : Bool :=
  ((t.place? path).bind t.node?).isSome

def readText? (t : FileTree) (path : String) : Option String :=
  ((t.place? path).bind t.node?).bind FileNode.text?

/-- A name that a file or directory can be given: of 255 bytes at most. -/
def isName (name : String) : Bool := name.utf8ByteSize ≤ 255

/-- The tree with a text written to a file in a directory that exists. -/
def writeText? (t : FileTree) (path text : String) : Option FileTree :=
  (t.place? path).bind fun place =>
    if t.isDirectory place || !t.isDirectory place.dropLast then none
    else if place.all isName then some (t.set place (.file text))
    else none

/-- Enters the directory that a part leads to from a place, which is made if nothing is there. -/
def enter? (t : FileTree) (place : List String) (part : String) :
    Option (FileTree × List String) :=
  if !t.isDirectory place then none
  else if part = "." then some (t, place)
  else if part = ".." then some (t, place.dropLast)
  else
    let next := place ++ [part]
    match t.node? next with
    | none => if isName part then some (t.set next .empty, next) else none
    | some n => if n.isDirectory then some (t, next) else none

/-- Enters one directory after another; what was made stays if a later one cannot be entered. -/
def enterAll (t : FileTree) (place : List String) :
    List String → FileTree × Option (List String)
  | [] => (t, some place)
  | part :: rest =>
    match t.enter? place part with
    | none => (t, none)
    | some (t, next) => t.enterAll next rest

/-- Makes a directory at the end of a path that leads there from a place.  A path that ends in `.`
only fits a directory that is there. -/
def makeLast (t : FileTree) (place : List String) : List String → FileTree × Bool
  | [part] =>
    match t.enter? place part with
    | none => (t, false)
    | some (t, _) => (t, true)
  | rest => (t, (t.walk? place rest).any t.isDirectory)

/-- The tree with a directory and all that lead to it, and whether this succeeded. -/
def makeDirectory (t : FileTree) (path : String) : FileTree × Bool :=
  if path = "" then (t, true)
  else if !Path.isUsable path then (t, false)
  else
    let parts := Path.parts path
    let leading := Path.leading parts
    match t.enterAll (t.origin path) leading with
    | (t, none) => (t, false)
    | (t, some place) => t.makeLast place (parts.drop leading.length)

def parentPath (path : String) : String :=
  let parent := "/".intercalate (Path.parts path).dropLast
  if Path.isAbsolute path then "/" ++ parent else parent

/-- The tree with a text in a file, the directories that lead to it made first; the tree itself if
that cannot be done. -/
def put (t : FileTree) (path text : String) : FileTree :=
  match t.makeDirectory (parentPath path) with
  | (made, true) => (made.writeText? path text).getD t
  | (_, false) => t

def files (t : FileTree) : List (List String × String) := t.root.files []

instance : Disk (StateM FileTree) where
  hasPath path := fun t => (t.hasPath path, t)
  readText path := fun t => (t.readText? path, t)
  writeText path text := fun t =>
    match t.writeText? path text with
    | none => (false, t)
    | some t => (true, t)
  makeDirectory path := fun t =>
    let (t, done) := t.makeDirectory path
    (done, t)

end FileTree

end Movesets
