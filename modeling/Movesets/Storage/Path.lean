import Movesets.Text.Split

set_option autoImplicit false

/-!
# Paths

Paths are texts with parts between slashes; a path that starts with a slash is absolute.  The part
`.` stays where it is, and `..` leads out of a directory.
-/

namespace Movesets.Path

def isAbsolute (path : String) : Bool := path.startsWith "/"

/-- A path taken from a directory; an absolute path stands alone. -/
def join (directory path : String) : String :=
  if isAbsolute path || directory = "" then path
  else if directory.endsWith "/" then directory ++ path
  else directory ++ "/" ++ path

/-- The parts between slashes that are not empty. -/
def parts (path : String) : List String :=
  ((Text.splitOn '/' path.toList).map String.ofList).filter (· != "")

/-- The parts to walk to what is under the path; a slash at the end asks for a directory, as a part
`.` behind it would. -/
def steps (path : String) : List String :=
  if path.endsWith "/" then parts path ++ ["."] else parts path

/-- The parts before the last one that is not `.`: those that lead to the directory that is to be
made under a path. -/
def leading (parts : List String) : List String :=
  ((parts.reverse.dropWhile (· == ".")).drop 1).reverse

/-- The greatest length of a path in bytes. -/
def longest : Nat := 4095

/-- A path that can be asked for: it is not empty or too long and has no zero byte. -/
def isUsable (path : String) : Bool :=
  path != "" && path.utf8ByteSize ≤ longest && !path.toList.contains '\x00'

end Movesets.Path
