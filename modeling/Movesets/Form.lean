import Movesets.Text.Blank
import Movesets.Text.Hex

set_option autoImplicit false

/-!
# Form references

A form is a record of a plugin, named by the plugin and a 32-bit local id: `Skyrim.esm|0x00013BBF`.
The text before the bar is the plugin, blanks around it not counted; the text behind it is one to
eight hexadecimal digits, blanks around them not counted, with or without `0x` or `0X`.  A plugin of
blanks alone is its last blank.
-/

namespace Movesets

/-- A reference to a form of a plugin. -/
structure Form where
  plugin : String
  localId : UInt32
  deriving DecidableEq, Repr, Inhabited

namespace Form

/-- The base form of the player. -/
def playerBase : Form := ⟨"Skyrim.esm", 7⟩

def isPlayerBase (f : Form) : Bool := f == playerBase

/-- The plugin named by the text before the bar. -/
def readPlugin? (before : List Char) : Option (List Char) :=
  match Text.trim before with
  | [] => before.getLast?.map fun c => [c]
  | cs => some cs

/-- Digits without the mark that may stand before them. -/
def dropMark : List Char → List Char
  | '0' :: 'x' :: cs => cs
  | '0' :: 'X' :: cs => cs
  | cs => cs

/-- The local id written behind the bar. -/
def readId? (after : List Char) : Option UInt32 :=
  let digits := dropMark (Text.trim after)
  if digits.length ≤ 8 then (Text.readHex digits).map UInt32.ofNat else none

/-- The form that a text names. -/
def parse? (s : String) : Option Form :=
  let cs := s.toList
  match cs.dropWhile (· != '|') with
  | [] => none
  | _ :: after =>
    (readPlugin? (cs.takeWhile (· != '|'))).bind fun plugin =>
      (readId? after).map fun localId => ⟨.ofList plugin, localId⟩

/-- The text of a form: eight upper-case digits behind the bar. -/
def print (f : Form) : String :=
  f.plugin ++ "|0x" ++ .ofList (Text.writeHex 8 f.localId.toNat)

/-- Forms in order of plugin, then local id. -/
def le (f g : Form) : Bool :=
  f.plugin < g.plugin || (f.plugin == g.plugin && f.localId ≤ g.localId)

end Form

end Movesets
