import Movesets.Block
import Movesets.Model
import Movesets.Library
import Movesets.Condition.Document

set_option autoImplicit false

/-!
# Documents

One document for each animation of a library.  The blocks of all rules, categories and stances are
gathered under the sources they point at and then handed out to the animations; an animation for
which nothing was gathered is switched off.  Blocks that point at no animation are counted and
dropped.
-/

namespace Movesets

/-- What is exported for one animation. -/
structure Document where
  source : Source
  name : String
  priority : Int32
  capabilities : Capabilities
  condition : Condition
  deriving Repr

/-- What building documents counts. -/
structure BuildCounts where
  documents : UInt64
  blocks : UInt64
  dangling : UInt64
  deriving DecidableEq, Repr

/-- Conditions under the sources they were gathered for. -/
abbrev Gathered := List (Source × List Condition)

namespace Gathered

/-- The conditions of a source, if any were gathered for it. -/
def get? : Gathered → Source → Option (List Condition)
  | [], _ => none
  | (key, cs) :: rest, s => if key = s then some cs else get? rest s

/-- One more condition for a source. -/
def add : Gathered → Source → Condition → Gathered
  | [], s, c => [(s, [c])]
  | (key, cs) :: rest, s, c =>
    if key = s then (key, cs ++ [c]) :: rest else (key, cs) :: add rest s c

/-- What is left without a source. -/
def erase (g : Gathered) (s : Source) : Gathered := g.filter fun e => e.1 != s

end Gathered

/-- How far building has come. -/
structure Building where
  gathered : Gathered
  counts : BuildCounts

namespace Building

def start : Building := ⟨[], ⟨0, 0, 0⟩⟩

/-- Gathers a block for its animation, or counts it as dangling. -/
def collect (l : Library) (x : Building) (b : Block) : Building :=
  if l.contains b.source then
    ⟨x.gathered.add b.source b.condition, { x.counts with blocks := x.counts.blocks + 1 }⟩
  else { x with counts := { x.counts with dangling := x.counts.dangling + 1 } }

/-- Hands out what was gathered, animation by animation. -/
def handOut (x : Building) : List Animation → List Document × BuildCounts
  | [] => ([], x.counts)
  | a :: rest =>
    let condition := (x.gathered.get? a.source).elim .killSwitch .any
    let next : Building := ⟨x.gathered.erase a.source,
      { x.counts with documents := x.counts.documents + 1 }⟩
    let (documents, counts) := next.handOut rest
    (⟨a.source, a.name, a.priority, a.capabilities, condition⟩ :: documents, counts)

end Building

namespace Document

/-- The stances of a rule that are compiled: all for the player, the first for everyone else. -/
def stancesOf (r : Rule) : List Nat :=
  List.range (if r.isPlayer then stanceCount else 1)

/-- The blocks of one stance of a category; a category may lack the stance. -/
def stanceBlocks (r : Rule) (c : Category) (stance : Nat) : List Block :=
  match c.stance? stance with
  | none => []
  | some p => Block.compileAll r.categories (some r) c stance p

/-- Gathers the blocks of a rule. -/
def collectRule (l : Library) (x : Building) (r : Rule) : Building :=
  r.categories.values.foldl (fun x c =>
    (stancesOf r).foldl (fun x stance => (stanceBlocks r c stance).foldl (.collect l) x) x) x

/-- Gathers the blocks of all rules of a model. -/
def gather (m : Model) (l : Library) : Building :=
  m.allRules.foldl (fun x r => collectRule l x r.2) .start

/-- The documents of a model in order of source, and what building them counts. -/
def buildCounted (m : Model) (l : Library) : List Document × BuildCounts :=
  (gather m l).handOut l.toList

/-- The documents of a model in order of source. -/
def build (m : Model) (l : Library) : List Document := (buildCounted m l).1

/-- What building the documents of a model adds to the counters. -/
def counts (m : Model) (l : Library) : BuildCounts := (buildCounted m l).2

/-- The blocks of a rule. -/
def ruleBlocks (r : Rule) : List Block :=
  r.categories.values.flatMap fun c => (stancesOf r).flatMap (stanceBlocks r c)

/-- The blocks of a model, whether or not their source is known. -/
def modelBlocks (m : Model) : List Block :=
  m.allRules.flatMap fun r => ruleBlocks r.2

/-- The document switches its animation off. -/
def isDisabled (d : Document) : Bool := d.condition.isKillSwitch

/-- What an animation set offers, as a document says it. -/
def capabilityData (c : Capabilities) : Data :=
  .record [("hasComboPowerAttack", .bool c.comboPower), ("hasIdle", .bool c.idle),
    ("hasPowerAttackA", .bool c.powerA), ("hasPowerAttackB", .bool c.powerB),
    ("hasPowerAttackL", .bool c.powerL), ("hasPowerAttackR", .bool c.powerR)]

/-- The conditions of an existing document that are not ours: all but the marked ones. -/
def foreignConditions (existing : Data) : List Data :=
  ((existing.get? "conditions").bind Data.list?).getD [] |>.filter fun d => !Condition.isMarked d

/-- The document as data.  The conditions of an existing document, if one is given, follow. -/
def render (d : Document) (existing : Option Data) : Data :=
  .record [("capabilities", capabilityData d.capabilities),
    ("conditions",
      .list (d.condition.toMarkedDocument :: (existing.elim [] foreignConditions))),
    ("name", .text d.name), ("priority", .ofInt32 d.priority)]

/-- Characters that a file name keeps. -/
def isFileNameChar (c : Char) : Bool :=
  c.isAlphanum || c == ' ' || c == '_' || c == '.' || c == '-'

/-- The text with each run of other characters replaced by one underscore. -/
def fileNameChars (inRun : Bool) : List Char → List Char
  | [] => []
  | c :: cs =>
    if isFileNameChar c then c :: fileNameChars false cs
    else if inRun then fileNameChars true cs
    else '_' :: fileNameChars true cs

/-- The digits of a number, at least three of them. -/
def threeDigits (n : Nat) : List Char :=
  let ds := Number.decimalDigits n
  List.replicate (3 - ds.length) '0' ++ ds

/-- The name of the file of a document. -/
def fileName (d : Document) : String :=
  .ofList <|
    threeDigits d.source.modIndex.toNat ++ ['_'] ++ threeDigits d.source.subIndex.toNat ++ ['_'] ++
    fileNameChars false (Text.trim d.name.toList) ++ ['.', 'j', 's', 'o', 'n']

end Document

end Movesets
