import Movesets.Candidates
import Movesets.Cycler
import Movesets.Document
import Movesets.ParentCounts
import Movesets.VariantName

set_option autoImplicit false

/-!
# Sessions

A session holds a model and a library, what the player has selected, the counted parents and the
counters.  Every operation returns the session it leaves, the changes it announces and its result;
an operation that fails announces nothing and changes nothing.  The counts stand no longer once the
model may have changed, and are taken again when they are next needed.
-/

namespace Movesets

inductive Change where
  | ruleAdded (rule : RuleRef) (name : String)
  | ruleRemoved (name : String)
  | playlistSet (rule : RuleRef) (category : String) (stance : Nat)
  | modelEdited
  | modelReloaded
  | compiled (documents : Nat)
  | stanceChanged (stance : Nat)
  | variantChanged (category : String) (ordinal : UInt32)
  deriving DecidableEq, Repr

/-- Counters of 64 bits, each of which starts again from zero when it is full. -/
structure Metrics where
  documents : UInt64
  blocks : UInt64
  dangling : UInt64
  resolutions : UInt64
  fallbacks : UInt64
  rerolls : UInt64
  deriving DecidableEq, Repr

namespace Metrics

def zero : Metrics := ⟨0, 0, 0, 0, 0, 0⟩

def addBuild (m : Metrics) (c : BuildCounts) : Metrics :=
  { m with documents := m.documents + c.documents, blocks := m.blocks + c.blocks,
           dangling := m.dangling + c.dangling }

/-- The counters after a resolution, which fell back if it ended at the general rule. -/
def addResolution (m : Metrics) (r : Resolution) : Metrics :=
  { m with resolutions := m.resolutions + 1,
           fallbacks := m.fallbacks + if r.rule = .general then 1 else 0 }

def addReroll (m : Metrics) : Metrics := { m with rerolls := m.rerolls + 1 }

end Metrics

/-- What the player has selected: a stance, and an ordinal for each category and stance used. -/
structure Player where
  mode : CycleMode
  stance : StanceCycler
  cyclers : List ((String × Nat) × Cycler)

namespace Player

def fresh : Player := ⟨.sequential, .first, []⟩

/-- The cycler of a category and stance, if it has been used. -/
def cycler? (p : Player) (key : String × Nat) : Option Cycler :=
  (p.cyclers.find? fun c => c.1 == key).map (·.2)

/-- The cycler of a category and stance, a new one if it has not been used. -/
def cycler (p : Player) (key : String × Nat) : Cycler :=
  (p.cycler? key).getD (.fresh p.mode)

def setCycler (p : Player) (key : String × Nat) (c : Cycler) : Player :=
  { p with cyclers := (key, c) :: p.cyclers.filter fun c => c.1 != key }

/-- The player cycling in a mode, everywhere. -/
def setMode (p : Player) (mode : CycleMode) : Player :=
  { p with mode, cyclers := p.cyclers.map fun c => (c.1, { c.2 with mode }) }

end Player

/-- A model in use. -/
structure Session where
  model : Model
  library : Library
  counts : CountCache
  player : Player
  metrics : Metrics

/-- What an operation on a session leaves, announces and returns. -/
structure Outcome (α : Type) where
  session : Session
  changes : List Change
  result : α

def Outcome.map {α β : Type} (f : α → β) (o : Outcome α) : Outcome β :=
  ⟨o.session, o.changes, f o.result⟩

namespace Session

def start (model : Model) (library : Library) : Session :=
  ⟨model, library, .empty, .fresh, .zero⟩

def quiet {α : Type} (s : Session) (result : α) : Outcome α := ⟨s, [], result⟩

/-- The session with another model, for which its counts do not stand. -/
def withModel (s : Session) (m : Model) : Session :=
  { s with model := m, counts := s.counts.invalidate }

/-- Edits the model in any way; the edit is announced whatever it does. -/
def update {α : Type} (s : Session) (edit : Model → Model × α) : Outcome α :=
  let (m, result) := edit s.model
  ⟨s.withModel m, [.modelEdited], result⟩

/-- Takes another model and library; the player keeps mode and stance. -/
def replace (s : Session) (m : Model) (l : Library) : Outcome Unit :=
  let s := { s with library := l, player := { s.player with cyclers := [] } }
  ⟨s.withModel m.reconcile, [.modelReloaded], ()⟩

def addRule (s : Session) (name : String) (matcher : Matcher) :
    Outcome (Except ModelError RuleRef) :=
  match s.model.addRule name matcher with
  | .error e => s.quiet (.error e)
  | .ok (m, ref) => ⟨s.withModel m, [.ruleAdded ref name], .ok ref⟩

def removeRule (s : Session) (i : Nat) : Outcome (Except ModelError Rule) :=
  match s.model.removeRule i with
  | .error e => s.quiet (.error e)
  | .ok (m, rule) => ⟨s.withModel m, [.ruleRemoved rule.name], .ok rule⟩

def setPlaylist (s : Session) (r : RuleRef) (category : String) (stance : Nat) (p : Playlist) :
    Outcome (Except ModelError Unit) :=
  match s.model.setPlaylist r category stance p with
  | .error e => s.quiet (.error e)
  | .ok m => ⟨s.withModel m, [.playlistSet r category stance], .ok ()⟩

def counted (s : Session) : Session :=
  if s.counts.isValid then s else { s with counts := .rebuild s.model }

def maxVariants (s : Session) (key : PlaylistKey) : Outcome UInt32 :=
  s.counted.quiet ((s.counted.counts.get? key).getD 0)

/-- Builds all documents and counts the parents again. -/
def compile (s : Session) : Outcome (List Document) :=
  let (documents, counts) := Document.buildCounted s.model s.library
  ⟨{ s with metrics := s.metrics.addBuild counts, counts := .rebuild s.model },
    [.compiled documents.length], documents⟩

def resolve (s : Session) (actor : Option Actor) (category : String) : Outcome Resolution :=
  let r := s.model.resolve actor category
  quiet { s with metrics := s.metrics.addResolution r } r

/-- The rule that drives an actor, and its candidates. -/
def candidates (s : Session) (actor : Option Actor) (category : String) :
    Outcome (Resolution × List UInt32) :=
  let r := s.model.candidates actor category
  quiet { s with metrics := s.metrics.addResolution r.1 } r

def setMode (s : Session) (mode : CycleMode) : Outcome Unit :=
  quiet { s with player := s.player.setMode mode } ()

/-- Goes to a stance and announces it. -/
def moveStance (s : Session) (step : StanceCycler → StanceCycler) : Outcome Nat :=
  let stance := step s.player.stance
  ⟨{ s with player := { s.player with stance } }, [.stanceChanged stance.stance], stance.stance⟩

def activeKey (s : Session) (category : String) : String × Nat := (category, s.player.stance.stance)

/-- The parents of a category of the player in the active stance. -/
def activeMax (s : Session) (category : String) : Outcome UInt32 :=
  s.maxVariants (.player, s.activeKey category)

/-- The ordinal of the player for a category, brought back into range; zero before the first use. -/
def variant (s : Session) (category : String) : Outcome UInt32 :=
  let key := s.activeKey category
  let ⟨s, _, max⟩ := s.activeMax category
  match s.player.cycler? key with
  | none => s.quiet 0
  | some c =>
    let c := c.clamp max
    quiet { s with player := s.player.setCycler key c } c.current

/-- Steps the ordinal of the player for a category and announces it. -/
def moveVariant {α : Type} (s : Session) (category : String)
    (step : Cycler → UInt32 → Cycler × α) : Outcome (UInt32 × α) :=
  let key := s.activeKey category
  let ⟨s, _, max⟩ := s.activeMax category
  let (c, extra) := step (s.player.cycler key) max
  ⟨{ s with player := s.player.setCycler key c }, [.variantChanged category c.current],
    (c.current, extra)⟩

def nextVariant (s : Session) (category : String) (draws : Draws) : Outcome (UInt32 × Draws) :=
  s.moveVariant category fun c max => c.advance max draws

def previousVariant (s : Session) (category : String) : Outcome (UInt32 × Unit) :=
  s.moveVariant category fun c max => (c.retreat max, ())

/-- The name of the active variant of the player in a direction. -/
def variantName (s : Session) (category : String) (direction : Nat) : Outcome String :=
  let stance := s.player.stance.stance
  let ⟨s, _, ordinal⟩ := s.variant category
  s.quiet <|
    match s.model.player.playlist? category stance with
    | none => VariantName.notFound
    | some p => VariantName.active p s.library ordinal direction

end Session

end Movesets
