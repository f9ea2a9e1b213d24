import Movesets.Form
import Movesets.Text.Case
import Movesets.Data.Decoding

set_option autoImplicit false

/-!
# Actors

What the host reports about an actor at one moment: who it is, what marks it carries, and how it
fares.
-/

namespace Movesets

/-- The stats of an actor, percentages as 32-bit numbers. -/
structure Stats where
  health : Number.Binary32
  stamina : Number.Binary32
  magicka : Number.Binary32
  level : UInt16
  deriving DecidableEq, Repr

namespace Stats

def full : Stats := ⟨.ofInt 100, .ofInt 100, .ofInt 100, 1⟩

def ofData? (R : Reading) (d : Data) : Option Stats := do
  let fields ← d.asFields? R
  let health ← Data.required? fields "health_pct" Data.asBinary32?
  let stamina ← Data.required? fields "stamina_pct" Data.asBinary32?
  let magicka ← Data.required? fields "magicka_pct" Data.asBinary32?
  let level ← Data.required? fields "level" Data.asUInt16?
  return ⟨health, stamina, magicka, level⟩

end Stats

def Form.ofData? (d : Data) : Option Form :=
  d.asText?.bind Form.parse?

/-- An actor at one moment. -/
structure Actor where
  base : Form
  race : Form
  factions : List Form
  keywords : List String
  stats : Stats
  deriving Repr

namespace Actor

def plain (base race : Form) : Actor := ⟨base, race, [], [], .full⟩

def isPlayer (a : Actor) : Bool := a.base.isPlayerBase

def inFaction (a : Actor) (f : Form) : Bool := a.factions.contains f

/-- Keywords are compared without regard to ASCII case. -/
def hasKeyword (a : Actor) (k : String) : Bool :=
  a.keywords.any fun own => Text.sameName own k

def ofData? (R : Reading) (d : Data) : Option Actor := do
  let fields ← d.asFields? R
  let base ← Data.required? fields "base" Form.ofData?
  let race ← Data.required? fields "race" Form.ofData?
  let factions ← Data.optional? fields "factions" [] (Data.asListOf? R Form.ofData?)
  let keywords ← Data.optional? fields "keywords" [] (Data.asListOf? R Data.asText?)
  let stats ← Data.optional? fields "stats" .full (Stats.ofData? R)
  return ⟨base, race, factions, keywords, stats⟩

end Actor

end Movesets
