import Movesets.Playlist.Variant
import Movesets.Actor

set_option autoImplicit false

/-!
# Playlist entries

An entry is a named moveset: its variants, and the stats an actor needs for it.  Arithmetic on stats
is that of 32-bit numbers, each operation rounded.
-/

namespace Movesets

/-- The stats that an entry asks for; all four at once. -/
structure Thresholds where
  healthCeiling : Number.Binary32
  staminaCeiling : Number.Binary32
  magickaCeiling : Number.Binary32
  minLevel : UInt16
  deriving DecidableEq, BEq, Repr

namespace Thresholds

/-- Thresholds that every actor passes whose percentages stay within a hundred. -/
def any : Thresholds := ⟨.ofInt 100, .ofInt 100, .ofInt 100, 0⟩

def admits (t : Thresholds) (s : Stats) : Bool :=
  s.health.le t.healthCeiling && t.minLevel ≤ s.level && s.stamina.le t.staminaCeiling &&
    s.magicka.le t.magickaCeiling

def levelNumber (level : UInt16) : Number.Binary32 := .ofInt level.toNat

/-- The room between an actor's stats and the thresholds, added up from health to magicka. -/
def slack (t : Thresholds) (s : Stats) : Number.Binary32 :=
  (t.healthCeiling - s.health) + (levelNumber s.level - levelNumber t.minLevel) +
    (t.staminaCeiling - s.stamina) + (t.magickaCeiling - s.magicka)

def toData (t : Thresholds) : Data :=
  .record [("health_ceiling", .ofBinary32 t.healthCeiling),
    ("stamina_ceiling", .ofBinary32 t.staminaCeiling),
    ("magicka_ceiling", .ofBinary32 t.magickaCeiling), ("min_level", .ofNat t.minLevel.toNat)]

def ofData? (R : Reading) (d : Data) : Option Thresholds := do
  let fields ← d.asFields? R
  let health ← Data.optional? fields "health_ceiling" any.healthCeiling Data.asBinary32?
  let stamina ← Data.optional? fields "stamina_ceiling" any.staminaCeiling Data.asBinary32?
  let magicka ← Data.optional? fields "magicka_ceiling" any.magickaCeiling Data.asBinary32?
  let level ← Data.optional? fields "min_level" 0 Data.asUInt16?
  return ⟨health, stamina, magicka, level⟩

end Thresholds

/-- A named moveset of a playlist. -/
structure Entry where
  name : String
  selected : Bool
  variants : List Variant
  thresholds : Thresholds
  deriving BEq, Repr

namespace Entry

def plain (name : String) (variants : List Variant) : Entry := ⟨name, true, variants, .any⟩

def selectVariant? (e : Entry) (i : Nat) (selected : Bool) : Option Entry :=
  if i < e.variants.length then
    some { e with variants := e.variants.modify i fun v => { v with selected } }
  else none

def toData (e : Entry) : Data :=
  .record [("name", .text e.name), ("selected", .bool e.selected),
    ("variants", .list (e.variants.map Variant.toData)), ("thresholds", e.thresholds.toData)]

def ofData? (R : Reading) (d : Data) : Option Entry := do
  let fields ← d.asFields? R
  let name ← Data.required? fields "name" Data.asText?
  let selected ← Data.optional? fields "selected" true Data.asBool?
  let variants ← Data.optional? fields "variants" [] (Data.asListOf? R (Variant.ofData? R))
  let thresholds ← Data.optional? fields "thresholds" .any (Thresholds.ofData? R)
  return ⟨name, selected, variants, thresholds⟩

end Entry

end Movesets
