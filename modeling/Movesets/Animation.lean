import Movesets.FlagSet
import Movesets.Data.Decoding

set_option autoImplicit false

/-!
# Animations

The definitions that a document is exported for.  A source names an animation by the index of its
mod and its index within the mod.
-/

namespace Movesets

/-- The place of an animation definition. -/
structure Source where
  modIndex : UInt32
  subIndex : UInt32
  deriving DecidableEq, Repr, Inhabited

namespace Source

/-- Position in the order by mod index, then index within the mod. -/
def rank (s : Source) : Nat := s.modIndex.toNat * UInt32.size + s.subIndex.toNat

theorem rank_injective {s t : Source} (h : s.rank = t.rank) : s = t := by
  obtain ⟨m, i⟩ := s
  obtain ⟨n, j⟩ := t
  have hi := i.toNat_lt
  have hj := j.toNat_lt
  simp only [rank, UInt32.size] at h
  have h₁ : m.toNat = n.toNat := by omega
  have h₂ : i.toNat = j.toNat := by omega
  rw [UInt32.toNat_inj.mp h₁, UInt32.toNat_inj.mp h₂]

def toData (s : Source) : Data :=
  .record [("mod_index", .ofNat s.modIndex.toNat), ("sub_index", .ofNat s.subIndex.toNat)]

def ofData? (R : Reading) (d : Data) : Option Source := do
  let fields ← d.asFields? R
  let modIndex ← Data.required? fields "mod_index" Data.asUInt32?
  let subIndex ← Data.required? fields "sub_index" Data.asUInt32?
  return ⟨modIndex, subIndex⟩

end Source

/-- What an animation set offers beside plain attacks. -/
structure Capabilities where
  bits : UInt8
  deriving DecidableEq, Repr

namespace Capabilities

def names : List String :=
  ["IDLE", "POWER_A", "POWER_B", "POWER_L", "POWER_R", "COMBO_POWER"]

def empty : Capabilities := ⟨0⟩

def parse? (s : String) : Option Capabilities := (FlagSet.parse? names s).map .mk

def print (c : Capabilities) : String := FlagSet.print names c.bits

def idle (c : Capabilities) : Bool := FlagSet.hasBit c.bits 0
def powerA (c : Capabilities) : Bool := FlagSet.hasBit c.bits 1
def powerB (c : Capabilities) : Bool := FlagSet.hasBit c.bits 2
def powerL (c : Capabilities) : Bool := FlagSet.hasBit c.bits 3
def powerR (c : Capabilities) : Bool := FlagSet.hasBit c.bits 4
def comboPower (c : Capabilities) : Bool := FlagSet.hasBit c.bits 5

end Capabilities

structure Animation where
  source : Source
  name : String
  moveset : String
  priority : Int32
  capabilities : Capabilities
  deriving DecidableEq, Repr

namespace Animation

def plain (source : Source) (name : String) : Animation :=
  ⟨source, name, "", 0, .empty⟩

def toData (a : Animation) : Data :=
  .record [("source", a.source.toData), ("name", .text a.name), ("moveset", .text a.moveset),
    ("priority", .ofInt32 a.priority), ("capabilities", .text a.capabilities.print)]

def ofData? (R : Reading) (d : Data) : Option Animation := do
  let fields ← d.asFields? R
  let source ← Data.required? fields "source" (Source.ofData? R)
  let name ← Data.required? fields "name" Data.asText?
  let moveset ← Data.optional? fields "moveset" "" Data.asText?
  let priority ← Data.optional? fields "priority" 0 Data.asInt32?
  let capabilities ← Data.optional? fields "capabilities" .empty
    fun d => d.asText?.bind Capabilities.parse?
  return ⟨source, name, moveset, priority, capabilities⟩

end Animation

end Movesets
