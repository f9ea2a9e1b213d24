import Movesets.Draw
import Movesets.Category

set_option autoImplicit false

/-!
# Cycling

How the player steps through stances and through the ordinals of a playlist.  Ordinals run from one
to the number of parents; zero stands for none, and nothing can be stepped to in an empty playlist.
-/

namespace Movesets

inductive CycleMode where
  | sequential
  | random
  deriving DecidableEq, Repr

namespace CycleMode

def print : CycleMode → String
  | .sequential => "Sequential"
  | .random => "Random"

def parse? : String → Option CycleMode
  | "Sequential" => some .sequential
  | "Random" => some .random
  | _ => none

end CycleMode

/-- The ordinal after `current`, the first after the last. -/
def nextOrdinal (current max : UInt32) : UInt32 :=
  if max = 0 then 0 else if max ≤ current then 1 else current + 1

/-- The ordinal before `current`, the last before the first. -/
def previousOrdinal (current max : UInt32) : UInt32 :=
  if max = 0 then 0 else if current ≤ 1 ∨ max < current then max else current - 1

def ordinalsTo (max : UInt32) : List UInt32 :=
  (List.range max.toNat).map fun i => UInt32.ofNat (i + 1)

/-- The stance of the player, one of four. -/
structure StanceCycler where
  stance : Nat
  deriving DecidableEq, Repr

namespace StanceCycler

def first : StanceCycler := ⟨0⟩

/-- Goes to a stance, to the last one if there is no such stance. -/
def set (stance : Nat) : StanceCycler := ⟨min stance (stanceCount - 1)⟩

def next (c : StanceCycler) : StanceCycler := ⟨(c.stance + 1) % stanceCount⟩

def previous (c : StanceCycler) : StanceCycler := ⟨(c.stance + stanceCount - 1) % stanceCount⟩

end StanceCycler

/-- The current ordinal of a playlist and how it advances. -/
structure Cycler where
  mode : CycleMode
  current : UInt32
  recent : Recent
  deriving DecidableEq, Repr

namespace Cycler

def fresh (mode : CycleMode) : Cycler := ⟨mode, 0, .none⟩

/-- Goes to the next ordinal of `max`, in order or by a draw. -/
def advance (c : Cycler) (max : UInt32) (draws : Draws) : Cycler × Draws :=
  match c.mode with
  | .sequential => ({ c with current := nextOrdinal c.current max }, draws)
  | .random =>
    let (pick, recent, draws) := Draw.next (ordinalsTo max) c.recent draws
    ({ c with current := pick, recent }, draws)

/-- Goes back one ordinal, in order whatever the mode. -/
def retreat (c : Cycler) (max : UInt32) : Cycler :=
  { c with current := previousOrdinal c.current max }

/-- Goes to the first ordinal if the current one is past the last. -/
def clamp (c : Cycler) (max : UInt32) : Cycler :=
  if max < c.current then { c with current := if max = 0 then 0 else 1 } else c

def reset (c : Cycler) : Cycler := fresh c.mode

end Cycler

end Movesets
