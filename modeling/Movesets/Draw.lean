set_option autoImplicit false

/-!
# Weighted draws without repeats

A draw from candidates listed best first gives the first of `n` the weight `n` and the last the
weight 1.  The two most recent picks are left out while anything else remains.

A source of draws yields words of 64 bits.  The product of a word with the total weight `R` has a
high and a low word: the word is accepted if the low one is at most `2 ^ 64 - 1 - 2 ^ 64 % R`, so
that every high word is equally likely, and the high word is the point of the cumulative weights
that decides.  A refused word is followed by the next one.
-/

namespace Movesets

/-- The two most recent picks; zero stands for none. -/
structure Recent where
  last : UInt32
  second : UInt32
  deriving DecidableEq, Repr

namespace Recent

def none : Recent := ⟨0, 0⟩

def push (r : Recent) (pick : UInt32) : Recent := ⟨pick, r.last⟩

def contains (r : Recent) (ordinal : UInt32) : Bool := ordinal == r.last || ordinal == r.second

end Recent

/-- The words still to be drawn, and how many have been taken; after the last come zeros. -/
structure Draws where
  words : List Nat
  used : Nat
  deriving DecidableEq, Repr

namespace Draws

def ofWords (words : List Nat) : Draws := ⟨words, 0⟩

/-- The high word of the product with the total weight, if the low word is small enough. -/
def accept? (total word : Nat) : Option Nat :=
  let product := word * total
  if product % UInt64.size ≤ UInt64.size - 1 - UInt64.size % total then
    some (product / UInt64.size)
  else none

/-- Draws until a word is accepted, after `used` draws. -/
def pointFrom (total used : Nat) : List Nat → Nat × Draws
  | [] => (0, ⟨[], used + 1⟩)
  | w :: ws =>
    match accept? total w with
    | some point => (point, ⟨ws, used + 1⟩)
    | none => pointFrom total (used + 1) ws

/-- A point below the total weight. -/
def point (d : Draws) (total : Nat) : Nat × Draws :=
  pointFrom total d.used d.words

end Draws

namespace Draw

/-- The sum of the weights `n, …, 2, 1`. -/
def totalWeight (n : Nat) : Nat := n * (n + 1) / 2

/-- The candidate at a point of the cumulative weights, the first weighing as much as there are. -/
def atPoint (point : Nat) : List UInt32 → UInt32
  | [] => 0
  | [c] => c
  | c :: cs =>
    let weight := cs.length + 1
    if point < weight then c else atPoint (point - weight) cs

/-- The candidates that were not picked just now, or all if that leaves none. -/
def remaining (candidates : List UInt32) (recent : Recent) : List UInt32 :=
  let fresh := candidates.filter fun c => !recent.contains c
  if fresh.isEmpty then candidates else fresh

/-- A weighted draw: the pick, the picks it follows and the draws that are left.  From no candidates
nothing is drawn and the pick is zero. -/
def next (candidates : List UInt32) (recent : Recent) (draws : Draws) : UInt32 × Recent × Draws :=
  if candidates.isEmpty then (0, recent, draws)
  else
    let left := remaining candidates recent
    let (point, draws) := draws.point (totalWeight left.length)
    let pick := atPoint point left
    (pick, recent.push pick, draws)

end Draw

end Movesets
