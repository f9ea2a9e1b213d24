set_option autoImplicit false

/-!
# Patterns of texts

A pattern takes the characters that a text starts with, and may be able to do so in several ways.
They are ranked: of a run the longest is preferred, or the shortest where the pattern says so, and a
part that may be missing is preferred to be there.  What the groups of a pattern take is captured.
-/

namespace Movesets

inductive Pattern where
  /-- Characters of one class, at least `least` of them and no more than `most`. -/
  | run (accepts : Char → Bool) (least : Nat) (most : Option Nat) (longest : Bool)
  | seq (first second : Pattern)
  | maybe (p : Pattern)
  | group (p : Pattern)

namespace Pattern

/-- What a pattern takes and leaves of a text, and what its groups take. -/
structure Way where
  taken : List Char
  left : List Char
  groups : List (List Char)

namespace Way

def stay (cs : List Char) : Way := ⟨[], cs, []⟩

def after (c : Char) (w : Way) : Way := { w with taken := c :: w.taken }

def andThen (w v : Way) : Way := ⟨w.taken ++ v.taken, v.left, w.groups ++ v.groups⟩

def captured (w : Way) : Way := { w with groups := w.taken :: w.groups }

end Way

/-- The runs of a class that a text starts with. -/
def runs (accepts : Char → Bool) (longest : Bool) : List Char → Nat → Option Nat → List Way
  | [], least, _ => if least = 0 then [.stay []] else []
  | c :: cs, least, most =>
    let short := if least = 0 then [Way.stay (c :: cs)] else []
    let long :=
      if accepts c ∧ most ≠ some 0 then
        (runs accepts longest cs (least - 1) (most.map (· - 1))).map (.after c)
      else []
    if longest then long ++ short else short ++ long

/-- The ways to take a pattern from the start of a text, the preferred ones first. -/
def ways : Pattern → List Char → List Way
  | run accepts least most longest, cs => runs accepts longest cs least most
  | seq p q, cs => (p.ways cs).flatMap fun w => (q.ways w.left).map w.andThen
  | maybe p, cs => p.ways cs ++ [.stay cs]
  | group p, cs => (p.ways cs).map .captured

/-- What the groups take in the preferred way to take the whole text. -/
def captures? (p : Pattern) (cs : List Char) : Option (List (List Char)) :=
  ((p.ways cs).find? fun w => w.left.isEmpty).map Way.groups

/-- One character of a class. -/
def one (accepts : Char → Bool) : Pattern := run accepts 1 (some 1) true

/-- Any number of characters of a class. -/
def many (accepts : Char → Bool) : Pattern := run accepts 0 none true

end Pattern

end Movesets
