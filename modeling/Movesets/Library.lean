import Movesets.Animation

set_option autoImplicit false

/-!
# The animation library

At most one animation per source, in the order of sources.  Inserting an animation replaces the one
of the same source, so a list of animations is read with its later definitions winning.
-/

namespace Movesets

/-- Animations in strictly increasing order of source. -/
structure Library where
  animations : List Animation
  sorted : animations.Pairwise fun a b => a.source.rank < b.source.rank

namespace Library

def empty : Library := ⟨[], .nil⟩

/-- The sorted list with `a` in the place of its source. -/
def place (a : Animation) : List Animation → List Animation
  | [] => [a]
  | b :: rest =>
    if a.source.rank < b.source.rank then a :: b :: rest
    else if b.source.rank < a.source.rank then b :: place a rest
    else a :: rest

theorem mem_place {a x : Animation} {xs : List Animation} (h : x ∈ place a xs) :
    x = a ∨ x ∈ xs := by
  induction xs with
  | nil => simpa [place] using h
  | cons b rest ih =>
    simp only [place] at h
    split at h
    · simpa using h
    · split at h
      · rcases List.mem_cons.mp h with h | h
        · simp [h]
        · rcases ih h with h | h <;> simp [h]
      · rcases List.mem_cons.mp h with h | h <;> simp [h]

theorem place_sorted (a : Animation) {xs : List Animation}
    (h : xs.Pairwise fun a b => a.source.rank < b.source.rank) :
    (place a xs).Pairwise fun a b => a.source.rank < b.source.rank := by
  induction xs with
  | nil => simp [place]
  | cons b rest ih =>
    obtain ⟨hb, hr⟩ := List.pairwise_cons.mp h
    simp only [place]
    split
    next hab =>
      refine List.pairwise_cons.mpr ⟨?_, h⟩
      intro x hx
      rcases List.mem_cons.mp hx with rfl | hx
      · exact hab
      · exact Nat.lt_trans hab (hb x hx)
    next hab =>
      split
      next hba =>
        refine List.pairwise_cons.mpr ⟨?_, ih hr⟩
        intro x hx
        rcases mem_place hx with rfl | hx
        · exact hba
        · exact hb x hx
      next hba =>
        refine List.pairwise_cons.mpr ⟨?_, hr⟩
        intro x hx
        have := hb x hx
        omega

/-- The library with an animation added or replaced. -/
def insert (l : Library) (a : Animation) : Library :=
  ⟨place a l.animations, place_sorted a l.sorted⟩

/-- The animation of a sorted list that gives way to `a` when it is placed. -/
def displaced (a : Animation) : List Animation → Option Animation
  | [] => none
  | b :: rest =>
    if a.source.rank < b.source.rank then none
    else if b.source.rank < a.source.rank then displaced a rest
    else some b

/-- Inserts an animation and gives back the one that it replaces. -/
def put (l : Library) (a : Animation) : Library × Option Animation :=
  (l.insert a, displaced a l.animations)

/-- The animation of a source. -/
def get? (l : Library) (s : Source) : Option Animation :=
  l.animations.find? fun a => a.source == s

def contains (l : Library) (s : Source) : Bool :=
  (l.get? s).isSome

def size (l : Library) : Nat := l.animations.length

/-- The library of a list; of two animations with one source the later counts. -/
def ofList (animations : List Animation) : Library :=
  animations.foldl insert empty

def toList (l : Library) : List Animation := l.animations

def toData (l : Library) : Data :=
  .list (l.toList.map Animation.toData)

def ofData? (R : Reading) (d : Data) : Option Library :=
  (d.asListOf? R (Animation.ofData? R)).map ofList

theorem ext_toList {l m : Library} (h : l.toList = m.toList) : l = m := by
  obtain ⟨xs, _⟩ := l
  obtain ⟨ys, _⟩ := m
  cases h
  rfl

end Library

end Movesets
