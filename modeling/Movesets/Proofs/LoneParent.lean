import Movesets.Proofs.Compilation

set_option autoImplicit false

/-!
# A stance with one parent

The only block of such a stance asks for the shared conditions and the first ordinal.  It holds for
an actor that the rule is for whenever the hands are as the category wants them.
-/

namespace Movesets
open RuntimeState Playlist

theorem Matcher.exists_admits (m : Matcher) : ∃ a : Actor, m.admits a = true := by
  have other : Form := ⟨"", 0⟩
  cases m with
  | player => exact ⟨.plain .playerBase other, rfl⟩
  | general => exact ⟨.plain ⟨"", 0⟩ other, rfl⟩
  | unique base => exact ⟨.plain base other, beq_self_eq_true base⟩
  | faction f =>
    refine ⟨{ Actor.plain other other with factions := [f] }, ?_⟩
    simp [admits, Actor.inFaction]
  | keyword k =>
    refine ⟨{ Actor.plain other other with keywords := [k] }, ?_⟩
    simp [admits, Actor.hasKeyword]
  | race r => exact ⟨.plain other r, beq_self_eq_true r⟩

theorem exists_admitted (rule : Option Rule) :
    ∃ a : Actor, ∀ r ∈ rule, r.matcher.admits a = true := by
  cases rule with
  | none => exact ⟨.plain .playerBase .playerBase, by simp⟩
  | some r =>
    obtain ⟨a, admits⟩ := r.matcher.exists_admits
    exact ⟨a, by simpa using admits⟩

namespace Block

def lone : Playlist := [.plain "Moveset" [.plain ⟨0, 0⟩ .parent]]

def loneBlock (shared : List Condition) : Block :=
  ofPlacement shared ⟨0, 0, .plain ⟨0, 0⟩ .parent, 1⟩ []

theorem compileAll_lone (cs : Categories) (rule : Option Rule) (c : Category) (stance : Nat) :
    compileAll cs rule c stance lone = [loneBlock (shared cs rule c stance)] := rfl

theorem mem_compileAll_lone (cs : Categories) (rule : Option Rule) (c : Category) (stance : Nat) :
    loneBlock (shared cs rule c stance) ∈ compileAll cs rule c stance lone :=
  List.mem_singleton_self _

theorem loneBlock_holds_iff (s : RuntimeState) (shared : List Condition) :
    (loneBlock shared).condition.holds s = true ↔ s.Meets shared ∧ s.value .playlistOrder = 1 := by
  rw [loneBlock, ofPlacement_holds_iff, gateParts_parent rfl, meets_parentParts]
  simp [childGates]

/-- The state of an actor with given hands, in the first stance and at the first parent. -/
def atFirst (rule : Option Rule) (a : Actor) (types : Hand → Int32) (names : Hand → List String) :
    RuntimeState :=
  { base := a.base
    race := a.race
    factions := a.factions
    keywords := a.keywords
    equippedType := types
    equippedKeywords := names
    value := fun v =>
      match v with
      | .priorityTier => tierOf rule
      | .stanceSelector => stanceValue rule 0
      | .playlistOrder => 1
      | .direction => 0
      | .randomSelector => 0
    moving := false }

theorem loneBlock_holds_atFirst {cs : Categories} {rule : Option Rule} {c : Category} {a : Actor}
    {types : Hand → Int32} {names : Hand → List String}
    (admits : ∀ r ∈ rule, r.matcher.admits a = true)
    (wields : Wields cs c (atFirst rule a types names)) :
    (loneBlock (shared cs rule c 0)).condition.holds (atFirst rule a types names) = true := by
  rw [loneBlock_holds_iff, meets_shared]
  refine ⟨⟨fun r mem => ?_, rfl, wields, rfl⟩, rfl⟩
  rw [← Matcher.admits_of_describes (s := atFirst rule a types names) ⟨rfl, rfl, rfl, rfl⟩]
  exact admits r mem

end Block

end Movesets
