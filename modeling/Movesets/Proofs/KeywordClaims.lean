import Movesets.Proofs.LoneParent

set_option autoImplicit false

/-!
# Keywords that others claim

A category leaves to its competitors, those of the same type on a hand, the keywords that they claim
there and it does not.  On the right hand it always does, on the left hand as soon as it asks for
left keywords itself; without them its blocks do not look at the keywords of the left hand at all.
Two competitors without a common keyword therefore exclude each other, and how a keyword is spelled
or which third category claims it as well makes no difference.
-/

namespace Movesets
open RuntimeState Exclusion

theorem Exclusion.Competing.excludes {cs : Categories} {c : Category} {hand : Hand} {k : String}
    (competing : Competing cs c hand k) (guards : hand = .left → c.leftKeywords ≠ []) :
    Excludes cs c hand k := by
  cases hand with
  | right => exact Or.inl competing
  | left => exact ⟨guards rfl, competing⟩

theorem Wields.leaves_of_competing {cs : Categories} {c : Category} {s : RuntimeState}
    (wields : Wields cs c s) {hand : Hand} (guards : hand = .left → c.leftKeywords ≠ [])
    {k : String} (competing : Competing cs c hand k) :
    ¬ hasName (s.equippedKeywords hand) k = true := by
  rw [wields.leaves hand k (competing.excludes guards)]
  exact Bool.false_ne_true

theorem Wields.exists_common_keyword {cs : Categories} {a b : Category} {s : RuntimeState}
    (wieldsA : Wields cs a s) (wieldsB : Wields cs b s) (mem : a ∈ cs.values)
    (names : a.name ≠ b.name) {hand : Hand} (types : a.equipType hand = b.equipType hand)
    (asks : a.keywords hand ≠ []) (guards : hand = .left → b.leftKeywords ≠ []) :
    ∃ k ∈ a.keywords hand, hasName (b.keywords hand) k = true := by
  obtain ⟨k, own, held⟩ := (wieldsA.claims hand).resolve_left asks
  refine ⟨k, own, ?_⟩
  cases common : hasName (b.keywords hand) k with
  | true => rfl
  | false =>
    -- then the second category leaves to the first one the keyword that the hand has
    have claimed : hasName (a.keywords hand) k = true :=
      hasName_iff.mpr ⟨k, own, Text.sameName_refl k⟩
    have competing : Competing cs b hand k := ⟨⟨a, mem, names, types, claimed⟩, common⟩
    exact absurd held (wieldsB.leaves_of_competing guards competing)

/-- Without left keywords of its own a category suits hands whatever the left one has. -/
theorem Wields.of_leftKeywords_eq_nil {cs : Categories} {c : Category} {s u : RuntimeState}
    (none : c.leftKeywords = []) (types : u.equippedType = s.equippedType)
    (right : u.equippedKeywords .right = s.equippedKeywords .right) (wields : Wields cs c s) :
    Wields cs c u := by
  refine ⟨by rw [types]; exact wields.right, by rw [types]; exact wields.left, ?_, ?_⟩
  · intro hand
    cases hand with
    | right =>
      rw [right]
      exact wields.claims .right
    | left => exact Or.inl none
  · intro hand k excluded
    cases hand with
    | right =>
      rw [right]
      exact wields.leaves .right k excluded
    | left => exact absurd none excluded.1

namespace Block

variable {cs : Categories} {rule rule' : Option Rule} {stance stance' : Nat} {p p' : Playlist}

/-- No block holds while a hand has a keyword that another category of the same type claims there
and its own does not; on the left hand, as long as its own claims any there. -/
theorem holds_eq_false_of_claimed {c other : Category} (mem : other ∈ cs.values)
    (names : other.name ≠ c.name) {hand : Hand} (types : other.equipType hand = c.equipType hand)
    (guards : hand = .left → c.leftKeywords ≠ []) {k : String}
    (claimed : hasName (other.keywords hand) k = true)
    (unclaimed : hasName (c.keywords hand) k = false) {b : Block}
    (hb : b ∈ compileAll cs rule c stance p) {s : RuntimeState}
    (held : hasName (s.equippedKeywords hand) k = true) : b.condition.holds s = false := by
  have competing : Competing cs c hand k := ⟨⟨other, mem, names, types, claimed⟩, unclaimed⟩
  apply Bool.eq_false_iff.mpr
  intro holds
  exact (wields_of_holds hb holds).leaves_of_competing guards competing held

/-- A custom category for two swords, the left one with a keyword of its own. -/
def offHand (name keyword : String) : Category :=
  { Category.plain name 1 with leftType := 1, custom := true, leftKeywords := [keyword] }

def rapier : Category := offHand "Sword and Rapier" "WeapTypeRapier"

def saber : Category := offHand "Sword and Saber" "WeapTypeSaber"

/-- Another category for the keyword of rapiers, in a spelling of its own. -/
def parry : Category := offHand "Parry" "WEAPTYPERAPIER"

def dualSword : Category := { Category.plain "Dual Sword" 1 with leftType := 1, dualWield := true }

def offHands : Categories :=
  .ofList [("Dual Sword", dualSword), ("Parry", parry), ("Sword and Rapier", rapier),
    ("Sword and Saber", saber)]

theorem values_offHands : offHands.values = [dualSword, parry, rapier, saber] := rfl

def withLeft (names : List String) : RuntimeState :=
  atFirst none (.plain .playerBase ⟨"Skyrim.esm", 0x13746⟩) (fun _ => 1) fun hand =>
    if hand = .left then names else []

theorem holds_eq_false_of_claimed_rapier : parry ∈ offHands.values ∧ parry.name ≠ saber.name ∧
    parry.equipType .left = saber.equipType .left ∧ saber.leftKeywords ≠ [] ∧
    hasName (parry.keywords .left) "weaptyperapier" = true ∧
    hasName (saber.keywords .left) "weaptyperapier" = false ∧
    hasName ((withLeft ["WeapTypeRapier", "WeapTypeSaber"]).equippedKeywords .left)
      "weaptyperapier" = true ∧
    ∃ b ∈ compileAll offHands none saber 0 lone,
      b.condition.holds (withLeft ["WeapTypeRapier", "WeapTypeSaber"]) = false := by
  have mem : parry ∈ offHands.values := by
    rw [values_offHands]
    exact List.mem_cons_of_mem _ List.mem_cons_self
  have names : parry.name ≠ saber.name := by decide
  have guards : saber.leftKeywords ≠ [] := by decide
  have claimed : hasName (parry.keywords .left) "weaptyperapier" = true := by decide
  have unclaimed : hasName (saber.keywords .left) "weaptyperapier" = false := by decide
  have held : hasName ((withLeft ["WeapTypeRapier", "WeapTypeSaber"]).equippedKeywords .left)
      "weaptyperapier" = true := by decide
  have hb := mem_compileAll_lone offHands none saber 0
  exact ⟨mem, names, rfl, guards, claimed, unclaimed, held, _, hb,
    holds_eq_false_of_claimed mem names rfl (fun _ => guards) claimed unclaimed hb held⟩

/-- Without left keywords of its own a category takes a left hand that another one claims. -/
theorem dual_sword_holds_with_claimed_rapier : ∃ other ∈ offHands.values,
    other.name ≠ dualSword.name ∧ other.leftType = dualSword.leftType ∧
    "WeapTypeRapier" ∈ other.leftKeywords ∧
    hasName dualSword.leftKeywords "WeapTypeRapier" = false ∧
    ∃ b ∈ compileAll offHands none dualSword 0 lone, ∃ s : RuntimeState,
      hasName (s.equippedKeywords .left) "WeapTypeRapier" = true ∧ b.condition.holds s = true := by
  have mem : rapier ∈ offHands.values := by
    rw [values_offHands]
    exact List.mem_cons_of_mem _ (List.mem_cons_of_mem _ List.mem_cons_self)
  have bare : Wields offHands dualSword (withLeft []) := by
    refine Wields.of_bare ?_ rfl rfl (List.mem_singleton_self _) (Or.inr rfl)
    intro hand
    cases hand <;> rfl
  have wields : Wields offHands dualSword (withLeft ["WeapTypeRapier"]) :=
    Wields.of_leftKeywords_eq_nil (s := withLeft []) rfl rfl rfl bare
  refine ⟨rapier, mem, by decide, rfl, List.mem_singleton_self _, rfl, _,
    mem_compileAll_lone offHands none dualSword 0, withLeft ["WeapTypeRapier"], by decide, ?_⟩
  apply loneBlock_holds_atFirst _ wields
  intro r isRule
  cases isRule

/-- Two categories of one type on a hand, of which one asks for keywords there and none of them is
one of the other, exclude each other; on the left hand, as long as the other asks for some too. -/
theorem exclusive_of_disjoint_keywords {a b : Category} (mem : a ∈ cs.values)
    (names : a.name ≠ b.name) {hand : Hand} (types : a.equipType hand = b.equipType hand)
    (asks : a.keywords hand ≠ []) (guards : hand = .left → b.leftKeywords ≠ [])
    (disjoint : ∀ k ∈ a.keywords hand, hasName (b.keywords hand) k = false) {x y : Block}
    (hx : x ∈ compileAll cs rule a stance p) (hy : y ∈ compileAll cs rule' b stance' p')
    (s : RuntimeState) : ¬ (x.condition.holds s = true ∧ y.condition.holds s = true) := by
  rintro ⟨holds, holds'⟩
  have wieldsA := wields_of_holds hx holds
  have wieldsB := wields_of_holds hy holds'
  obtain ⟨k, own, common⟩ := wieldsA.exists_common_keyword wieldsB mem names types asks guards
  rw [disjoint k own] at common
  cases common

theorem exclusive_of_disjoint_keywords_rapier_saber : rapier ∈ offHands.values ∧
    rapier.name ≠ saber.name ∧ rapier.equipType .left = saber.equipType .left ∧
    rapier.keywords .left ≠ [] ∧ saber.leftKeywords ≠ [] ∧
    (∀ k ∈ rapier.keywords .left, hasName (saber.keywords .left) k = false) ∧
    ∃ x ∈ compileAll offHands none rapier 0 lone, ∃ y ∈ compileAll offHands none saber 1 lone,
      ¬ (x.condition.holds (withLeft ["WeapTypeSaber", "WeapTypeRapier"]) = true ∧
        y.condition.holds (withLeft ["WeapTypeSaber", "WeapTypeRapier"]) = true) := by
  have mem : rapier ∈ offHands.values := by
    rw [values_offHands]
    exact List.mem_cons_of_mem _ (List.mem_cons_of_mem _ List.mem_cons_self)
  have names : rapier.name ≠ saber.name := by decide
  have asks : rapier.keywords .left ≠ [] := by decide
  have guards : saber.leftKeywords ≠ [] := by decide
  have disjoint : ∀ k ∈ rapier.keywords .left, hasName (saber.keywords .left) k = false := by
    decide
  have hx := mem_compileAll_lone offHands none rapier 0
  have hy := mem_compileAll_lone offHands none saber 1
  exact ⟨mem, names, rfl, asks, guards, disjoint, _, hx, _, hy,
    exclusive_of_disjoint_keywords mem names rfl asks (fun _ => guards) disjoint hx hy _⟩

end Block

end Movesets
