import Movesets.Proofs.Compilation
import Movesets.Proofs.InsertionOrder

set_option autoImplicit false

/-!
# A category added to a table

A new category is one more competitor and may be one more custom shield.  The other categories leave
its keywords to it from then on and nothing else, however it is spelled what they leave.  So their
blocks ask for more than before, but no state notices whose hands are free of the new keywords.
-/

namespace Movesets
open RuntimeState Exclusion

theorem Table.values_insert {κ α : Type} [DecidableEq κ] {t : Table κ α} {key : κ}
    (fresh : key ∉ t.keys) (value : α) : (t.insert key value).values = t.values ++ [value] := by
  change (setEntry key value t.entries).map (·.2) = _
  rw [setEntry_of_not_mem fresh, List.map_append]
  rfl

variable {cs : Categories} {key : String} {d : Category}

theorem mem_values_insert_iff (fresh : key ∉ cs.keys) {c : Category} :
    c ∈ (cs.insert key d).values ↔ c ∈ cs.values ∨ c = d := by
  rw [Table.values_insert fresh, List.mem_append, List.mem_singleton]

namespace Exclusion

variable {c : Category} {hand : Hand} {k : String}

theorem Competing.insert (fresh : key ∉ cs.keys) (competing : Competing cs c hand k) :
    Competing (cs.insert key d) c hand k := by
  obtain ⟨⟨other, mem, claims⟩, unclaimed⟩ := competing
  exact ⟨⟨other, (mem_values_insert_iff fresh).mpr (Or.inl mem), claims⟩, unclaimed⟩

theorem Competing.of_insert (fresh : key ∉ cs.keys)
    (competing : Competing (cs.insert key d) c hand k) :
    Competing cs c hand k ∨ hasName (d.keywords hand) k = true := by
  obtain ⟨⟨other, mem, names, types, claimed⟩, unclaimed⟩ := competing
  rcases (mem_values_insert_iff fresh).mp mem with old | rfl
  · exact Or.inl ⟨⟨other, old, names, types, claimed⟩, unclaimed⟩
  · exact Or.inr claimed

theorem OfCustomShield.insert (fresh : key ∉ cs.keys) (shield : OfCustomShield cs c k) :
    OfCustomShield (cs.insert key d) c k := by
  obtain ⟨other, mem, claims⟩ := shield
  exact ⟨other, (mem_values_insert_iff fresh).mpr (Or.inl mem), claims⟩

theorem OfCustomShield.of_insert (fresh : key ∉ cs.keys)
    (shield : OfCustomShield (cs.insert key d) c k) :
    OfCustomShield cs c k ∨ hasName (d.keywords .right) k = true := by
  obtain ⟨other, mem, names, custom, isShield, claimed⟩ := shield
  rcases (mem_values_insert_iff fresh).mp mem with old | rfl
  · exact Or.inl ⟨other, old, names, custom, isShield, claimed⟩
  · exact Or.inr claimed

theorem Excludes.insert (fresh : key ∉ cs.keys) (excluded : Excludes cs c hand k) :
    Excludes (cs.insert key d) c hand k := by
  cases hand with
  | right =>
    exact excluded.imp (fun competing => competing.insert fresh)
      fun ⟨any, shield⟩ => ⟨any, shield.insert fresh⟩
  | left => exact ⟨excluded.1, excluded.2.insert fresh⟩

theorem Excludes.of_insert (fresh : key ∉ cs.keys)
    (excluded : Excludes (cs.insert key d) c hand k) :
    Excludes cs c hand k ∨ hasName (d.keywords hand) k = true := by
  cases hand with
  | right =>
    rcases excluded with competing | ⟨any, shield⟩
    · exact (competing.of_insert fresh).imp_left Or.inl
    · exact (shield.of_insert fresh).imp_left fun old => Or.inr ⟨any, old⟩
  | left => exact (excluded.2.of_insert fresh).imp_left fun old => ⟨excluded.1, old⟩

end Exclusion

/-- The hands are free of the keywords that the category declares for them. -/
def RuntimeState.FreeOf (s : RuntimeState) (d : Category) : Prop :=
  ∀ hand, ∀ k ∈ d.keywords hand, hasName (s.equippedKeywords hand) k = false

theorem RuntimeState.FreeOf.of_hasName {s : RuntimeState} (free : s.FreeOf d) {hand : Hand}
    {k : String} (claimed : hasName (d.keywords hand) k = true) :
    hasName (s.equippedKeywords hand) k = false := by
  obtain ⟨own, mem, same⟩ := hasName_iff.mp claimed
  rw [← hasName_congr _ same]
  exact free hand own mem

theorem Wields.of_insert {c : Category} {s : RuntimeState} (fresh : key ∉ cs.keys)
    (wields : Wields (cs.insert key d) c s) : Wields cs c s :=
  ⟨wields.right, wields.left, wields.claims,
    fun hand k excluded => wields.leaves hand k (excluded.insert fresh)⟩

theorem Wields.insert {c : Category} {s : RuntimeState} (fresh : key ∉ cs.keys)
    (free : s.FreeOf d) (wields : Wields cs c s) : Wields (cs.insert key d) c s := by
  refine ⟨wields.right, wields.left, wields.claims, fun hand k excluded => ?_⟩
  rcases excluded.of_insert fresh with old | new
  · exact wields.leaves hand k old
  · exact free.of_hasName new

namespace Block

variable {rule rule' : Option Rule}

/-- Of a rule the shared conditions see the matcher alone. -/
theorem shared_of_matchers (matchers : rule'.map Rule.matcher = rule.map Rule.matcher)
    (cs : Categories) (c : Category) (stance : Nat) :
    shared cs rule' c stance = shared cs rule c stance := by
  cases rule with
  | none =>
    rw [Option.map_none, Option.map_eq_none_iff] at matchers
    rw [matchers]
  | some r =>
    obtain ⟨⟨name', matcher', categories'⟩, rfl, rfl⟩ := Option.map_eq_some_iff.mp matchers
    rfl

theorem meets_shared_of_wields {cs cs' : Categories} {c : Category} {s : RuntimeState}
    (wields : Wields cs c s → Wields cs' c s) {stance : Nat}
    (meets : s.Meets (shared cs rule c stance)) : s.Meets (shared cs' rule c stance) := by
  obtain ⟨identity, tier, hands, selector⟩ := (meets_shared s cs rule c stance).mp meets
  exact (meets_shared s cs' rule c stance).mpr ⟨identity, tier, wields hands, selector⟩

/-- Blocks at one position of a playlist differ in the shared conditions alone. -/
theorem holds_of_meets_shared {cs cs' : Categories} {c : Category} {stance : Nat} {p : Playlist}
    {i : Nat} {b b' : Block} (at_i : (compileAll cs rule c stance p)[i]? = some b)
    (at_i' : (compileAll cs' rule' c stance p)[i]? = some b') {s : RuntimeState}
    (meets : s.Meets (shared cs rule c stance) → s.Meets (shared cs' rule' c stance))
    (holds : b.condition.holds s = true) : b'.condition.holds s = true := by
  obtain ⟨q, placed, rfl⟩ := placement_of_getElem? at_i
  obtain ⟨q', placed', rfl⟩ := placement_of_getElem? at_i'
  cases Option.some.inj (placed.symm.trans placed')
  rw [ofPlacement_holds_iff] at holds ⊢
  exact holds.imp_left meets

theorem length_ofPlacements (shared : List Condition) (ps : List Placement) :
    (ofPlacements shared ps).length = ps.length := by
  induction ps with
  | nil => rfl
  | cons q ps ih => rw [ofPlacements, List.length_cons, ih, List.length_cons]

theorem length_compileAll (cs : Categories) (rule : Option Rule) (c : Category) (stance : Nat)
    (p : Playlist) : (compileAll cs rule c stance p).length = (Playlist.order p).length :=
  length_ofPlacements ..

/-- With one category more, as many blocks are compiled, each of which asks for no less than the one
at its place did, and for no more where the hands are free of the keywords of the new category.  The
rule may hold the table itself. -/
theorem compileAll_insert (fresh : key ∉ cs.keys)
    (matchers : rule'.map Rule.matcher = rule.map Rule.matcher) (c : Category) (stance : Nat)
    (p : Playlist) :
    (compileAll (cs.insert key d) rule' c stance p).length =
      (compileAll cs rule c stance p).length ∧
    ∀ (i : Nat) (old new : Block), (compileAll cs rule c stance p)[i]? = some old →
      (compileAll (cs.insert key d) rule' c stance p)[i]? = some new → ∀ s : RuntimeState,
      (new.condition.holds s = true → old.condition.holds s = true) ∧
      (s.FreeOf d → old.condition.holds s = true → new.condition.holds s = true) := by
  refine ⟨by rw [length_compileAll, length_compileAll], fun i old new at_i at_i' s => ⟨?_, ?_⟩⟩
  · refine holds_of_meets_shared at_i' at_i fun meets => ?_
    rw [shared_of_matchers matchers] at meets
    exact meets_shared_of_wields (Wields.of_insert fresh) meets
  · intro free
    refine holds_of_meets_shared at_i at_i' fun meets => ?_
    rw [shared_of_matchers matchers]
    exact meets_shared_of_wields (Wields.insert fresh free) meets

/-- The categories for the off hand before there is one for parrying. -/
def withoutParry : Categories :=
  .ofList [("Dual Sword", dualSword), ("Sword and Rapier", rapier), ("Sword and Saber", saber)]

theorem values_withoutParry : withoutParry.values = [dualSword, rapier, saber] := rfl

theorem competing_withoutParry :
    competing withoutParry saber .left = [⟨.equippedKeyword .left "WeapTypeRapier", true⟩] := by
  have sorted : withoutParry.values.Pairwise fun a b => a.name ≤ b.name := by
    rw [values_withoutParry]
    decide
  rw [competing, competitors, byName_eq_of_sorted sorted]
  decide

theorem competing_withParry : competing (withoutParry.insert "Parry" parry) saber .left =
    [⟨.equippedKeyword .left "WEAPTYPERAPIER", true⟩] := by
  have swapped : ([("Sword and Rapier", rapier), ("Sword and Saber", saber)] ++
      [("Parry", parry)]).Perm ([("Parry", parry)] ++ _) := List.perm_append_comm
  have moved : (withoutParry.insert "Parry" parry).toList.Perm offHands.toList := swapped.cons _
  have distinct : ((withoutParry.insert "Parry" parry).values.map Category.name).Nodup := by decide
  have sorted : offHands.values.Pairwise fun a b => a.name ≤ b.name := by
    rw [values_offHands]
    decide
  rw [competing_congr (byName_eq_of_perm moved distinct), competing, competitors,
    byName_eq_of_sorted sorted]
  decide

theorem wields_withoutParry : Wields withoutParry saber (withLeft ["WeapTypeSaber"]) := by
  refine ⟨List.mem_singleton_self _, Or.inr rfl, fun hand => ?_, fun hand k excluded => ?_⟩
  · cases hand with
    | right => exact Or.inl rfl
    | left => exact Or.inr ⟨"WeapTypeSaber", List.mem_singleton_self _, by decide⟩
  · cases hand with
    | right => rfl
    | left =>
      refine (competing_holds_iff _ withoutParry saber .left).mp ?_ k excluded.2
      rw [competing_withoutParry]
      decide

/-- The category for parrying comes first by name, so its spelling of the keyword of rapiers takes
the place of the one that was excluded before. -/
theorem compileAll_insert_parry : "Parry" ∉ withoutParry.keys ∧
    competing withoutParry saber .left = [⟨.equippedKeyword .left "WeapTypeRapier", true⟩] ∧
    competing (withoutParry.insert "Parry" parry) saber .left =
      [⟨.equippedKeyword .left "WEAPTYPERAPIER", true⟩] ∧
    ∃ old new, compileAll withoutParry none saber 0 lone = [old] ∧
      compileAll (withoutParry.insert "Parry" parry) none saber 0 lone = [new] ∧
      (∀ s, new.condition.holds s = true → old.condition.holds s = true) ∧
      (withLeft ["WeapTypeSaber"]).FreeOf parry ∧
      new.condition.holds (withLeft ["WeapTypeSaber"]) = true := by
  have fresh : "Parry" ∉ withoutParry.keys := by decide
  have free : (withLeft ["WeapTypeSaber"]).FreeOf parry := by
    intro hand k mem
    cases hand with
    | right => rfl
    | left =>
      cases List.mem_singleton.mp mem
      decide
  have holds : (loneBlock (shared withoutParry none saber 0)).condition.holds
      (withLeft ["WeapTypeSaber"]) = true :=
    loneBlock_holds_atFirst (fun r isRule => by cases isRule) wields_withoutParry
  have matchers : (none : Option Rule).map Rule.matcher = (none : Option Rule).map Rule.matcher :=
    rfl
  obtain ⟨_, implied⟩ := compileAll_insert fresh (d := parry) matchers saber 0 lone
  refine ⟨fresh, competing_withoutParry, competing_withParry, _, _, compileAll_lone ..,
    compileAll_lone .., fun s => ?_, free, ?_⟩
  · exact (implied 0 _ _ rfl rfl s).1
  · exact (implied 0 _ _ rfl rfl _).2 free holds

end Block

end Movesets
