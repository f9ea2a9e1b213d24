import Movesets.Proofs.Equipment

set_option autoImplicit false

/-!
# The keywords that a category excludes

Competitors may claim one keyword in several spellings, and share it with the category itself.  The
list of what is excluded on a hand names each keyword of a competitor once, up to ASCII case, and
leaves out those of the category.  What is excluded for custom shields is told apart by spelling,
and nothing is left out.
-/

namespace Movesets.Exclusion

theorem mem_of_mem_distinctNames {listed ks : List String} {k : String}
    (mem : k ∈ distinctNames listed ks) : k ∈ ks := by
  induction ks generalizing listed with
  | nil => exact mem
  | cons x ks ih =>
    rw [distinctNames] at mem
    split at mem
    next => exact List.mem_cons_of_mem x (ih mem)
    next =>
      rcases List.mem_cons.mp mem with rfl | later
      · exact List.mem_cons_self
      · exact List.mem_cons_of_mem x (ih later)

theorem hasName_eq_false_of_mem_distinctNames {listed ks : List String} {k : String}
    (mem : k ∈ distinctNames listed ks) : hasName listed k = false := by
  have named : hasName (distinctNames listed ks) k = true :=
    hasName_iff.mpr ⟨k, mem, Text.sameName_refl k⟩
  rw [hasName_distinctNames, Bool.and_eq_true, Bool.not_eq_true'] at named
  exact named.2

theorem pairwise_distinctNames (listed ks : List String) :
    (distinctNames listed ks).Pairwise fun k l => Text.sameName k l = false := by
  induction ks generalizing listed with
  | nil => exact List.Pairwise.nil
  | cons x ks ih =>
    rw [distinctNames]
    split
    next => exact ih listed
    next =>
      refine List.pairwise_cons.mpr ⟨fun k mem => ?_, ih (x :: listed)⟩
      -- what is listed behind a name does not agree with it, because the name was listed before
      have apart := hasName_eq_false_of_mem_distinctNames mem
      rw [hasName_cons, Bool.or_eq_false_iff] at apart
      exact apart.1

theorem nodup_distinctSpellings (claimed : List String) {kept : List String} (nodup : kept.Nodup) :
    (claimed.foldl (fun ks k => if ks.contains k then ks else ks ++ [k]) kept).Nodup := by
  induction claimed generalizing kept with
  | nil => exact nodup
  | cons x claimed ih =>
    rw [List.foldl_cons]
    split
    next => exact ih nodup
    next absent =>
      refine ih (List.nodup_append.mpr ⟨nodup, by simp, ?_⟩)
      intro k mem l single same
      rw [List.mem_singleton.mp single] at same
      exact absent (List.contains_iff_mem.mpr (same ▸ mem))

/-- What is excluded on a hand are the keywords that categories of other names and of the same type
claim there and this one does not, each once up to case, in the spelling of one of them.  Excluded
for custom shields are the right-hand keywords of custom shield categories of other names, each
spelling once. -/
theorem excluded_keywords_iff (cs : Categories) (c : Category) (hand : Hand) :
    (∃ ks : List String, competing cs c hand = ks.map (fun k => ⟨.equippedKeyword hand k, true⟩) ∧
      ks.Pairwise (fun k l => Text.sameName k l = false) ∧
      (∀ k, hasName ks k = true ↔
        (∃ other ∈ cs.values, other.name ≠ c.name ∧ other.equipType hand = c.equipType hand ∧
          hasName (other.keywords hand) k = true) ∧ hasName (c.keywords hand) k = false) ∧
      ∀ k ∈ ks, ∃ other ∈ cs.values, other.name ≠ c.name ∧
        other.equipType hand = c.equipType hand ∧ k ∈ other.keywords hand) ∧
    ∃ ks : List String, shields cs c = ks.map (fun k => ⟨.equippedKeyword .right k, true⟩) ∧
      ks.Nodup ∧
      ∀ k, k ∈ ks ↔ ∃ other ∈ cs.values, other.name ≠ c.name ∧ other.custom = true ∧
        other.shield = true ∧ k ∈ other.rightKeywords := by
  constructor
  · refine ⟨_, rfl, pairwise_distinctNames _ _, fun k => ?_, fun k mem => ?_⟩
    · rw [hasName_distinctNames, Bool.and_eq_true, hasName_flatMap, Bool.not_eq_true']
      simp only [mem_competitors, and_assoc]
    · obtain ⟨other, competes, own⟩ := List.mem_flatMap.mp (mem_of_mem_distinctNames mem)
      obtain ⟨inTable, names, types⟩ := mem_competitors.mp competes
      exact ⟨other, inTable, names, types, own⟩
  · refine ⟨_, rfl, nodup_distinctSpellings _ List.nodup_nil, fun k => ?_⟩
    rw [mem_distinctSpellings, List.mem_flatMap]
    simp only [mem_customShields, List.not_mem_nil, false_or, and_assoc]

end Movesets.Exclusion
