import Movesets.Candidates
import Movesets.Proofs.Compilation

set_option autoImplicit false

/-!
# Candidates against compiled parents

Candidates are numbered by selected entries, compiled blocks by selected parents.  The entry of
every parent, listed in the order of the ordinals, says when the two numberings agree.
-/

namespace Movesets
open Playlist

def Entry.parents (e : Entry) : Nat := e.variants.countP fun v => v.selected && v.isParent

/-- The entry of each selected parent, in the order of the ordinals. -/
def Playlist.parentEntries (p : Playlist) : List Entry :=
  (p.filter Entry.selected).flatMap fun e => List.replicate e.parents e

namespace Playlist

theorem length_parents_selectedVariants (i : Nat) (e : Entry) :
    ((selectedVariants i e).filter fun v => v.2.2.isParent).length = e.parents := by
  have count : e.parents =
      e.variants.zipIdx.countP ((fun v => v.selected && v.isParent) ∘ Prod.fst) := by
    rw [← List.countP_map, List.zipIdx_map_fst]
    rfl
  rw [count, selectedVariants, List.filter_map, List.length_map, List.filter_filter,
    ← List.countP_eq_length_filter]
  refine List.countP_congr fun x _ => ?_
  simp [and_comm]

theorem parents_selectedVariants {α : Type} (f : Nat → α) (i : Nat) (e : Entry) :
    ((selectedVariants i e).filter fun v => v.2.2.isParent).map (fun v => f v.1) =
      List.replicate e.parents (f i) := by
  rw [List.eq_replicate_iff]
  constructor
  · rw [List.length_map, length_parents_selectedVariants]
  · intro x mem
    obtain ⟨v, inFilter, rfl⟩ := List.mem_map.mp mem
    rw [(mem_selectedVariants.mp (List.mem_filter.mp inFilter).1).1]

theorem parents_selection (p : Playlist) :
    ((selection p).filter fun v => v.2.2.isParent).map (fun v => p[v.1]?) =
      p.parentEntries.map some := by
  have entries : p.filter Entry.selected =
      (p.zipIdx.filter fun e => e.1.selected).map Prod.fst := by
    conv => lhs; rw [← List.zipIdx_map_fst 0 p, List.filter_map]
    rfl
  rw [parentEntries, entries, List.flatMap_map, selection, List.filter_flatMap, List.map_flatMap,
    List.map_flatMap, List.flatMap_def, List.flatMap_def]
  refine congrArg List.flatten (List.map_congr_left fun x mem => ?_)
  have entry : p[x.2]? = some x.1 :=
    List.mem_zipIdx_iff_getElem?.mp (List.mem_filter.mp mem).1
  rw [parents_selectedVariants (fun i => p[i]?), entry, List.map_replicate]

/-- The parent at a place of the order of ordinals belongs to the entry at that place. -/
theorem exists_parent_iff (p : Playlist) (o : UInt32) (Q : Entry → Prop) :
    (∃ q ∈ order p, q.isParent = true ∧ q.ordinal = o ∧
      ∃ e, p[q.entryIndex]? = some e ∧ Q e) ↔
      ∃ k e, p.parentEntries[k]? = some e ∧ Q e ∧ UInt32.ofNat (k + 1) = o := by
  have parent (q : Placement) : q ∈ order p ∧ q.isParent = true ↔
      ∃ k v, ((selection p).filter fun v => v.2.2.isParent)[k]? = some v ∧
        (⟨v.1, v.2.1, v.2.2, UInt32.ofNat (k + 1)⟩ : Placement) = q := by
    rw [← List.mem_filter, order, filter_isParent_number, List.mem_map]
    constructor
    · rintro ⟨⟨v, k⟩, mem, rfl⟩
      exact ⟨k, v, List.mem_zipIdx_iff_getElem?.mp mem, rfl⟩
    · rintro ⟨k, v, at_k, rfl⟩
      exact ⟨(v, k), List.mem_zipIdx_iff_getElem?.mpr at_k, rfl⟩
  have entryAt (k : Nat) := congrArg (fun xs => xs[k]?) (parents_selection p)
  simp only [List.getElem?_map] at entryAt
  constructor
  · rintro ⟨q, mem, isParent, rfl, e, entry, property⟩
    obtain ⟨k, v, at_k, rfl⟩ := (parent q).mp ⟨mem, isParent⟩
    have found := entryAt k
    rw [at_k, Option.map_some, entry, eq_comm, Option.map_eq_some_iff] at found
    obtain ⟨e', found, same⟩ := found
    cases same
    exact ⟨k, e, found, property, rfl⟩
  · rintro ⟨k, e, found, property, rfl⟩
    have at_k := entryAt k
    rw [found, Option.map_some, Option.map_eq_some_iff] at at_k
    obtain ⟨v, at_k, entry⟩ := at_k
    obtain ⟨mem, isParent⟩ := (parent _).mpr ⟨k, v, at_k, rfl⟩
    exact ⟨_, mem, isParent, rfl, e, entry, property⟩

theorem mem_fitting {p : Playlist} {stats : Stats} {x : UInt32 × Number.Binary32} :
    x ∈ p.fitting stats ↔ ∃ k e, (p.filter Entry.selected)[k]? = some e ∧
      e.thresholds.admits stats = true ∧ (UInt32.ofNat (k + 1), e.thresholds.slack stats) = x := by
  rw [fitting, List.mem_map]
  constructor
  · rintro ⟨⟨e, k⟩, mem, rfl⟩
    obtain ⟨at_k, admits⟩ := List.mem_filter.mp mem
    exact ⟨k, e, List.mem_zipIdx_iff_getElem?.mp at_k, admits, rfl⟩
  · rintro ⟨k, e, at_k, admits, rfl⟩
    have mem : (e, k) ∈ (p.filter Entry.selected).zipIdx :=
      List.mem_zipIdx_iff_getElem?.mpr at_k
    exact ⟨(e, k), List.mem_filter.mpr ⟨mem, admits⟩, rfl⟩

/-- Candidates are the places of the selected entries that admit the stats. -/
theorem mem_candidates {p : Playlist} {stats : Stats} {o : UInt32} :
    o ∈ p.candidates stats ↔ ∃ k e, (p.filter Entry.selected)[k]? = some e ∧
      e.thresholds.admits stats = true ∧ UInt32.ofNat (k + 1) = o := by
  simp only [candidates, List.mem_map, List.mem_mergeSort, mem_fitting]
  constructor
  · rintro ⟨x, ⟨k, e, at_k, admits, rfl⟩, rfl⟩
    exact ⟨k, e, at_k, admits, rfl⟩
  · rintro ⟨k, e, at_k, admits, rfl⟩
    exact ⟨_, ⟨k, e, at_k, admits, rfl⟩, rfl⟩

theorem selected_of_mem_parentEntries {p : Playlist} {e : Entry} (h : e ∈ p.parentEntries) :
    e.selected = true := by
  obtain ⟨e', mem, inCopies⟩ := List.mem_flatMap.mp h
  rw [List.eq_of_mem_replicate inCopies]
  exact (List.mem_filter.mp mem).2

theorem parentEntries_of_one_parent {p : Playlist}
    (one : ∀ e ∈ p, e.selected = true → e.parents = 1) :
    p.parentEntries = p.filter Entry.selected := by
  have copies : ∀ e ∈ p.filter Entry.selected, List.replicate e.parents e = [e] := by
    intro e mem
    obtain ⟨mem, selected⟩ := List.mem_filter.mp mem
    rw [one e mem selected]
    rfl
  rw [parentEntries, List.flatMap_def, List.map_congr_left copies, ← List.flatMap_def,
    List.flatMap_singleton']

end Playlist

/-- The ordinal is that of a parent compiled for the first stance, in a selected entry that admits
the stats. -/
def Rule.NamesParent (r : Rule) (category : String) (stats : Stats) (o : UInt32) : Prop :=
  ∃ c p, r.category? category = some c ∧ c.stance? 0 = some p ∧
    ∃ b ∈ Block.compileAll r.categories (some r) c 0 p, b.isParent = true ∧ b.ordinal = o ∧
      ∃ e, p[b.entryIndex]? = some e ∧ e.selected = true ∧ e.thresholds.admits stats = true

namespace Rule

variable {r : Rule} {category : String} {stats : Stats}

theorem namesParent_iff {p : Playlist} (found : r.playlist? category 0 = some p) (o : UInt32) :
    r.NamesParent category stats o ↔ ∃ k e, p.parentEntries[k]? = some e ∧
      e.thresholds.admits stats = true ∧ UInt32.ofNat (k + 1) = o := by
  obtain ⟨c, category_eq, stance_eq⟩ := Option.bind_eq_some_iff.mp found
  have entries := exists_parent_iff p o
    fun e => e.selected = true ∧ e.thresholds.admits stats = true
  have blocks := Block.exists_mem_compileAll r.categories (some r) c 0 p
    fun i ordinal isParent => isParent = true ∧ ordinal = o ∧
      ∃ e, p[i]? = some e ∧ e.selected = true ∧ e.thresholds.admits stats = true
  constructor
  · rintro ⟨c', p', category_eq', stance_eq', names⟩
    cases category_eq.symm.trans category_eq'
    cases stance_eq.symm.trans stance_eq'
    obtain ⟨k, e, at_k, ⟨_, admits⟩, ordinal⟩ := entries.mp (blocks.mp names)
    exact ⟨k, e, at_k, admits, ordinal⟩
  · rintro ⟨k, e, at_k, admits, ordinal⟩
    have selected := selected_of_mem_parentEntries (List.mem_of_getElem? at_k)
    exact ⟨c, p, category_eq, stance_eq,
      blocks.mpr (entries.mpr ⟨k, e, at_k, ⟨selected, admits⟩, ordinal⟩)⟩

theorem mem_candidates_iff {o : UInt32} : o ∈ r.candidates category stats ↔
    ∃ p, r.playlist? category 0 = some p ∧ o ∈ p.candidates stats := by
  rw [candidates]
  cases r.playlist? category 0 with
  | none => simp
  | some p => simp

/-- The candidates of a rule are ordinals of compiled parents whose entries admit the stats exactly
when the selected entry at every place that admits them shares its ordinal with a parent of an entry
that admits them.  Entries with one selected parent each are of this kind, whatever the stats. -/
theorem candidates_namesParent_iff (r : Rule) (category : String) (stats : Stats) :
    ((∀ o ∈ r.candidates category stats, r.NamesParent category stats o) ↔
      ∀ p, r.playlist? category 0 = some p →
        ∀ k e, (p.filter Entry.selected)[k]? = some e → e.thresholds.admits stats = true →
          ∃ k' e', p.parentEntries[k']? = some e' ∧ e'.thresholds.admits stats = true ∧
            UInt32.ofNat (k' + 1) = UInt32.ofNat (k + 1)) ∧
    ((∀ p, r.playlist? category 0 = some p → ∀ e ∈ p, e.selected = true → e.parents = 1) →
      ∀ o ∈ r.candidates category stats, r.NamesParent category stats o) := by
  have agree : (∀ o ∈ r.candidates category stats, r.NamesParent category stats o) ↔
      ∀ p, r.playlist? category 0 = some p →
        ∀ k e, (p.filter Entry.selected)[k]? = some e → e.thresholds.admits stats = true →
          ∃ k' e', p.parentEntries[k']? = some e' ∧ e'.thresholds.admits stats = true ∧
            UInt32.ofNat (k' + 1) = UInt32.ofNat (k + 1) := by
    constructor
    · intro names p found k e at_k admits
      have candidate : UInt32.ofNat (k + 1) ∈ r.candidates category stats :=
        mem_candidates_iff.mpr ⟨p, found, mem_candidates.mpr ⟨k, e, at_k, admits, rfl⟩⟩
      exact (namesParent_iff found _).mp (names _ candidate)
    · intro shares o candidate
      obtain ⟨p, found, candidate⟩ := mem_candidates_iff.mp candidate
      obtain ⟨k, e, at_k, admits, rfl⟩ := mem_candidates.mp candidate
      exact (namesParent_iff found _).mpr (shares p found k e at_k admits)
  refine ⟨agree, fun one => agree.mpr fun p found k e at_k admits => ?_⟩
  rw [← parentEntries_of_one_parent (one p found)] at at_k
  exact ⟨k, e, at_k, admits, rfl⟩

/-- An entry of two parents for actors at half their health, then one of a single parent for all. -/
def uneven : Playlist :=
  [{ Entry.plain "Pair" [.plain ⟨0, 0⟩ .parent, .plain ⟨0, 1⟩ .parent] with
      thresholds := { Thresholds.any with healthCeiling := .ofInt 50 } },
    .plain "Single" [.plain ⟨0, 2⟩ .parent]]

def unevenRule : Rule :=
  (⟨"General NPC", .general, .builtIn⟩ : Rule).modifyCategory "Unarmed" fun c =>
    c.modifyStance 0 fun _ => uneven

def bruised : Stats := { Stats.full with health := .ofInt 80 }

theorem uneven_candidate_names_no_parent : 2 ∈ unevenRule.candidates "Unarmed" bruised ∧
    ¬ unevenRule.NamesParent "Unarmed" bruised 2 := by
  have found : unevenRule.playlist? "Unarmed" 0 = some uneven := rfl
  constructor
  · rw [mem_candidates_iff]
    exact ⟨uneven, found, mem_candidates.mpr ⟨1, _, rfl, by decide +kernel, rfl⟩⟩
  · rw [namesParent_iff found]
    rintro ⟨k, e, at_k, admits, ordinal⟩
    match k with
    | 0 => exact absurd ordinal (by decide)
    | 1 =>
      cases at_k
      exact absurd admits (by decide +kernel)
    | 2 => exact absurd ordinal (by decide)
    | k + 3 => cases at_k

end Rule

end Movesets
