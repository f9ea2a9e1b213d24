import Mathlib.Data.List.Iterate
import Mathlib.Data.List.Perm.Subperm
import Movesets.Proofs.OrdinalRange

set_option autoImplicit false

/-!
# Stepping round a playlist

Stepping on from any ordinal, one that the playlist has lost included, goes once through all the
ordinals that it has before one comes again, and so does stepping back.  No ordinal is passed over
at either end, and a step is undone by the step the other way.
-/

namespace Movesets

variable {max first o : UInt32}

theorem mem_ordinalsTo_iff_toNat :
    o ∈ ordinalsTo max ↔ 1 ≤ o.toNat ∧ o.toNat ≤ max.toNat := by
  rw [mem_ordinalsTo, UInt32.le_iff_toNat_le, Ne, ← UInt32.toNat_inj, UInt32.toNat_zero]
  omega

theorem nodup_ordinalsTo (max : UInt32) : (ordinalsTo max).Nodup := by
  refine List.Nodup.map_on ?_ List.nodup_range
  intro i inside j inside' same
  have bound := max.toNat_lt
  rw [List.mem_range] at inside inside'
  rw [← UInt32.toNat_inj, UInt32.toNat_ofNat', UInt32.toNat_ofNat'] at same
  omega

theorem count_ordinalsTo (max o : UInt32) :
    (ordinalsTo max).count o = if 1 ≤ o ∧ o ≤ max then 1 else 0 := by
  rw [(nodup_ordinalsTo max).count]
  refine if_congr ?_ rfl rfl
  rw [mem_ordinalsTo_iff_toNat, UInt32.le_iff_toNat_le, UInt32.le_iff_toNat_le, UInt32.toNat_one]

/-- As many steps as there are ordinals go through each of them once if none is out of reach. -/
theorem iterate_perm_ordinalsTo {step : UInt32 → UInt32}
    (reaches : ∀ o ∈ ordinalsTo max, ∃ k < max.toNat, o = step^[k] first) :
    (List.iterate step first max.toNat).Perm (ordinalsTo max) := by
  have inside : ordinalsTo max ⊆ List.iterate step first max.toNat := by
    intro o mem
    exact List.mem_iterate.mpr (reaches o mem)
  have short : (List.iterate step first max.toNat).length ≤ (ordinalsTo max).length := by
    simp [ordinalsTo]
  exact ((List.subperm_of_subset (nodup_ordinalsTo max) inside).perm_of_length_le short).symm

/-! ## Steps to the next ordinal -/

theorem nextOrdinal_mem (inhabited : 1 ≤ max) (start : UInt32) :
    nextOrdinal start max ∈ ordinalsTo max := by
  rw [UInt32.le_iff_toNat_le, UInt32.toNat_one] at inhabited
  rw [mem_ordinalsTo_iff_toNat, toNat_nextOrdinal]
  split_ifs <;> omega

theorem toNat_iterate_nextOrdinal {k : Nat} (below : o.toNat + k ≤ max.toNat) :
    ((nextOrdinal · max)^[k] o).toNat = o.toNat + k := by
  induction k with
  | zero => rfl
  | succ k ih =>
    have before := ih (by omega)
    rw [Function.iterate_succ_apply', toNat_nextOrdinal, before]
    split_ifs <;> omega

/-- From one ordinal to another it is as many steps as lie between, round the end if need be. -/
theorem exists_iterate_nextOrdinal (from_first : first ∈ ordinalsTo max)
    (mem : o ∈ ordinalsTo max) : ∃ k < max.toNat, o = (nextOrdinal · max)^[k] first := by
  rw [mem_ordinalsTo_iff_toNat] at from_first mem
  rcases Nat.lt_or_ge o.toNat first.toNat with behind | ahead
  · have last : (nextOrdinal · max)^[max.toNat - first.toNat] first = max := by
      rw [← UInt32.toNat_inj, toNat_iterate_nextOrdinal (by omega)]
      omega
    have round : (nextOrdinal max max).toNat = 1 := by
      rw [toNat_nextOrdinal]
      split_ifs <;> omega
    refine ⟨(o.toNat - 1) + ((max.toNat - first.toNat) + 1), by omega, UInt32.toNat_inj.mp ?_⟩
    rw [Function.iterate_add_apply, Function.iterate_succ_apply', last,
      toNat_iterate_nextOrdinal (by omega)]
    omega
  · refine ⟨o.toNat - first.toNat, by omega, UInt32.toNat_inj.mp ?_⟩
    rw [toNat_iterate_nextOrdinal (by omega)]
    omega

/-! ## Steps to the ordinal before -/

theorem previousOrdinal_mem (inhabited : 1 ≤ max) (start : UInt32) :
    previousOrdinal start max ∈ ordinalsTo max := by
  rw [UInt32.le_iff_toNat_le, UInt32.toNat_one] at inhabited
  rw [mem_ordinalsTo_iff_toNat, toNat_previousOrdinal]
  split_ifs <;> omega

theorem toNat_iterate_previousOrdinal {k : Nat} (mem : o ∈ ordinalsTo max) (above : k < o.toNat) :
    ((previousOrdinal · max)^[k] o).toNat = o.toNat - k := by
  rw [mem_ordinalsTo_iff_toNat] at mem
  induction k with
  | zero => rfl
  | succ k ih =>
    have before := ih (by omega)
    rw [Function.iterate_succ_apply', toNat_previousOrdinal, before]
    split_ifs <;> omega

theorem exists_iterate_previousOrdinal (from_first : first ∈ ordinalsTo max)
    (mem : o ∈ ordinalsTo max) : ∃ k < max.toNat, o = (previousOrdinal · max)^[k] first := by
  have from_last : max ∈ ordinalsTo max := by
    rw [mem_ordinalsTo_iff_toNat] at *
    omega
  have bounds := mem_ordinalsTo_iff_toNat.mp from_first
  rw [mem_ordinalsTo_iff_toNat] at mem
  rcases Nat.lt_or_ge first.toNat o.toNat with ahead | behind
  · have lowest : ((previousOrdinal · max)^[first.toNat - 1] first).toNat = 1 := by
      rw [toNat_iterate_previousOrdinal from_first (by omega)]
      omega
    have round : previousOrdinal ((previousOrdinal · max)^[first.toNat - 1] first) max = max := by
      rw [← UInt32.toNat_inj, toNat_previousOrdinal, lowest]
      split_ifs <;> omega
    refine ⟨(max.toNat - o.toNat) + ((first.toNat - 1) + 1), by omega, UInt32.toNat_inj.mp ?_⟩
    rw [Function.iterate_add_apply, Function.iterate_succ_apply', round,
      toNat_iterate_previousOrdinal from_last (by omega)]
    omega
  · refine ⟨first.toNat - o.toNat, by omega, UInt32.toNat_inj.mp ?_⟩
    rw [toNat_iterate_previousOrdinal from_first (by omega)]
    omega

/-! ## Both ways -/

theorem previousOrdinal_nextOrdinal (mem : o ∈ ordinalsTo max) :
    previousOrdinal (nextOrdinal o max) max = o := by
  rw [mem_ordinalsTo_iff_toNat] at mem
  rw [← UInt32.toNat_inj, toNat_previousOrdinal, toNat_nextOrdinal]
  split_ifs <;> omega

theorem nextOrdinal_previousOrdinal (mem : o ∈ ordinalsTo max) :
    nextOrdinal (previousOrdinal o max) max = o := by
  rw [mem_ordinalsTo_iff_toNat] at mem
  rw [← UInt32.toNat_inj, toNat_nextOrdinal, toNat_previousOrdinal]
  split_ifs <;> omega

/-- From any start, as many steps on as a playlist has ordinals go through each of them once, and as
many steps back likewise.  Every step is the one that unbounded numbers would take, and among the
ordinals of the playlist the steps undo each other. -/
theorem steps_cycle {max : UInt32} (inhabited : 1 ≤ max) (start : UInt32) :
    (∀ o, (List.iterate (nextOrdinal · max) (nextOrdinal start max) max.toNat).count o =
      if 1 ≤ o ∧ o ≤ max then 1 else 0) ∧
    (∀ o, (List.iterate (previousOrdinal · max) (previousOrdinal start max) max.toNat).count o =
      if 1 ≤ o ∧ o ≤ max then 1 else 0) ∧
    (∀ o : UInt32, ((nextOrdinal o max).toNat : Int) =
      if max ≤ o then 1 else (o.toNat : Int) + 1) ∧
    (∀ o : UInt32, ((previousOrdinal o max).toNat : Int) =
      if o ≤ 1 ∨ max < o then (max.toNat : Int) else (o.toNat : Int) - 1) ∧
    ∀ o, 1 ≤ o → o ≤ max →
      previousOrdinal (nextOrdinal o max) max = o ∧
        nextOrdinal (previousOrdinal o max) max = o := by
  have some := UInt32.le_iff_toNat_le.mp inhabited
  rw [UInt32.toNat_one] at some
  refine ⟨fun o => ?_, fun o => ?_, fun o => ?_, fun o => ?_, fun o lower upper => ?_⟩
  · rw [(iterate_perm_ordinalsTo fun o mem =>
      exists_iterate_nextOrdinal (nextOrdinal_mem inhabited start) mem).count_eq, count_ordinalsTo]
  · rw [(iterate_perm_ordinalsTo fun o mem =>
      exists_iterate_previousOrdinal (previousOrdinal_mem inhabited start) mem).count_eq,
      count_ordinalsTo]
  · simp only [toNat_nextOrdinal, UInt32.le_iff_toNat_le]
    split_ifs <;> omega
  · simp only [toNat_previousOrdinal, UInt32.le_iff_toNat_le, UInt32.lt_iff_toNat_lt,
      UInt32.toNat_one]
    split_ifs <;> omega
  · have mem : o ∈ ordinalsTo max := by
      rw [UInt32.le_iff_toNat_le, UInt32.toNat_one] at lower
      exact mem_ordinalsTo_iff_toNat.mpr ⟨lower, UInt32.le_iff_toNat_le.mp upper⟩
    exact ⟨previousOrdinal_nextOrdinal mem, nextOrdinal_previousOrdinal mem⟩

theorem steps_cycle_stale : (1 : UInt32) ≤ 3 ∧
    (∀ o, (List.iterate (nextOrdinal · 3) (nextOrdinal 4294967295 3) 3).count o =
      if 1 ≤ o ∧ o ≤ 3 then 1 else 0) ∧
    previousOrdinal (nextOrdinal 3 3) 3 = 3 := by
  obtain ⟨onward, _, _, _, undone⟩ := steps_cycle (show (1 : UInt32) ≤ 3 by decide) 4294967295
  exact ⟨by decide, onward, (undone 3 (by decide) (by decide)).1⟩

end Movesets
