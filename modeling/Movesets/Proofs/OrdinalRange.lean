import Movesets.Proofs.Drawing
import Movesets.Proofs.FreshCounts
import Movesets.Proofs.PlayerSteps

set_option autoImplicit false

/-!
# Ordinals of the playlist as it is

A cycler keeps its ordinal and its picks while the playlist is edited.  Stepping, drawing and
reading bring every ordinal back among those that the playlist has now, because counts are never
stale and the active stance always is one of the four that are counted.
-/

namespace Movesets

theorem toNat_nextOrdinal (current max : UInt32) : (nextOrdinal current max).toNat =
    if max.toNat = 0 then 0 else if max.toNat ≤ current.toNat then 1 else current.toNat + 1 := by
  have bound := max.toNat_lt
  simp only [nextOrdinal, ← UInt32.toNat_inj, UInt32.le_iff_toNat_le, UInt32.toNat_zero]
  split_ifs
  · rfl
  · rfl
  · rw [UInt32.toNat_add, UInt32.toNat_one]
    omega

theorem toNat_previousOrdinal (current max : UInt32) : (previousOrdinal current max).toNat =
    if max.toNat = 0 then 0
    else if current.toNat ≤ 1 ∨ max.toNat < current.toNat then max.toNat
    else current.toNat - 1 := by
  simp only [previousOrdinal, ← UInt32.toNat_inj, UInt32.le_iff_toNat_le, UInt32.lt_iff_toNat_lt,
    UInt32.toNat_zero, UInt32.toNat_one]
  split_ifs with none past
  · rfl
  · rfl
  · have one : 1 ≤ current := UInt32.le_iff_toNat_le.mpr (by rw [UInt32.toNat_one]; omega)
    rw [UInt32.toNat_sub_of_le _ _ one, UInt32.toNat_one]

theorem nextOrdinal_le (current max : UInt32) : nextOrdinal current max ≤ max := by
  rw [UInt32.le_iff_toNat_le, toNat_nextOrdinal]
  split_ifs <;> omega

theorem nextOrdinal_eq_zero_iff (current max : UInt32) : nextOrdinal current max = 0 ↔ max = 0 := by
  have value := toNat_nextOrdinal current max
  rw [← UInt32.toNat_inj, ← UInt32.toNat_inj, UInt32.toNat_zero]
  split_ifs at value <;> omega

theorem previousOrdinal_le (current max : UInt32) : previousOrdinal current max ≤ max := by
  rw [UInt32.le_iff_toNat_le, toNat_previousOrdinal]
  split_ifs <;> omega

theorem previousOrdinal_eq_zero_iff (current max : UInt32) :
    previousOrdinal current max = 0 ↔ max = 0 := by
  have value := toNat_previousOrdinal current max
  rw [← UInt32.toNat_inj, ← UInt32.toNat_inj, UInt32.toNat_zero]
  split_ifs at value <;> omega

theorem mem_ordinalsTo {max o : UInt32} : o ∈ ordinalsTo max ↔ o ≠ 0 ∧ o ≤ max := by
  have bound := max.toNat_lt
  simp only [ordinalsTo, List.mem_map, List.mem_range, UInt32.le_iff_toNat_le, ne_eq,
    ← UInt32.toNat_inj, UInt32.toNat_zero, UInt32.toNat_ofNat']
  constructor
  · rintro ⟨i, inside, value⟩
    omega
  · rintro ⟨positive, le⟩
    exact ⟨o.toNat - 1, by omega, by omega⟩

theorem ordinalsTo_eq_nil_iff (max : UInt32) : ordinalsTo max = [] ↔ max = 0 := by
  rw [ordinalsTo, List.map_eq_nil_iff, List.range_eq_nil, ← UInt32.toNat_inj, UInt32.toNat_zero]

namespace Cycler

theorem current_advance_le (c : Cycler) (max : UInt32) (draws : Draws) :
    (c.advance max draws).1.current ≤ max := by
  unfold advance
  cases c.mode with
  | sequential => exact nextOrdinal_le c.current max
  | random =>
    change (Draw.next (ordinalsTo max) c.recent draws).1 ≤ max
    by_cases empty : ordinalsTo max = []
    · rw [empty]
      exact UInt32.zero_le
    · exact (mem_ordinalsTo.mp (Draw.next_mem empty c.recent draws)).2

theorem current_advance_eq_zero_iff (c : Cycler) (max : UInt32) (draws : Draws) :
    (c.advance max draws).1.current = 0 ↔ max = 0 := by
  unfold advance
  cases c.mode with
  | sequential => exact nextOrdinal_eq_zero_iff c.current max
  | random =>
    have proper : 0 ∉ ordinalsTo max := fun mem => (mem_ordinalsTo.mp mem).1 rfl
    exact (Draw.next_eq_zero_iff proper c.recent draws).trans (ordinalsTo_eq_nil_iff max)

theorem current_clamp_le (c : Cycler) (max : UInt32) : (c.clamp max).current ≤ max := by
  unfold clamp
  split_ifs with past none
  · exact UInt32.zero_le
  · have positive : 0 < max.toNat := Nat.pos_of_ne_zero fun zero => none (UInt32.toNat_inj.mp zero)
    exact UInt32.le_iff_toNat_le.mpr positive
  · exact UInt32.not_lt.mp past

end Cycler

theorem StanceCycler.stance_set_lt (stance : Nat) : (set stance).stance < stanceCount := by
  simp only [set, stanceCount]
  omega

/-- The active stance stays one of the four. -/
theorem Player.stance_after_lt {p : Player} (active : p.stance.stance < stanceCount)
    (parents : String → UInt32) (op : SessionOp) :
    (p.after parents op).stance.stance < stanceCount := by
  cases op with
  | nextStance | previousStance => exact Nat.mod_lt _ (by decide)
  | setStance stance => exact StanceCycler.stance_set_lt stance
  | variant | variantName =>
    rw [after, stance_clamp]
    exact active
  | _ => exact active

namespace Session

theorem stance_run_lt {s : Session} (active : s.player.stance.stance < stanceCount)
    (ops : List SessionOp) : (s.run ops).player.stance.stance < stanceCount := by
  induction ops generalizing s with
  | nil => exact active
  | cons op ops ih =>
    rw [run_cons]
    refine ih ?_
    rw [player_after]
    exact Player.stance_after_lt active _ op

/-- The parents of the player's playlist for a category in the active stance, none without one. -/
def activeParents (s : Session) (category : String) : UInt32 :=
  ((s.model.player.playlist? category s.player.stance.stance).map Playlist.parentCount).getD 0

theorem Fresh.result_activeMax {s : Session} (fresh : s.Fresh)
    (active : s.player.stance.stance < stanceCount) (category : String) :
    (s.activeMax category).result = s.activeParents category := by
  rw [activeMax, fresh.result_maxVariants, Model.parentCount]
  exact if_pos active

theorem result_variant_le (s : Session) (category : String) :
    (s.variant category).result ≤ (s.activeMax category).result := by
  rw [result_variant]
  exact Cycler.current_clamp_le _ _

theorem result_nextVariant (s : Session) (category : String) (draws : Draws) :
    (s.nextVariant category draws).result.1 =
      ((s.player.cycler (s.activeKey category)).advance (s.activeMax category).result
        draws).1.current := by
  rw [← s.player_counted]
  rfl

theorem result_previousVariant (s : Session) (category : String) :
    (s.previousVariant category).result.1 =
      ((s.player.cycler (s.activeKey category)).retreat (s.activeMax category).result).current := by
  rw [← s.player_counted]
  rfl

/-- Whatever has been done with a session, an ordinal that the player is given for a category is
none or that of a parent of its playlist in the active stance, and a step gives none only if there
is no parent. -/
theorem ordinals_of_playlist (m : Model) (l : Library) (ops : List SessionOp) (category : String)
    (draws : Draws) :
    let s := (start m l).run ops
    let parents := s.activeParents category
    (s.variant category).result ≤ parents ∧
    (s.nextVariant category draws).result.1 ≤ parents ∧
    ((s.nextVariant category draws).result.1 = 0 ↔ parents = 0) ∧
    (s.previousVariant category).result.1 ≤ parents ∧
    ((s.previousVariant category).result.1 = 0 ↔ parents = 0) := by
  intro s parents
  have started : (start m l).Fresh := fun valid => absurd valid Bool.false_ne_true
  have active : s.player.stance.stance < stanceCount :=
    stance_run_lt (show 0 < stanceCount by decide) ops
  have counted : (s.activeMax category).result = parents :=
    (started.run ops).result_activeMax active category
  rw [result_nextVariant, result_previousVariant, ← counted]
  refine ⟨s.result_variant_le category, ?_, ?_, ?_, ?_⟩
  · exact Cycler.current_advance_le _ _ draws
  · exact Cycler.current_advance_eq_zero_iff _ _ draws
  · exact previousOrdinal_le _ _
  · exact previousOrdinal_eq_zero_iff _ _

end Session

end Movesets
