import Movesets.Proofs.SessionRuns

set_option autoImplicit false

/-!
# Steps of the player

What each operation on a session makes of the player, given how many parents there are to step
through.  Only the cycler of the active category and stance is ever read or stepped.
-/

namespace Movesets

namespace SessionOp

/-- The category whose ordinal an operation reads or steps, in the active stance. -/
def category? : SessionOp → Option String
  | .variant category | .variantName category _ => some category
  | .nextVariant category _ | .previousVariant category => some category
  | _ => none

end SessionOp

namespace Cycler

@[simp] theorem mode_advance (c : Cycler) (max : UInt32) (draws : Draws) :
    (c.advance max draws).1.mode = c.mode := by
  unfold advance
  split <;> rfl

@[simp] theorem mode_clamp (c : Cycler) (max : UInt32) : (c.clamp max).mode = c.mode := by
  unfold clamp
  split <;> rfl

theorem clamp_fresh (mode : CycleMode) (max : UInt32) : (fresh mode).clamp max = fresh mode :=
  if_neg (UInt32.not_lt.mpr UInt32.zero_le)

end Cycler

namespace Player

variable {p : Player} {key k : String × Nat} {parents : String → UInt32}

/-- The player with a cycler brought back into range, if it has been used. -/
def clamp (p : Player) (key : String × Nat) (max : UInt32) : Player :=
  match p.cycler? key with
  | none => p
  | some c => p.setCycler key (c.clamp max)

@[simp] theorem mode_clamp (p : Player) (key : String × Nat) (max : UInt32) :
    (p.clamp key max).mode = p.mode := by
  unfold clamp
  split <;> rfl

@[simp] theorem stance_clamp (p : Player) (key : String × Nat) (max : UInt32) :
    (p.clamp key max).stance = p.stance := by
  unfold clamp
  split <;> rfl

theorem cycler?_setCycler (p : Player) (key k : String × Nat) (c : Cycler) :
    (p.setCycler key c).cycler? k = if key = k then some c else p.cycler? k := by
  unfold cycler? setCycler
  dsimp only
  rw [List.find?_cons]
  by_cases same : key = k
  · simp [same]
  · have kept (e : (String × Nat) × Cycler) :
        decide ((e.1 != key) = true ∧ (e.1 == k) = true) = (e.1 == k) := by
      by_cases here : e.1 = k
      · simp [here, Ne.symm same]
      · simp [here]
    rw [if_neg same, beq_eq_false_iff_ne.mpr same, List.find?_filter]
    simp only [kept]

theorem cycler_setCycler (p : Player) (key k : String × Nat) (c : Cycler) :
    (p.setCycler key c).cycler k = if key = k then c else p.cycler k := by
  rw [cycler, cycler?_setCycler]
  split <;> rfl

theorem cycler?_setMode (p : Player) (mode : CycleMode) (k : String × Nat) :
    (p.setMode mode).cycler? k = (p.cycler? k).map fun c => { c with mode } := by
  unfold cycler? setMode
  rw [List.find?_map, Option.map_map, Option.map_map]
  rfl

theorem cycler_setMode (p : Player) (mode : CycleMode) (k : String × Nat) :
    (p.setMode mode).cycler k = { p.cycler k with mode } := by
  rw [cycler, cycler?_setMode, cycler]
  cases p.cycler? k <;> rfl

theorem cycler?_clamp_of_ne (other : k ≠ key) (max : UInt32) :
    (p.clamp key max).cycler? k = p.cycler? k := by
  unfold clamp
  split
  next => rfl
  next => rw [cycler?_setCycler, if_neg other.symm]

theorem cycler_clamp (p : Player) (key k : String × Nat) (max : UInt32) :
    (p.clamp key max).cycler k = if key = k then (p.cycler k).clamp max else p.cycler k := by
  unfold clamp
  split
  next unused =>
    split
    next same =>
      rw [← same, cycler, unused]
      exact (Cycler.clamp_fresh p.mode max).symm
    next => rfl
  next c used =>
    rw [cycler_setCycler]
    split
    next same => rw [← same, cycler, used, Option.getD_some]
    next => rfl

/-- What an operation makes of the player, given how many parents the active playlists have. -/
def after (p : Player) (parents : String → UInt32) : SessionOp → Player
  | .replace _ _ => { p with cyclers := [] }
  | .setMode mode => p.setMode mode
  | .nextStance => { p with stance := p.stance.next }
  | .previousStance => { p with stance := p.stance.previous }
  | .setStance stance => { p with stance := .set stance }
  | .variant category | .variantName category _ =>
    p.clamp (category, p.stance.stance) (parents category)
  | .nextVariant category draws =>
    p.setCycler (category, p.stance.stance)
      ((p.cycler (category, p.stance.stance)).advance (parents category) draws).1
  | .previousVariant category =>
    p.setCycler (category, p.stance.stance)
      ((p.cycler (category, p.stance.stance)).retreat (parents category))
  | _ => p

/-- Reading or stepping an ordinal leaves the cyclers of all other categories and stances alone. -/
theorem cycler?_after_of_ne {op : SessionOp} {category : String}
    (used : op.category? = some category) (other : k ≠ (category, p.stance.stance)) :
    (p.after parents op).cycler? k = p.cycler? k := by
  cases op with
  | variant | variantName =>
    cases used
    exact cycler?_clamp_of_ne other _
  | nextVariant | previousVariant =>
    cases used
    exact (cycler?_setCycler ..).trans (if_neg other.symm)
  | _ => cases used

end Player

namespace Session

@[simp] theorem player_counted (s : Session) : s.counted.player = s.player := by
  unfold counted
  split <;> rfl

theorem player_variant (s : Session) (category : String) :
    (s.variant category).session.player =
      s.player.clamp (s.activeKey category) (s.activeMax category).result := by
  have counted : (s.activeMax category).session.player = s.player := s.player_counted
  unfold variant Player.clamp
  dsimp only
  rw [counted]
  cases s.player.cycler? (s.activeKey category) with
  | none => exact counted
  | some c => rfl

theorem player_after (s : Session) (op : SessionOp) :
    (s.after op).player = s.player.after (fun category => (s.activeMax category).result) op := by
  cases op with
  | addRule name matcher =>
    simp only [after, addRule]
    cases s.model.addRule name matcher <;> rfl
  | removeRule index =>
    simp only [after, removeRule]
    cases s.model.removeRule index <;> rfl
  | setPlaylist rule category stance playlist =>
    simp only [after, setPlaylist]
    cases s.model.setPlaylist rule category stance playlist <;> rfl
  | maxVariants key => exact s.player_counted
  | variant category => exact s.player_variant category
  | variantName category direction => exact s.player_variant category
  | nextVariant category draws =>
    change s.counted.player.setCycler (s.activeKey category)
      ((s.counted.player.cycler (s.activeKey category)).advance _ draws).1 = _
    rw [player_counted]
    rfl
  | previousVariant category =>
    change s.counted.player.setCycler (s.activeKey category)
      ((s.counted.player.cycler (s.activeKey category)).retreat _) = _
    rw [player_counted]
    rfl
  | update | replace | compile | resolve | candidates | setMode => rfl
  | nextStance | previousStance | setStance => rfl

theorem result_variant (s : Session) (category : String) :
    (s.variant category).result =
      ((s.player.cycler (s.activeKey category)).clamp (s.activeMax category).result).current := by
  have counted : (s.activeMax category).session.player = s.player := s.player_counted
  unfold variant Player.cycler
  dsimp only
  rw [counted]
  cases s.player.cycler? (s.activeKey category) with
  | none => exact (congrArg Cycler.current (Cycler.clamp_fresh ..)).symm
  | some c => rfl

end Session

end Movesets
