import Movesets.Proofs.OrdinalRange
import Movesets.Proofs.RecentPicks

set_option autoImplicit false

/-!
# One mode for all cyclers

The mode is kept with the player and once more with every cycler, where a new cycler takes it from
the player.  All of them are in the mode that was set last, whatever was used or cleared between.
What else a cycler keeps was given for its own category and stance: the latest ordinal and the picks
drawn since another model was taken.
-/

namespace Movesets

/-- The mode that an operation sets. -/
def SessionOp.mode? : SessionOp → Option CycleMode
  | .setMode mode => some mode
  | _ => none

/-- The mode that is set last, `mode` if none is set. -/
def lastMode (mode : CycleMode) (ops : List SessionOp) : CycleMode :=
  ((ops.filterMap SessionOp.mode?).getLast?).getD mode

theorem lastMode_cons (mode : CycleMode) (op : SessionOp) (ops : List SessionOp) :
    lastMode mode (op :: ops) = lastMode (op.mode?.getD mode) ops := by
  unfold lastMode
  rw [List.filterMap_cons]
  cases op.mode? with
  | none => rfl
  | some set => rw [List.getLast?_cons, Option.getD_some, Option.getD_some]

namespace Player

variable {p : Player} {mode : CycleMode} {key : String × Nat} {parents : String → UInt32}

/-- The player and all its cyclers are in a mode. -/
structure InMode (p : Player) (mode : CycleMode) : Prop where
  player : p.mode = mode
  cyclers : ∀ e ∈ p.cyclers, e.2.mode = mode

theorem InMode.mode_of_cycler? (uniform : p.InMode mode) {c : Cycler}
    (used : p.cycler? key = some c) : c.mode = mode := by
  obtain ⟨e, found, rfl⟩ := Option.map_eq_some_iff.mp used
  exact uniform.cyclers e (List.mem_of_find?_eq_some found)

theorem InMode.mode_cycler (uniform : p.InMode mode) (key : String × Nat) :
    (p.cycler key).mode = mode := by
  unfold cycler
  cases used : p.cycler? key with
  | none => exact uniform.player
  | some c => exact uniform.mode_of_cycler? used

theorem InMode.setCycler (uniform : p.InMode mode) (key : String × Nat) {c : Cycler}
    (same : c.mode = mode) : (p.setCycler key c).InMode mode := by
  refine ⟨uniform.player, fun e mem => ?_⟩
  rcases List.mem_cons.mp mem with rfl | mem
  · exact same
  · exact uniform.cyclers e (List.mem_filter.mp mem).1

theorem InMode.clamp (uniform : p.InMode mode) (key : String × Nat) (max : UInt32) :
    (p.clamp key max).InMode mode := by
  unfold Player.clamp
  split
  next => exact uniform
  next c used =>
    refine uniform.setCycler key ?_
    rw [Cycler.mode_clamp]
    exact uniform.mode_of_cycler? used

theorem inMode_setMode (p : Player) (mode : CycleMode) : (p.setMode mode).InMode mode := by
  refine ⟨rfl, fun e mem => ?_⟩
  obtain ⟨_, _, rfl⟩ := List.mem_map.mp mem
  rfl

theorem InMode.after (uniform : p.InMode mode) (op : SessionOp) :
    (p.after parents op).InMode (op.mode?.getD mode) := by
  cases op with
  | replace model library => exact ⟨uniform.player, fun _ mem => nomatch mem⟩
  | setMode mode => exact p.inMode_setMode mode
  | nextStance | previousStance | setStance => exact ⟨uniform.player, uniform.cyclers⟩
  | variant | variantName => exact uniform.clamp ..
  | nextVariant category draws =>
    exact uniform.setCycler _ ((Cycler.mode_advance ..).trans (uniform.mode_cycler _))
  | previousVariant category => exact uniform.setCycler _ (uniform.mode_cycler _)
  | update | addRule | removeRule | setPlaylist | maxVariants | compile => exact uniform
  | resolve | candidates => exact uniform

end Player

theorem Session.inMode_run {s : Session} {mode : CycleMode} (uniform : s.player.InMode mode)
    (ops : List SessionOp) : (s.run ops).player.InMode (lastMode mode ops) := by
  induction ops generalizing s mode with
  | nil => exact uniform
  | cons op ops ih =>
    rw [run_cons, lastMode_cons]
    refine ih ?_
    rw [player_after]
    exact uniform.after op

/-! ## What a cycler remembers -/

/-- What was given for a category and stance: the latest ordinal, and the picks that were drawn, the
latest first. -/
structure Past where
  ordinal : UInt32
  picks : List UInt32
  deriving DecidableEq, Repr

namespace Past

def none : Past := ⟨0, []⟩

/-- The past after a step to an ordinal.  One that was drawn is a pick, but zero stands for none. -/
def stepped (past : Past) (mode : CycleMode) (o : UInt32) : Past :=
  match mode with
  | .sequential => { past with ordinal := o }
  | .random => ⟨o, if o = 0 then past.picks else o :: past.picks⟩

/-- What a step gives after a past, and the draws that are left: the ordinal after the latest one,
or a draw from all ordinals that knows the latest picks. -/
def next (past : Past) (mode : CycleMode) (max : UInt32) (draws : Draws) : UInt32 × Draws :=
  match mode with
  | .sequential => (nextOrdinal past.ordinal max, draws)
  | .random =>
    let (pick, _, left) := Draw.next (ordinalsTo max) (.ofPicks past.picks) draws
    (pick, left)

/-- The cycler that remembers a past. -/
def cycler (past : Past) (mode : CycleMode) : Cycler := ⟨mode, past.ordinal, .ofPicks past.picks⟩

theorem advance_cycler (past : Past) (mode : CycleMode) (max : UInt32) (draws : Draws) :
    ((past.cycler mode).advance max draws).1 =
      (past.stepped mode ((past.cycler mode).advance max draws).1.current).cycler mode := by
  cases mode with
  | sequential => rfl
  | random =>
    -- zero is none of the ordinals, so a pick of zero says that nothing was drawn
    have proper : 0 ∉ ordinalsTo max := fun mem => (mem_ordinalsTo.mp mem).1 rfl
    have recent := Draw.recent_next proper (.ofPicks past.picks) draws
    unfold Cycler.advance
    dsimp only [cycler]
    generalize Draw.next (ordinalsTo max) (.ofPicks past.picks) draws = drawn at recent ⊢
    obtain ⟨pick, left, rest⟩ := drawn
    dsimp only at recent ⊢
    rw [recent]
    by_cases nothing : pick = 0
    · simp [stepped, nothing]
    · simp [stepped, nothing, Recent.ofPicks, Recent.push]

theorem clamp_cycler (past : Past) (mode : CycleMode) (max : UInt32) :
    (past.cycler mode).clamp max =
      { past with ordinal := ((past.cycler mode).clamp max).current }.cycler mode := by
  unfold Cycler.clamp
  split <;> rfl

end Past

namespace Session

/-- The past of a category and stance after an operation: reading and stepping give it an ordinal,
and taking another model ends it. -/
def recorded (s : Session) (key : String × Nat) (past : Past) : SessionOp → Past
  | .replace _ _ => .none
  | .variant category | .variantName category _ =>
    if s.activeKey category = key then { past with ordinal := (s.variant category).result }
    else past
  | .nextVariant category draws =>
    if s.activeKey category = key then
      past.stepped s.player.mode (s.nextVariant category draws).result.1
    else past
  | .previousVariant category =>
    if s.activeKey category = key then
      { past with ordinal := (s.previousVariant category).result.1 }
    else past
  | _ => past

/-- The past of a category and stance after a run, given the one before. -/
def past (s : Session) (key : String × Nat) (before : Past) : List SessionOp → Past
  | [] => before
  | op :: ops => (s.after op).past key (s.recorded key before op) ops

/-- The cycler of a category and stance is in the mode of the player and remembers a past. -/
def Recalls (s : Session) (key : String × Nat) (past : Past) : Prop :=
  s.player.cycler key = past.cycler s.player.mode

/-- A change of the active cycler alone leaves pasts recalled, if that cycler goes on as recorded. -/
theorem Recalls.step {s t : Session} {key active : String × Nat} {past next : Past} {c : Cycler}
    (recalls : s.Recalls key past) (mode : t.player.mode = s.player.mode)
    (cycler : t.player.cycler key = if active = key then c else s.player.cycler key)
    (given : active = key → c = next.cycler s.player.mode) :
    t.Recalls key (if active = key then next else past) := by
  rw [Recalls, mode, cycler]
  split
  next here => exact given here
  next => exact recalls

theorem Recalls.variant {s : Session} {key : String × Nat} {past : Past}
    (recalls : s.Recalls key past) (category : String) :
    (s.variant category).session.Recalls key (s.recorded key past (.variant category)) := by
  have player := s.player_variant category
  have mode : (s.variant category).session.player.mode = s.player.mode := by
    rw [player, Player.mode_clamp]
  have cycler := s.player.cycler_clamp (s.activeKey category) key (s.activeMax category).result
  rw [← player] at cycler
  refine recalls.step mode cycler fun here => ?_
  rw [result_variant, here, recalls]
  exact past.clamp_cycler ..

theorem Recalls.setCycler {s t : Session} {key active : String × Nat} {past next : Past}
    {c : Cycler} (recalls : s.Recalls key past) (player : t.player = s.player.setCycler active c)
    (given : active = key → c = next.cycler s.player.mode) :
    t.Recalls key (if active = key then next else past) := by
  have mode : t.player.mode = s.player.mode := by
    rw [player]
    rfl
  refine recalls.step mode ?_ given
  rw [player, Player.cycler_setCycler]

theorem Recalls.after {s : Session} {key : String × Nat} {past : Past}
    (recalls : s.Recalls key past) (op : SessionOp) :
    (s.after op).Recalls key (s.recorded key past op) := by
  have player := s.player_after op
  cases op with
  | replace model library => rfl
  | setMode mode =>
    refine (s.player.cycler_setMode mode key).trans ?_
    rw [recalls]
    rfl
  | variant category => exact recalls.variant category
  | variantName category direction => exact recalls.variant category
  | nextVariant category draws =>
    refine recalls.setCycler player fun here => ?_
    change ((s.player.cycler (s.activeKey category)).advance _ draws).1 = _
    rw [result_nextVariant, here, recalls]
    exact past.advance_cycler ..
  | previousVariant category =>
    refine recalls.setCycler player fun here => ?_
    change (s.player.cycler (s.activeKey category)).retreat _ = _
    rw [result_previousVariant, here, recalls]
    rfl
  | _ =>
    rw [Recalls, player]
    exact recalls

theorem Recalls.run {s : Session} {key : String × Nat} {past : Past}
    (recalls : s.Recalls key past) (ops : List SessionOp) :
    (s.run ops).Recalls key (s.past key past ops) := by
  induction ops generalizing s past with
  | nil => exact recalls
  | cons op ops ih => exact ih (recalls.after op)

theorem Recalls.result_nextVariant {s : Session} {category : String} {past : Past}
    (recalls : s.Recalls (s.activeKey category) past) (draws : Draws) :
    (s.nextVariant category draws).result =
      past.next s.player.mode (s.activeMax category).result draws := by
  have stepped : (s.nextVariant category draws).result =
      let (c, left) := (past.cycler s.player.mode).advance (s.activeMax category).result draws
      (c.current, left) := by
    rw [← recalls, ← player_counted]
    rfl
  rw [stepped]
  cases s.player.mode <;> rfl

/-- Whatever has been done with a session, the player and all its cyclers are in the mode that was
set last, in order if none was.  A step goes on from the ordinal that its own category and stance
were given last, or draws from all ordinals with the picks drawn for them; and no step or reading
touches the cycler of another category or stance. -/
theorem cyclers_in_mode_set_last (m : Model) (l : Library) (ops : List SessionOp)
    (category : String) (draws : Draws) :
    let s := (start m l).run ops
    let mode := lastMode .sequential ops
    let past := fun key => (start m l).past key .none ops
    let own := past (s.activeKey category)
    let parents := s.activeParents category
    s.player.mode = mode ∧
    (∀ e ∈ s.player.cyclers, e.2.mode = mode) ∧
    (∀ key, s.player.cycler key = (past key).cycler mode) ∧
    (s.nextVariant category draws).result = own.next mode parents draws ∧
    ∀ op, ∀ used ∈ op.category?, ∀ key ≠ s.activeKey used,
      (s.after op).player.cycler? key = s.player.cycler? key := by
  intro s mode past own parents
  have uniform : s.player.InMode mode :=
    inMode_run ⟨rfl, fun _ mem => absurd mem List.not_mem_nil⟩ ops
  have recalls (key : String × Nat) : s.Recalls key (past key) := by
    have started : (start m l).Recalls key .none := rfl
    exact started.run ops
  refine ⟨uniform.player, uniform.cyclers, fun key => ?_, ?_, fun op used cycles key other => ?_⟩
  · rw [← uniform.player]
    exact recalls key
  · have fresh : s.Fresh := Fresh.run (fun valid => absurd valid Bool.false_ne_true) ops
    have active : s.player.stance.stance < stanceCount :=
      stance_run_lt (show 0 < stanceCount by decide) ops
    rw [(recalls _).result_nextVariant, uniform.player, fresh.result_activeMax active]
  · rw [player_after]
    exact Player.cycler?_after_of_ne cycles other

/-- A step in order, another in the next stance after the mode was switched, and a draw back in the
first stance. -/
def spar : List SessionOp :=
  [.nextVariant "Unarmed" (.ofWords []), .nextStance, .setMode .random,
    .nextVariant "Unarmed" (.ofWords []), .previousStance, .nextVariant "Unarmed" (.ofWords [])]

def sparring : Session :=
  start (Model.builtIn.modifyPlaylist .player "Unarmed" 0 fun _ => blows) .empty

theorem cyclers_in_mode_set_last_spar :
    (("Unarmed", 1), ⟨.random, 0, .none⟩) ∈ (sparring.run spar).player.cyclers ∧
    lastMode .sequential spar = .random ∧
    sparring.past ("Unarmed", 0) .none spar = ⟨1, [1]⟩ ∧
    ((sparring.run spar).nextVariant "Unarmed" (.ofWords [])).result = (2, ⟨[], 1⟩) ∧
    (("Unarmed", 1) : String × Nat) ≠ (sparring.run spar).activeKey "Unarmed" ∧
    ((sparring.run spar).after (.nextVariant "Unarmed" (.ofWords []))).player.cycler?
      ("Unarmed", 1) = (sparring.run spar).player.cycler? ("Unarmed", 1) := by
  have used : (("Unarmed", 1), ⟨.random, 0, .none⟩) ∈ (sparring.run spar).player.cyclers := by
    decide +kernel
  have other : (("Unarmed", 1) : String × Nat) ≠ (sparring.run spar).activeKey "Unarmed" := by
    decide +kernel
  have past : sparring.past ("Unarmed", 0) .none spar = ⟨1, [1]⟩ := by decide +kernel
  obtain ⟨_, modes, _, stepped, apart⟩ :=
    cyclers_in_mode_set_last (Model.builtIn.modifyPlaylist .player "Unarmed" 0 fun _ => blows)
      .empty spar "Unarmed" (.ofWords [])
  refine ⟨used, (modes _ used).symm, past, stepped.trans ?_, other,
    apart (.nextVariant "Unarmed" (.ofWords [])) "Unarmed" rfl ("Unarmed", 1) other⟩
  decide +kernel

end Session

end Movesets
