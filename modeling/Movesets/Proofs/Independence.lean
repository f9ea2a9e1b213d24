import Mathlib.Data.List.Forall2
import Movesets.Proofs.Drawing

set_option autoImplicit false

/-!
# Actors by themselves

Only the calls on an actor, the sweeps and the model decide over its window and over which sweeps
give it a new pick, from which tier, and whether there was anything to pick.  The calls on other
actors can at most change what is drawn.
-/

namespace Movesets

/-- Whether there is a new pick of an actor, from which tier, and whether it is none. -/
def Reroll.outcome (e : Reroll) : Int32 × Bool := (e.tier, e.ordinal == 0)

namespace Window

/-- When the window runs out, and when it was last active. -/
def clock (w : Window) : Option Nat × Nat := (w.deadline, w.lastActive)

variable {w w' : Window}

theorem hasExpired_congr (same : w.clock = w'.clock) (now : Nat) :
    w.hasExpired now = w'.hasExpired now := by
  have deadline : w.deadline = w'.deadline := congrArg Prod.fst same
  rw [hasExpired, hasExpired, deadline]

theorem isRetained_congr (same : w.clock = w'.clock) (now retention : Nat) :
    w.isRetained now retention = w'.isRetained now retention := by
  have deadline : w.deadline = w'.deadline := congrArg Prod.fst same
  have lastActive : w.lastActive = w'.lastActive := congrArg Prod.snd same
  rw [isRetained, isRetained, deadline, lastActive]

/-- What a sweep leaves of the clock of a window depends on no pick. -/
theorem clock_swept (w : Window) (now retention : Nat) (host : Host) (m : Model) (d : Draws)
    (a : Form) : (w.swept now retention host m d a).1.map clock =
    if w.hasExpired now then (host.actor a).map fun _ => (none, now)
    else if w.isRetained now retention then some w.clock
    else none := by
  unfold swept
  split
  next =>
    unfold Host.turn
    cases host.actor a with
    | none => rfl
    | some actor =>
      cases host.offer? m a <;> rfl
  next => split <;> rfl

theorem outcome_swept {m : Model} (numbered : m.Numbered) (w : Window) (now retention : Nat)
    (host : Host) (d : Draws) (a : Form) : (w.swept now retention host m d a).2.map Reroll.outcome =
      if w.hasExpired now then (host.offer? m a).map fun o => (o.1.tier, o.2.isEmpty)
      else none := by
  rw [event_swept]
  split
  next =>
    -- the pick is zero exactly where there are no candidates, whatever came before
    rw [Option.map_map]
    refine Option.map_congr fun o offer => Prod.ext rfl (Bool.eq_iff_iff.mpr ?_)
    have proper : 0 ∉ o.2 := numbered.zero_notMem_offer (Option.mem_def.mp offer)
    exact beq_iff_eq.trans
      ((Draw.next_eq_zero_iff proper w.recent d).trans List.isEmpty_iff.symm)
  next => rfl

end Window

namespace ComboCall

def actor? : ComboCall → Option Form
  | openWindow a _ => some a
  | closeWindow a => some a
  | forget a => some a
  | sweep .. => none
  | manage _ => none

/-- The call is on the actor, or on none. -/
def concerns (call : ComboCall) (a : Form) : Bool := call.actor?.all fun b => b == a

def isSweep : ComboCall → Bool
  | sweep .. => true
  | _ => false

/-- The same call, but for the draws of a sweep. -/
inductive Alike : ComboCall → ComboCall → Prop where
  | same (call : ComboCall) : Alike call call
  | redrawn (now : Nat) (host : Host) (draws draws' : Form → Draws) :
    Alike (sweep now host draws) (sweep now host draws')

variable {call call' : ComboCall} {a : Form} {length retention : Nat} {m : Model}
  {w w' : Option Window}

theorem isSweep_of_not_concerns (other : call.concerns a = false) : call.isSweep = false := by
  cases call <;> first | rfl | cases other

theorem edit_of_not_concerns (other : call.concerns a = false) : call.edit m = m := by
  cases call <;> first | rfl | cases other

theorem treat_of_not_concerns (other : call.concerns a = false) :
    call.treat length retention m a w = (w, none) := by
  cases call with
  | openWindow b now => exact congrArg (·, none) (if_neg (ne_of_beq_false other))
  | closeWindow b => exact congrArg (·, none) (if_neg (ne_of_beq_false other))
  | forget b => exact congrArg (·, none) (if_neg (ne_of_beq_false other))
  | sweep now host draws => cases other
  | manage op => rfl

theorem Alike.isSweep_eq (alike : Alike call call') : call.isSweep = call'.isSweep := by
  cases alike <;> rfl

theorem Alike.edit_eq (alike : Alike call call') : call.edit m = call'.edit m := by
  cases alike <;> rfl

theorem clock_treat_sweep (same : w.map Window.clock = w'.map Window.clock) (now : Nat)
    (host : Host) (draws draws' : Form → Draws) :
    ((sweep now host draws).treat length retention m a w).1.map Window.clock =
      ((sweep now host draws').treat length retention m a w').1.map Window.clock := by
  cases w with
  | none =>
    rw [Option.map_eq_none_iff.mp same.symm]
    rfl
  | some w =>
    obtain ⟨w', rfl, clock⟩ := Option.map_eq_some_iff.mp same.symm
    change (w.swept now retention host m (draws a) a).1.map Window.clock =
      (w'.swept now retention host m (draws' a) a).1.map Window.clock
    rw [Window.clock_swept, Window.clock_swept, clock, Window.hasExpired_congr clock,
      Window.isRetained_congr clock]

theorem Alike.clock_treat (alike : Alike call call')
    (same : w.map Window.clock = w'.map Window.clock) :
    (call.treat length retention m a w).1.map Window.clock =
      (call'.treat length retention m a w').1.map Window.clock := by
  cases alike with
  | redrawn now host draws draws' => exact clock_treat_sweep same now host draws draws'
  | same =>
    cases call with
    | sweep now host draws => exact clock_treat_sweep same now host draws draws
    | manage op => exact same
    | openWindow b now =>
      dsimp only [treat]
      split
      next => rfl
      next => exact same
    | closeWindow b =>
      dsimp only [treat]
      split
      next =>
        have closed (w : Option Window) :
            (w.map fun w => { w with deadline := none }).map Window.clock =
              (w.map Window.clock).map fun clock => (none, clock.2) := by
          cases w <;> rfl
        rw [closed, closed, same]
      next => exact same
    | forget b =>
      dsimp only [treat]
      split
      next => rfl
      next => exact same

theorem outcome_treat_sweep (numbered : m.Numbered)
    (same : w.map Window.clock = w'.map Window.clock) (now : Nat) (host : Host)
    (draws draws' : Form → Draws) :
    ((sweep now host draws).treat length retention m a w).2.map Reroll.outcome =
      ((sweep now host draws').treat length retention m a w').2.map Reroll.outcome := by
  cases w with
  | none =>
    rw [Option.map_eq_none_iff.mp same.symm]
    rfl
  | some w =>
    obtain ⟨w', rfl, clock⟩ := Option.map_eq_some_iff.mp same.symm
    change (w.swept now retention host m (draws a) a).2.map Reroll.outcome =
      (w'.swept now retention host m (draws' a) a).2.map Reroll.outcome
    rw [Window.outcome_swept numbered, Window.outcome_swept numbered, Window.hasExpired_congr clock]

theorem Alike.outcome_treat (alike : Alike call call') (numbered : m.Numbered)
    (same : w.map Window.clock = w'.map Window.clock) :
    (call.treat length retention m a w).2.map Reroll.outcome =
      (call'.treat length retention m a w').2.map Reroll.outcome := by
  cases alike with
  | redrawn now host draws draws' => exact outcome_treat_sweep numbered same now host draws draws'
  | same =>
    cases call with
    | sweep now host draws => exact outcome_treat_sweep numbered same now host draws draws
    | openWindow b now => rfl
    | closeWindow b => rfl
    | forget b => rfl
    | manage op => rfl

end ComboCall

namespace Combo

/-- The outcomes of the sweeps of a run for one actor, sweep by sweep. -/
def outcomes (c : Combo) (a : Form) : List ComboCall → List (Option (Int32 × Bool))
  | [] => []
  | call :: calls =>
    (if call.isSweep then [(c.event? call a).map Reroll.outcome] else []) ++
      (c.after call).outcomes a calls

/-- The two agree on all that decides over the window of an actor. -/
structure Agree (a : Form) (c c' : Combo) : Prop where
  model : c.session.model = c'.session.model
  length : c.tracker.window = c'.tracker.window
  retention : c.tracker.retention = c'.tracker.retention
  clock : (c.tracker.window? a).map Window.clock = (c'.tracker.window? a).map Window.clock

namespace Agree

variable {a : Form} {c c' : Combo} {call call' : ComboCall} {calls calls' : List ComboCall}

theorem isTracked_eq (agree : Agree a c c') : c.isTracked a = c'.isTracked a := by
  have clock := congrArg Option.isSome agree.clock
  rwa [Option.isSome_map, Option.isSome_map] at clock

theorem isOpen_eq (agree : Agree a c c') : c.tracker.isOpen a = c'.tracker.isOpen a := by
  have deadline (w : Option Window) : w.bind Window.deadline =
      (w.map Window.clock).bind (·.1) := by
    cases w <;> rfl
  rw [Tracker.isOpen, Tracker.isOpen, deadline, deadline, agree.clock]

theorem skip (agree : Agree a c c') (other : call.concerns a = false) :
    Agree a (c.after call) c' where
  model := by rw [model_after, ComboCall.edit_of_not_concerns other, agree.model]
  length := by rw [window_after, agree.length]
  retention := by rw [retention_after, agree.retention]
  clock := by rw [window?_after, treated, ComboCall.treat_of_not_concerns other, agree.clock]

theorem after (agree : Agree a c c') (alike : call.Alike call') :
    Agree a (c.after call) (c'.after call') where
  model := by rw [model_after, model_after, agree.model, alike.edit_eq]
  length := by rw [window_after, window_after, agree.length]
  retention := by rw [retention_after, retention_after, agree.retention]
  clock := by
    rw [window?_after, window?_after, treated, treated, agree.model, agree.length, agree.retention]
    exact alike.clock_treat agree.clock

theorem outcome_eq (agree : Agree a c c') (numbered : c.session.model.Numbered)
    (alike : call.Alike call') :
    (c.event? call a).map Reroll.outcome = (c'.event? call' a).map Reroll.outcome := by
  rw [event?_eq_treated, event?_eq_treated, treated, treated, ← agree.model, agree.length,
    agree.retention]
  exact alike.outcome_treat numbered agree.clock

theorem run (agree : Agree a c c')
    (kept : List.Forall₂ ComboCall.Alike (calls.filter (·.concerns a)) calls') :
    Agree a (c.run calls) (c'.run calls') := by
  -- on the longer run: a call on another actor is a step of the first side alone
  induction calls generalizing c c' calls' with
  | nil =>
    cases kept
    exact agree
  | cons call calls ih =>
    cases own : call.concerns a with
    | true =>
      rw [List.filter_cons, if_pos own] at kept
      cases kept with
      | cons alike rest =>
        rw [run_cons, run_cons]
        exact ih (agree.after alike) rest
    | false =>
      rw [List.filter_cons, own, if_neg Bool.false_ne_true] at kept
      exact ih (agree.skip own) kept

theorem outcomes_eq (agree : Agree a c c') (numbered : c.Numbered calls)
    (kept : List.Forall₂ ComboCall.Alike (calls.filter (·.concerns a)) calls') :
    c.outcomes a calls = c'.outcomes a calls' := by
  induction calls generalizing c c' calls' with
  | nil =>
    cases kept
    rfl
  | cons call calls ih =>
    cases own : call.concerns a with
    | true =>
      rw [List.filter_cons, if_pos own] at kept
      cases kept with
      | cons alike rest =>
        rw [outcomes, outcomes, agree.outcome_eq numbered.head alike, alike.isSweep_eq,
          ih (agree.after alike) numbered.tail rest]
    | false =>
      rw [List.filter_cons, own, if_neg Bool.false_ne_true] at kept
      rw [outcomes, ComboCall.isSweep_of_not_concerns own, ih (agree.skip own) numbered.tail kept]
      rfl

end Agree

/-- Without the calls on other actors, and with any other draws, the window of an actor is there and
is open at the same points of a run, and the same sweeps give the actor a new pick, from the same
tier, and none in the same ones.  `Numbered` is a bound on resources alone, of fewer than `2 ^ 32`
selected entries in a playlist, and only what is picked needs it. -/
theorem other_actors_irrelevant (c : Combo) (a : Form) {calls calls' : List ComboCall}
    (kept : List.Forall₂ ComboCall.Alike (calls.filter (·.concerns a)) calls') :
    (∀ n, let c₁ := c.run (calls.take n)
      let c₂ := c.run (calls'.take ((calls.take n).countP (·.concerns a)))
      c₁.isTracked a = c₂.isTracked a ∧ c₁.tracker.isOpen a = c₂.tracker.isOpen a) ∧
    (c.Numbered calls → c.outcomes a calls = c.outcomes a calls') := by
  have agree : Agree a c c := ⟨rfl, rfl, rfl, rfl⟩
  refine ⟨fun n => ?_, fun numbered => agree.outcomes_eq numbered kept⟩
  have before : (calls.take n).filter (·.concerns a) =
      (calls.filter (·.concerns a)).take ((calls.take n).countP (·.concerns a)) := by
    conv => rhs; arg 2; rw [← List.take_append_drop n calls]
    rw [List.filter_append, List.countP_eq_length_filter, List.take_left]
  have there := agree.run (before ▸ List.forall₂_take _ kept)
  exact ⟨there.isTracked_eq, there.isOpen_eq⟩

def bystander : Form := ⟨"Skyrim.esm", 0x13BC0⟩

/-- Two windows of a brawler run out while a bystander joins in and leaves. -/
def crowdedBrawl : List ComboCall :=
  [.openWindow brawler 0, .openWindow bystander 3, .sweep 10 tavern fun _ => .ofWords [],
    .closeWindow bystander, .openWindow brawler 20, .forget bystander,
    .sweep 30 tavern fun _ => .ofWords []]

def loneBrawl : List ComboCall :=
  [.openWindow brawler 0, .sweep 10 tavern fun _ => .ofWords [0x8000000000000000], .openWindow brawler 20,
    .sweep 30 tavern fun _ => .ofWords [0x8000000000000000]]

theorem other_actors_irrelevant_brawl :
    List.Forall₂ ComboCall.Alike (crowdedBrawl.filter (·.concerns brawler)) loneBrawl ∧
    tavernWindows.Numbered crowdedBrawl ∧
    (tavernWindows.run crowdedBrawl).isTracked brawler =
      (tavernWindows.run loneBrawl).isTracked brawler ∧
    tavernWindows.outcomes brawler crowdedBrawl = [some (0, false), some (0, false)] := by
  have kept : List.Forall₂ ComboCall.Alike (crowdedBrawl.filter (·.concerns brawler)) loneBrawl :=
    .cons (.same _) (.cons (.redrawn ..) (.cons (.same _) (.cons (.redrawn ..) .nil)))
  have numbered : tavernWindows.Numbered crowdedBrawl :=
    numbered_of_unedited numbered_brawlers (by simp [crowdedBrawl, ComboCall.edit])
  have new : tavernWindows.tracker.window? brawler = none := rfl
  have length : tavernWindows.tracker.window = 5 := rfl
  have model : tavernWindows.session.model = brawlers := rfl
  have first : Draw.next [1, 2, 3] .none (.ofWords [0x8000000000000000]) = (2, ⟨2, 0⟩, ⟨[], 1⟩) := by
    decide +kernel
  have second : Draw.next [1, 2, 3] ⟨2, 0⟩ (.ofWords [0x8000000000000000]) = (1, ⟨1, 2⟩, ⟨[], 1⟩) := by
    decide +kernel
  have alone : tavernWindows.outcomes brawler loneBrawl =
      [some (0, false), some (0, false)] := by
    simp [loneBrawl, outcomes, ComboCall.isSweep, event?_eq_treated, treated, window?_after,
      ComboCall.treat, ComboCall.edit, Reroll.outcome,
      Window.swept_of_offer _ offer_brawler, Window.hasExpired, Window.unopened, new, length,
      model, first, second]
  obtain ⟨points, same⟩ := other_actors_irrelevant tavernWindows brawler kept
  exact ⟨kept, numbered, (points 7).1, (same numbered).trans alone⟩

end Combo

end Movesets
