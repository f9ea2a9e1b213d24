import Movesets.Proofs.SessionRuns
import Movesets.Proofs.Sweeping

set_option autoImplicit false

/-!
# Runs of combo windows

A tracker of combo windows beside the session that offers the candidates, and the calls on both one
after another.  What a call does for one actor follows from the window of that actor alone.
-/

namespace Movesets

/-- A tracker, and the session it draws candidates from. -/
structure Combo where
  tracker : Tracker
  session : Session

/-- What can be called for; `manage` stands for whatever is done with the session. -/
inductive ComboCall where
  | openWindow (actor : Form) (now : Nat)
  | closeWindow (actor : Form)
  | forget (actor : Form)
  | sweep (now : Nat) (host : Host) (draws : Form → Draws)
  | manage (op : SessionOp)

namespace ComboCall

def edit : ComboCall → Model → Model
  | manage op, m => op.edit m
  | _, m => m

/-- What a call does for one actor, given the length of a window and the retention time: the window
it leaves, and the new pick. -/
def treat (call : ComboCall) (length retention : Nat) (m : Model) (a : Form) (w : Option Window) :
    Option Window × Option Reroll :=
  match call with
  | openWindow b now =>
    (if b = a then
      some { w.getD (.unopened now) with deadline := some (now + length), lastActive := now }
    else w, none)
  | closeWindow b => (if b = a then w.map fun w => { w with deadline := none } else w, none)
  | forget b => (if b = a then none else w, none)
  | sweep now host draws =>
    match w with
    | none => (none, none)
    | some w => w.swept now retention host m (draws a) a
  | manage _ => (w, none)

end ComboCall

namespace Combo

def start (window retention sweepPeriod : Nat) (s : Session) : Combo :=
  ⟨((Tracker.ofWindow window).withRetention retention).withSweepPeriod sweepPeriod, s⟩

def after (c : Combo) : ComboCall → Combo
  | .openWindow a now => { c with tracker := c.tracker.openWindow a now }
  | .closeWindow a => { c with tracker := c.tracker.closeWindow a }
  | .forget a => { c with tracker := c.tracker.forget a }
  | .sweep now host draws =>
    let (tracker, swept) := c.tracker.sweep now host draws c.session
    ⟨tracker, swept.session⟩
  | .manage op => { c with session := c.session.after op }

/-- The new picks of a call; only sweeps give any. -/
def events (c : Combo) : ComboCall → List Reroll
  | .sweep now host draws => (c.tracker.sweep now host draws c.session).2.events
  | _ => []

def event? (c : Combo) (call : ComboCall) (a : Form) : Option Reroll :=
  (c.events call).find? fun e => e.actor == a

def run (c : Combo) (calls : List ComboCall) : Combo := calls.foldl after c

def isTracked (c : Combo) (a : Form) : Bool := (c.tracker.window? a).isSome

@[simp] theorem run_nil (c : Combo) : c.run [] = c := rfl

@[simp] theorem run_cons (c : Combo) (call : ComboCall) (calls : List ComboCall) :
    c.run (call :: calls) = (c.after call).run calls := rfl

@[simp] theorem model_after (c : Combo) (call : ComboCall) :
    (c.after call).session.model = call.edit c.session.model := by
  cases call with
  | manage op => exact c.session.model_after op
  | sweep now host draws => exact c.tracker.model_sweep ..
  | openWindow a now => rfl
  | closeWindow a => rfl
  | forget a => rfl

@[simp] theorem window_after (c : Combo) (call : ComboCall) :
    (c.after call).tracker.window = c.tracker.window := by
  cases call <;> rfl

@[simp] theorem retention_after (c : Combo) (call : ComboCall) :
    (c.after call).tracker.retention = c.tracker.retention := by
  cases call <;> rfl

def treated (c : Combo) (call : ComboCall) (a : Form) : Option Window × Option Reroll :=
  call.treat c.tracker.window c.tracker.retention c.session.model a (c.tracker.window? a)

theorem window?_after (c : Combo) (call : ComboCall) (a : Form) :
    (c.after call).tracker.window? a = (c.treated call a).1 := by
  cases call with
  | openWindow b now =>
    refine (Table.get?_insert ..).trans ?_
    by_cases same : b = a
    · subst same
      simp [treated, ComboCall.treat]
    · simp [treated, ComboCall.treat, same, Tracker.window?]
  | closeWindow b => exact Table.get?_modify ..
  | forget b => exact Table.get?_erase ..
  | sweep now host draws =>
    refine (c.tracker.window?_sweep now host draws c.session a).trans ?_
    unfold treated ComboCall.treat
    cases c.tracker.window? a <;> rfl
  | manage op => rfl

theorem mem_events_iff (c : Combo) (now : Nat) (host : Host) (draws : Form → Draws) (a : Form)
    (e : Reroll) : e ∈ c.events (.sweep now host draws) ∧ e.actor = a ↔
      (c.treated (.sweep now host draws) a).2 = some e := by
  have mem : e ∈ c.events (.sweep now host draws) ↔ _ :=
    c.tracker.mem_events_sweep now host draws c.session
  rw [mem]
  unfold treated ComboCall.treat
  constructor
  · rintro ⟨⟨w, there, swept⟩, rfl⟩
    rw [there]
    exact swept
  · intro treated
    cases there : c.tracker.window? a with
    | none =>
      rw [there] at treated
      cases treated
    | some w =>
      rw [there] at treated
      obtain ⟨_, _, _, _, rfl⟩ := Window.exists_of_swept treated
      exact ⟨⟨w, there, treated⟩, rfl⟩

theorem event?_eq_treated (c : Combo) (call : ComboCall) (a : Form) :
    c.event? call a = (c.treated call a).2 := by
  cases call with
  | openWindow b now => rfl
  | closeWindow b => rfl
  | forget b => rfl
  | manage op => rfl
  | sweep now host draws =>
    have mem_iff := c.mem_events_iff now host draws a
    cases treated : (c.treated (.sweep now host draws) a).2 with
    | none =>
      refine List.find?_eq_none.mpr fun e mem here => ?_
      have called := (mem_iff e).mp ⟨mem, eq_of_beq here⟩
      rw [treated] at called
      cases called
    | some e =>
      -- whatever is found first is on the actor too, so it is the one that its window calls for
      obtain ⟨mem, here⟩ := (mem_iff e).mpr treated
      obtain ⟨e', found⟩ := Option.isSome_iff_exists.mp
        (List.find?_isSome (p := fun e => e.actor == a).mpr ⟨e, mem, beq_iff_eq.mpr here⟩)
      have called := (mem_iff e').mp
        ⟨List.mem_of_find?_eq_some found, eq_of_beq (List.find?_some found :)⟩
      rw [treated] at called
      exact found.trans called.symm

end Combo

end Movesets
