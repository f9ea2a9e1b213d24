import Movesets.Session

set_option autoImplicit false

/-!
# Combo windows

An actor's random pick is drawn anew when its combo window runs out.  A window is open until its
deadline; a closed one is remembered, with its recent picks, until it has been idle for the
retention time.  Times are in milliseconds from a common start.
-/

namespace Movesets

structure Window where
  deadline : Option Nat
  recent : Recent
  ordinal : UInt32
  lastActive : Nat
  deriving DecidableEq, Repr

/-- A new pick of an actor, and the tier of the rule it comes from. -/
structure Reroll where
  actor : Form
  ordinal : UInt32
  tier : Int32
  deriving DecidableEq, Repr

namespace Window

/-- The window of an actor that had none. -/
def unopened (now : Nat) : Window := ⟨none, .none, 0, now⟩

def hasExpired (w : Window) (now : Nat) : Bool := w.deadline.any fun deadline => deadline ≤ now

/-- The window is open, or has not been idle for the retention time. -/
def isRetained (w : Window) (now retention : Nat) : Bool :=
  w.deadline.isSome || now - w.lastActive < retention

/-- The window closed because it has run out. -/
def expire (w : Window) (now : Nat) : Window := { w with deadline := none, lastActive := now }

end Window

/-- The windows of all actors, one at most for each. -/
structure Tracker where
  windows : Table Form Window
  window : Nat
  retention : Nat
  sweepPeriod : Nat

/-- What the host tells about an actor: its state if it is there, and what it has equipped. -/
structure Host where
  actor : Form → Option Actor
  category : Form → Option String

/-- A host that knows the actors of a list; of two entries for one actor the first counts. -/
def Host.ofList (known : List (Form × Option Actor × Option String)) : Host :=
  ⟨fun a => (known.lookup a).bind (·.1), fun a => (known.lookup a).bind (·.2)⟩

namespace Tracker

/-- Closed windows are kept for this many windows. -/
def retainedWindows : Nat := 8

def ofWindow (window : Nat) : Tracker := ⟨.empty, window, window * retainedWindows, 250⟩

def withSweepPeriod (t : Tracker) (period : Nat) : Tracker :=
  { t with sweepPeriod := max period 1 }

def withRetention (t : Tracker) (retention : Nat) : Tracker := { t with retention }

def window? (t : Tracker) (a : Form) : Option Window := t.windows.get? a

/-- Opens or extends the window of an actor. -/
def openWindow (t : Tracker) (a : Form) (now : Nat) : Tracker :=
  let w := (t.window? a).getD (.unopened now)
  { t with windows :=
      t.windows.insert a { w with deadline := some (now + t.window), lastActive := now } }

/-- Closes the window of an actor; its picks are kept. -/
def closeWindow (t : Tracker) (a : Form) : Tracker :=
  { t with windows := t.windows.modify a fun w => { w with deadline := none } }

def forget (t : Tracker) (a : Form) : Tracker :=
  { t with windows := t.windows.erase a }

def isOpen (t : Tracker) (a : Form) : Bool :=
  ((t.window? a).bind Window.deadline).isSome

/-- The last pick of an actor, zero if there is none. -/
def ordinal (t : Tracker) (a : Form) : UInt32 :=
  ((t.window? a).map Window.ordinal).getD 0

def tracked (t : Tracker) : Nat := t.windows.size

/-- Drops the windows that have been idle for the retention time, and closes those that have run
out; the actors of the latter, with their picks. -/
def takeExpired (t : Tracker) (now : Nat) : Table Form Window × List (Form × Recent) :=
  let retained := t.windows.filter fun w => w.isRetained now t.retention
  (retained.map fun w => if w.hasExpired now then w.expire now else w,
    (retained.toList.filter fun e => e.2.hasExpired now).map fun e => (e.1, e.2.recent))

end Tracker

/-- What a sweep leaves: the windows, the new picks, the session, and the draws taken. -/
structure Sweep where
  windows : Table Form Window
  events : List Reroll
  session : Session
  used : List (Form × Nat)

namespace Sweep

/-- Goes on to an actor whose window has run out: one that is gone is dropped, one with nothing
equipped keeps its picks, and every other is given a new one, drawn from its own source. -/
def reroll (now : Nat) (host : Host) (draws : Form → Draws) (x : Sweep) (expired : Form × Recent) :
    Sweep :=
  let (a, recent) := expired
  match host.actor a with
  | none => { x with windows := x.windows.erase a }
  | some actor =>
    match host.category a with
    | none => x
    | some category =>
      let ⟨session, _, resolution, candidates⟩ := x.session.candidates (some actor) category
      let (pick, recent, left) := Draw.next candidates recent (draws a)
      let x := { x with session, used := x.used ++ [(a, left.used)] }
      match x.windows.get? a with
      | none => x
      | some w =>
        { x with
          windows := x.windows.insert a { w with recent, ordinal := pick, lastActive := now }
          events := x.events ++ [⟨a, pick, resolution.tier⟩]
          session := { session with metrics := session.metrics.addReroll } }

/-- How many announcements are held for a listener. -/
def held : Nat := 128

/-- What a listener hears who attends after the sweep: every new pick in its turn, or nothing,
because a listener who has missed an announcement is told so first and stops. -/
def heard (s : Sweep) : List Reroll :=
  if s.events.length ≤ held then s.events else []

end Sweep

namespace Tracker

/-- Drops idle windows, closes every window that has run out, and draws a new pick for its actor. -/
def sweep (t : Tracker) (now : Nat) (host : Host) (draws : Form → Draws) (s : Session) :
    Tracker × Sweep :=
  let (windows, expired) := t.takeExpired now
  let swept := expired.foldl (Sweep.reroll now host draws) ⟨windows, [], s, []⟩
  ({ t with windows := swept.windows }, swept)

end Tracker

end Movesets
