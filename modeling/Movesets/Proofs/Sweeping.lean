import Mathlib.Data.List.Nodup
import Movesets.Combo

set_option autoImplicit false

/-!
# What a sweep does with one window

A sweep goes through the shared windows in two passes, but what becomes of the window of an actor,
and which new pick the actor gets, depends on that window, the host, the model and the draws of the
actor alone.
-/

namespace Movesets

/-- What an actor is offered: the rule that drives it and the candidates, if the actor is there and
has something equipped. -/
def Host.offer? (host : Host) (m : Model) (a : Form) : Option (Resolution × List UInt32) :=
  (host.actor a).bind fun actor =>
    (host.category a).map fun category => m.candidates (some actor) category

/-- The turn of an actor whose window has run out: what is left of its window, and its new pick. -/
def Host.turn (host : Host) (now : Nat) (m : Model) (d : Draws) (a : Form) (recent : Recent)
    (w : Option Window) : Option Window × Option Reroll :=
  if (host.actor a).isNone then (none, none)
  else
    match host.offer? m a with
    | none => (w, none)
    | some (r, candidates) =>
      let (pick, recent, _) := Draw.next candidates recent d
      (w.map fun w => { w with recent, ordinal := pick, lastActive := now },
        w.map fun _ => ⟨a, pick, r.tier⟩)

/-- What a sweep does with one window: what is left of it, and the new pick of its actor. -/
def Window.swept (w : Window) (now retention : Nat) (host : Host) (m : Model) (d : Draws)
    (a : Form) : Option Window × Option Reroll :=
  if w.hasExpired now then host.turn now m d a w.recent (some (w.expire now))
  else if w.isRetained now retention then (some w, none)
  else (none, none)

theorem Host.offer?_eq_some_iff {host : Host} {m : Model} {a : Form}
    {o : Resolution × List UInt32} : host.offer? m a = some o ↔ ∃ actor category,
      host.actor a = some actor ∧ host.category a = some category ∧
        m.candidates (some actor) category = o := by
  simp only [offer?, Option.bind_eq_some_iff, Option.map_eq_some_iff]
  constructor
  · rintro ⟨actor, present, category, equipped, offer⟩
    exact ⟨actor, category, present, equipped, offer⟩
  · rintro ⟨actor, category, present, equipped, offer⟩
    exact ⟨actor, present, category, equipped, offer⟩

theorem Window.isRetained_of_hasExpired (w : Window) {now retention : Nat}
    (expired : w.hasExpired now = true) : w.isRetained now retention = true := by
  unfold hasExpired at expired
  unfold isRetained
  cases deadline : w.deadline with
  | none =>
    rw [deadline] at expired
    cases expired
  | some d => rfl

theorem Host.event_turn (host : Host) (now : Nat) (m : Model) (d : Draws) (a : Form)
    (recent : Recent) (w : Window) : (host.turn now m d a recent (some w)).2 =
      (host.offer? m a).map fun o => ⟨a, (Draw.next o.2 recent d).1, o.1.tier⟩ := by
  unfold turn
  split
  next gone =>
    rw [offer?, Option.isNone_iff_eq_none.mp gone]
    rfl
  next => cases host.offer? m a <;> rfl

theorem Host.actor_turn {host : Host} {now : Nat} {m : Model} {d : Draws} {a : Form}
    {recent : Recent} {w : Option Window} {e : Reroll}
    (turn : (host.turn now m d a recent w).2 = some e) : e.actor = a := by
  unfold Host.turn at turn
  split at turn
  next => cases turn
  next =>
    split at turn
    next => cases turn
    next =>
      obtain ⟨_, _, rfl⟩ := Option.map_eq_some_iff.mp turn
      rfl

theorem Window.event_swept (w : Window) (now retention : Nat) (host : Host) (m : Model) (d : Draws)
    (a : Form) : (w.swept now retention host m d a).2 =
      if w.hasExpired now then
        (host.offer? m a).map fun o => ⟨a, (Draw.next o.2 w.recent d).1, o.1.tier⟩
      else none := by
  unfold swept
  split
  next => exact host.event_turn ..
  next => split <;> rfl

theorem Window.exists_of_swept {w : Window} {now retention : Nat} {host : Host} {m : Model}
    {d : Draws} {a : Form} {e : Reroll} (swept : (w.swept now retention host m d a).2 = some e) :
    w.hasExpired now = true ∧ ∃ r candidates, host.offer? m a = some (r, candidates) ∧
      e = ⟨a, (Draw.next candidates w.recent d).1, r.tier⟩ := by
  rw [event_swept] at swept
  split at swept
  next expired =>
    obtain ⟨⟨r, candidates⟩, offer, rfl⟩ := Option.map_eq_some_iff.mp swept
    exact ⟨expired, r, candidates, offer, rfl⟩
  next => cases swept

theorem Window.swept_of_offer {w : Window} {now : Nat} {host : Host} {m : Model} {a : Form}
    {r : Resolution} {candidates : List UInt32} (expired : w.hasExpired now = true)
    (offer : host.offer? m a = some (r, candidates)) (retention : Nat) (d : Draws) :
    w.swept now retention host m d a =
      (some ⟨none, (Draw.next candidates w.recent d).2.1, (Draw.next candidates w.recent d).1, now⟩,
        some ⟨a, (Draw.next candidates w.recent d).1, r.tier⟩) := by
  obtain ⟨actor, _, present, _⟩ := Host.offer?_eq_some_iff.mp offer
  rw [swept, if_pos expired, Host.turn, present, Option.isNone_some, if_neg Bool.false_ne_true,
    offer]
  rfl

namespace Sweep

/-- The turn of an actor changes its own window, adds its new pick, and leaves the model alone. -/
structure Turned (x x' : Sweep) (a : Form) (left : Option Window × Option Reroll) : Prop where
  windows : ∀ b, x'.windows.get? b = if a = b then left.1 else x.windows.get? b
  events : x'.events = x.events ++ left.2.toList
  model : x'.session.model = x.session.model

variable (now : Nat) (host : Host) (draws : Form → Draws)

theorem turned_reroll (x : Sweep) (a : Form) (recent : Recent) :
    Turned x (x.reroll now host draws (a, recent)) a
      (host.turn now x.session.model (draws a) a recent (x.windows.get? a)) := by
  unfold Host.turn Host.offer? reroll
  dsimp only
  cases present : host.actor a with
  | none => exact ⟨x.windows.get?_erase a, by simp, rfl⟩
  | some actor =>
    cases equipped : host.category a with
    | none =>
      refine ⟨fun b => ?_, by simp, rfl⟩
      by_cases same : a = b
      · subst same
        simp
      · simp [same]
    | some category =>
      cases there : x.windows.get? a with
      | none =>
        refine ⟨fun b => ?_, by simp, rfl⟩
        by_cases same : a = b
        · subst same
          simpa using there
        · simp [same]
      | some w => exact ⟨fun b => x.windows.get?_insert a b _, rfl, rfl⟩

variable {now host draws}

theorem model_foldl (x : Sweep) (es : List (Form × Recent)) :
    (es.foldl (reroll now host draws) x).session.model = x.session.model := by
  induction es generalizing x with
  | nil => rfl
  | cons e es ih => exact (ih _).trans (turned_reroll now host draws x e.1 e.2).model

theorem get?_foldl_of_not_mem {b : Form} {es : List (Form × Recent)}
    (absent : b ∉ es.map (·.1)) (x : Sweep) :
    (es.foldl (reroll now host draws) x).windows.get? b = x.windows.get? b := by
  induction es generalizing x with
  | nil => rfl
  | cons e es ih =>
    rw [List.map_cons, List.mem_cons, not_or] at absent
    rw [List.foldl_cons, ih absent.2, (turned_reroll now host draws x e.1 e.2).windows,
      if_neg (Ne.symm absent.1)]

theorem get?_foldl_of_mem {a : Form} {recent : Recent} {es : List (Form × Recent)}
    (nodup : (es.map (·.1)).Nodup) (mem : (a, recent) ∈ es) (x : Sweep) :
    (es.foldl (reroll now host draws) x).windows.get? a =
      (host.turn now x.session.model (draws a) a recent (x.windows.get? a)).1 := by
  induction es generalizing x with
  | nil => cases mem
  | cons e es ih =>
    rw [List.map_cons, List.nodup_cons] at nodup
    have turned := turned_reroll now host draws x e.1 e.2
    rw [List.foldl_cons]
    -- the actor has one turn: those before it and those after it leave its window alone
    rcases List.mem_cons.mp mem with rfl | mem
    · rw [get?_foldl_of_not_mem nodup.1, turned.windows, if_pos rfl]
    · have other : e.1 ≠ a := fun same => nodup.1 (List.mem_map.mpr ⟨_, mem, same.symm⟩)
      rw [ih nodup.2 mem, turned.model, turned.windows, if_neg other]

theorem events_foldl {es : List (Form × Recent)} (nodup : (es.map (·.1)).Nodup) (x : Sweep) :
    (es.foldl (reroll now host draws) x).events = x.events ++ es.filterMap fun e =>
      (host.turn now x.session.model (draws e.1) e.1 e.2 (x.windows.get? e.1)).2 := by
  induction es generalizing x with
  | nil => simp
  | cons e es ih =>
    rw [List.map_cons, List.nodup_cons] at nodup
    have turned := turned_reroll now host draws x e.1 e.2
    -- the first turn changes no window whose turn is still to come
    have others (f : Form × Recent) (mem : f ∈ es) : (x.reroll now host draws e).windows.get? f.1 =
        x.windows.get? f.1 := by
      have other : e.1 ≠ f.1 := fun same => nodup.1 (List.mem_map.mpr ⟨f, mem, same.symm⟩)
      rw [turned.windows, if_neg other]
    have rest : es.filterMap (fun f => (host.turn now (x.reroll now host draws e).session.model
        (draws f.1) f.1 f.2 ((x.reroll now host draws e).windows.get? f.1)).2) =
        es.filterMap fun f =>
          (host.turn now x.session.model (draws f.1) f.1 f.2 (x.windows.get? f.1)).2 :=
      List.filterMap_congr fun f mem => by rw [others f mem, turned.model]
    rw [List.foldl_cons, ih nodup.2, rest, turned.events, List.append_assoc, List.filterMap_cons]
    split
    next none => rw [none, Option.toList_none, List.nil_append]
    next some => rw [some, Option.toList_some, List.singleton_append]

end Sweep

namespace Tracker

variable (t : Tracker) (now : Nat)

theorem nodup_takeExpired : ((t.takeExpired now).2.map (·.1)).Nodup := by
  rw [takeExpired, List.map_map]
  exact (List.filter_sublist.map _).nodup (t.windows.filter _).nodup

theorem mem_takeExpired {a : Form} {recent : Recent} : (a, recent) ∈ (t.takeExpired now).2 ↔
    ∃ w, t.window? a = some w ∧ w.hasExpired now = true ∧ w.recent = recent := by
  simp only [takeExpired, List.mem_map, List.mem_filter, Prod.exists, ← Table.get?_eq_some_iff,
    Table.get?_filter, Option.filter_eq_some_iff, Prod.mk.injEq, window?]
  constructor
  · rintro ⟨b, w, ⟨⟨there, _⟩, expired⟩, rfl, rfl⟩
    exact ⟨w, there, expired, rfl⟩
  · rintro ⟨w, there, expired, rfl⟩
    exact ⟨a, w, ⟨⟨there, w.isRetained_of_hasExpired expired⟩, expired⟩, rfl, rfl⟩

theorem mem_keys_takeExpired {a : Form} : a ∈ (t.takeExpired now).2.map (·.1) ↔
    ∃ w, t.window? a = some w ∧ w.hasExpired now = true := by
  simp [mem_takeExpired]

theorem get?_takeExpired (a : Form) : (t.takeExpired now).1.get? a =
    ((t.window? a).filter fun w => w.isRetained now t.retention).map fun w =>
      if w.hasExpired now then w.expire now else w := by
  rw [takeExpired, Table.get?_map, Table.get?_filter]
  rfl

variable (host : Host) (draws : Form → Draws) (s : Session)

theorem turn_takeExpired {a : Form} {w : Window} (there : t.window? a = some w)
    (expired : w.hasExpired now = true) (m : Model) (d : Draws) :
    host.turn now m d a w.recent ((t.takeExpired now).1.get? a) =
      w.swept now t.retention host m d a := by
  have retained : w.isRetained now t.retention = true := w.isRetained_of_hasExpired expired
  rw [get?_takeExpired, there, Option.filter_some, if_pos retained, Option.map_some, if_pos expired,
    Window.swept, if_pos expired]

theorem window?_sweep (a : Form) : (t.sweep now host draws s).1.window? a =
    (t.window? a).bind fun w => (w.swept now t.retention host s.model (draws a) a).1 := by
  let start : Sweep := ⟨(t.takeExpired now).1, [], s, []⟩
  change ((t.takeExpired now).2.foldl (Sweep.reroll now host draws) start).windows.get? a = _
  cases there : t.window? a with
  | none =>
    have absent : a ∉ (t.takeExpired now).2.map (·.1) := by
      simp [mem_keys_takeExpired, there]
    have closed := t.get?_takeExpired now a
    rw [there] at closed
    rw [Sweep.get?_foldl_of_not_mem absent]
    exact closed
  | some w =>
    by_cases expired : w.hasExpired now
    · have mem : (a, w.recent) ∈ (t.takeExpired now).2 :=
        (t.mem_takeExpired now).mpr ⟨w, there, expired, rfl⟩
      rw [Sweep.get?_foldl_of_mem (t.nodup_takeExpired now) mem,
        t.turn_takeExpired now host there expired]
      rfl
    -- an actor without a turn keeps what the first pass left of its window
    · have absent : a ∉ (t.takeExpired now).2.map (·.1) := by
        simp [mem_keys_takeExpired, there, expired]
      rw [Sweep.get?_foldl_of_not_mem absent]
      change (t.takeExpired now).1.get? a = (w.swept now t.retention host s.model (draws a) a).1
      rw [get?_takeExpired, there, Option.filter_some, Window.swept, if_neg expired]
      split <;> simp [expired]

theorem mem_events_sweep {e : Reroll} : e ∈ (t.sweep now host draws s).2.events ↔
    ∃ w, t.window? e.actor = some w ∧
      (w.swept now t.retention host s.model (draws e.actor) e.actor).2 = some e := by
  let start : Sweep := ⟨(t.takeExpired now).1, [], s, []⟩
  have events : (t.sweep now host draws s).2.events = _ :=
    Sweep.events_foldl (t.nodup_takeExpired now) start
  rw [events, List.nil_append, List.mem_filterMap]
  constructor
  · rintro ⟨⟨a, recent⟩, mem, turn⟩
    obtain ⟨w, there, expired, rfl⟩ := (t.mem_takeExpired now).mp mem
    rw [t.turn_takeExpired now host there expired] at turn
    obtain ⟨_, _, _, _, rfl⟩ := Window.exists_of_swept turn
    exact ⟨w, there, turn⟩
  · rintro ⟨w, there, swept⟩
    have expired : w.hasExpired now = true := (Window.exists_of_swept swept).1
    refine ⟨(e.actor, w.recent), (t.mem_takeExpired now).mpr ⟨w, there, expired, rfl⟩, ?_⟩
    rw [← swept, ← t.turn_takeExpired now host there expired]

theorem model_sweep : (t.sweep now host draws s).2.session.model = s.model :=
  Sweep.model_foldl ..

end Tracker

end Movesets
