import Movesets.Proofs.Independence

set_option autoImplicit false

/-!
# What a sweep does to all windows

An actor whose window has run out gets one new pick, unless it is gone or has nothing equipped, and
no window that has run out is left.  The other windows stay as they are, apart from closed ones that
have been idle for the retention time.
-/

namespace Movesets

namespace Window

variable {w : Window} {now : Nat} {host : Host} {a : Form}

theorem hasExpired_iff : w.hasExpired now = true ↔ ∃ d, w.deadline = some d ∧ d ≤ now := by
  simp [hasExpired, Option.any_eq_true]

theorem not_hasExpired_of_closed (closed : w.deadline = none) (now : Nat) :
    ¬ w.hasExpired now = true := by
  rw [hasExpired_iff, closed]
  rintro ⟨_, ⟨⟩, _⟩

theorem swept_of_gone (expired : w.hasExpired now = true) (gone : host.actor a = none)
    (retention : Nat) (m : Model) (d : Draws) :
    w.swept now retention host m d a = (none, none) := by
  rw [swept, if_pos expired, Host.turn, gone, Option.isNone_none, if_pos rfl]

theorem swept_of_unequipped (expired : w.hasExpired now = true)
    (present : (host.actor a).isSome = true) (unequipped : host.category a = none)
    (retention : Nat) (m : Model) (d : Draws) :
    w.swept now retention host m d a = (some (w.expire now), none) := by
  obtain ⟨actor, present⟩ := Option.isSome_iff_exists.mp present
  rw [swept, if_pos expired, Host.turn, Host.offer?, present, unequipped]
  rfl

theorem swept_of_open {deadline : Nat} (isOpen : w.deadline = some deadline)
    (later : now < deadline) (retention : Nat) (host : Host) (m : Model) (d : Draws) (a : Form) :
    w.swept now retention host m d a = (some w, none) := by
  have running : ¬ w.hasExpired now = true := by
    rw [hasExpired_iff, isOpen]
    rintro ⟨_, ⟨⟩, passed⟩
    omega
  have retained : w.isRetained now retention = true := by rw [isRetained, isOpen]; rfl
  rw [swept, if_neg running, if_pos retained]

theorem swept_of_closed (closed : w.deadline = none) (now retention : Nat) (host : Host)
    (m : Model) (d : Draws) (a : Form) : w.swept now retention host m d a =
      (if retention ≤ now - w.lastActive then none else some w, none) := by
  have retained : w.isRetained now retention = true ↔ ¬ retention ≤ now - w.lastActive := by
    simp [isRetained, closed]
  rw [swept, if_neg (not_hasExpired_of_closed closed now)]
  by_cases idle : retention ≤ now - w.lastActive
  · rw [if_neg (fun kept => retained.mp kept idle), if_pos idle]
  · rw [if_pos (retained.mpr idle), if_neg idle]

/-- What a sweep leaves of a window has not run out. -/
theorem not_hasExpired_of_swept {left : Window} {retention : Nat} {m : Model} {d : Draws}
    (kept : (w.swept now retention host m d a).1 = some left) : ¬ left.hasExpired now = true := by
  have clock := w.clock_swept now retention host m d a
  rw [kept, Option.map_some] at clock
  split at clock
  next =>
    obtain ⟨_, _, same⟩ := Option.map_eq_some_iff.mp clock.symm
    exact not_hasExpired_of_closed (congrArg Prod.fst same.symm) now
  next running =>
    split at clock
    next => rwa [hasExpired_congr (Option.some.inj clock)]
    next => cases clock

end Window

namespace Sweep

variable (now : Nat) (host : Host) (draws : Form → Draws)

/-- The new picks from one point of a sweep to another, each of them counted. -/
def Counts (x y : Sweep) : Prop :=
  ∃ new, y.events = x.events ++ new ∧
    y.session.metrics.rerolls = x.session.metrics.rerolls + .ofNat new.length

theorem Counts.refl (x : Sweep) : x.Counts x :=
  ⟨[], (List.append_nil _).symm, (UInt64.add_zero _).symm⟩

theorem Counts.trans {x y z : Sweep} (first : x.Counts y) (second : y.Counts z) : x.Counts z := by
  obtain ⟨new, events, rerolls⟩ := first
  obtain ⟨later, events', rerolls'⟩ := second
  refine ⟨new ++ later, ?_, ?_⟩
  · rw [events', events, List.append_assoc]
  · rw [rerolls', rerolls, List.length_append, UInt64.ofNat_add, UInt64.add_assoc]

/-- A turn is counted if it gives a new pick. -/
theorem counts_reroll (x : Sweep) (e : Form × Recent) :
    x.Counts (x.reroll now host draws e) := by
  unfold reroll
  dsimp only
  cases host.actor e.1 with
  | none => exact .refl x
  | some actor =>
    cases host.category e.1 with
    | none => exact .refl x
    | some category =>
      cases x.windows.get? e.1 with
      | none => exact .refl x
      | some w => exact ⟨[_], rfl, rfl⟩

theorem counts_foldl (x : Sweep) (es : List (Form × Recent)) :
    x.Counts (es.foldl (reroll now host draws) x) := by
  induction es generalizing x with
  | nil => exact .refl x
  | cons e es ih => exact (x.counts_reroll now host draws e).trans (ih _)

end Sweep

namespace Tracker

/-- The window of the actor is open and its deadline has come. -/
def IsDue (t : Tracker) (now : Nat) (a : Form) : Prop :=
  ∃ w d, t.window? a = some w ∧ w.deadline = some d ∧ d ≤ now

theorem isDue_iff {t : Tracker} {now : Nat} {a : Form} :
    t.IsDue now a ↔ ∃ w, t.window? a = some w ∧ w.hasExpired now = true := by
  simp only [IsDue, Window.hasExpired_iff, exists_and_left]

variable (t : Tracker) (now : Nat) (host : Host) (draws : Form → Draws) (s : Session)

theorem nodup_actors_sweep : ((t.sweep now host draws s).2.events.map Reroll.actor).Nodup := by
  let start : Sweep := ⟨(t.takeExpired now).1, [], s, []⟩
  have events : (t.sweep now host draws s).2.events = _ :=
    Sweep.events_foldl (t.nodup_takeExpired now) start
  have keys := t.nodup_takeExpired now
  rw [List.Nodup, List.pairwise_map] at keys
  rw [events, List.nil_append, List.Nodup, List.pairwise_map, List.pairwise_filterMap]
  refine keys.imp fun other e turn e' turn' same => other ?_
  rw [← Host.actor_turn turn, ← Host.actor_turn turn', same]

theorem mem_actors_sweep {a : Form} :
    a ∈ (t.sweep now host draws s).2.events.map Reroll.actor ↔
      t.IsDue now a ∧ (host.actor a).isSome = true ∧ (host.category a).isSome = true := by
  rw [List.mem_map, isDue_iff]
  constructor
  · rintro ⟨e, mem, rfl⟩
    obtain ⟨w, there, swept⟩ := (t.mem_events_sweep now host draws s).mp mem
    obtain ⟨expired, _, _, offer, _⟩ := Window.exists_of_swept swept
    obtain ⟨_, _, present, equipped, _⟩ := Host.offer?_eq_some_iff.mp offer
    exact ⟨⟨w, there, expired⟩, by rw [present, Option.isSome_some],
      by rw [equipped, Option.isSome_some]⟩
  · rintro ⟨⟨w, there, expired⟩, present, equipped⟩
    obtain ⟨actor, present⟩ := Option.isSome_iff_exists.mp present
    obtain ⟨category, equipped⟩ := Option.isSome_iff_exists.mp equipped
    have offer : host.offer? s.model a = some (s.model.candidates (some actor) category) :=
      Host.offer?_eq_some_iff.mpr ⟨actor, category, present, equipped, rfl⟩
    obtain ⟨e, swept, rfl⟩ : ∃ e, (w.swept now t.retention host s.model (draws a) a).2 = some e ∧
        e.actor = a :=
      ⟨_, congrArg Prod.snd (Window.swept_of_offer expired offer t.retention (draws a)), rfl⟩
    exact ⟨e, (t.mem_events_sweep now host draws s).mpr ⟨w, there, swept⟩, rfl⟩

/-- A new pick is of the tier of the rule that drives the actor, comes from its candidates, if there
are any, and is remembered. -/
theorem pick_of_mem_events_sweep {e : Reroll} (mem : e ∈ (t.sweep now host draws s).2.events) :
    ∃ actor category, host.actor e.actor = some actor ∧ host.category e.actor = some category ∧
      e.tier = (s.resolve (some actor) category).result.tier ∧
      ((s.candidates (some actor) category).result.2 = [] → e.ordinal = 0) ∧
      ((s.candidates (some actor) category).result.2 ≠ [] →
        e.ordinal ∈ (s.candidates (some actor) category).result.2) ∧
      ((t.sweep now host draws s).1.window? e.actor).map Window.ordinal = some e.ordinal := by
  obtain ⟨w, there, swept⟩ := (t.mem_events_sweep now host draws s).mp mem
  obtain ⟨expired, r, candidates, offer, new⟩ := Window.exists_of_swept swept
  obtain ⟨actor, category, present, equipped, offered⟩ := Host.offer?_eq_some_iff.mp offer
  have tier : (s.resolve (some actor) category).result.tier = r.tier :=
    congrArg (fun o => o.1.tier) offered
  have ranked : (s.candidates (some actor) category).result.2 = candidates :=
    congrArg Prod.snd offered
  have ordinal : e.ordinal = (Draw.next candidates w.recent (draws e.actor)).1 :=
    congrArg Reroll.ordinal new
  refine ⟨actor, category, present, equipped, ?_⟩
  rw [ranked]
  refine ⟨?_, ?_, ?_, ?_⟩
  · rw [tier, new]
  · rintro rfl
    rw [ordinal, Draw.next_nil]
  · intro nonempty
    rw [ordinal]
    exact Draw.next_mem nonempty _ _
  · rw [window?_sweep, there, Option.bind_some, Window.swept_of_offer expired offer, ordinal]
    rfl

theorem not_isDue_sweep (a : Form) : ¬ (t.sweep now host draws s).1.IsDue now a := by
  rw [isDue_iff]
  rintro ⟨left, there, expired⟩
  rw [window?_sweep] at there
  obtain ⟨w, _, kept⟩ := Option.bind_eq_some_iff.mp there
  exact Window.not_hasExpired_of_swept kept expired

theorem rerolls_sweep : (t.sweep now host draws s).2.session.metrics.rerolls =
    s.metrics.rerolls + .ofNat (t.sweep now host draws s).2.events.length := by
  let start : Sweep := ⟨(t.takeExpired now).1, [], s, []⟩
  obtain ⟨new, events, rerolls⟩ := start.counts_foldl now host draws (t.takeExpired now).2
  have events : (t.sweep now host draws s).2.events = new := events
  rw [events]
  exact rerolls

/-- A sweep gives one new pick to every actor that is due, there and equipped, and none to others.
Then no actor is due: one that is gone is forgotten, and one with nothing equipped keeps its picks
in a closed window.  Windows that are still open stay, and closed ones stay until they have been
idle for the retention time. -/
theorem sweep_rerolls_due :
    let swept := t.sweep now host draws s
    (swept.2.events.map Reroll.actor).Nodup ∧
    (∀ a, a ∈ swept.2.events.map Reroll.actor ↔
      t.IsDue now a ∧ (host.actor a).isSome = true ∧ (host.category a).isSome = true) ∧
    (∀ e ∈ swept.2.events, ∃ actor category,
      host.actor e.actor = some actor ∧ host.category e.actor = some category ∧
      e.tier = (s.resolve (some actor) category).result.tier ∧
      ((s.candidates (some actor) category).result.2 = [] → e.ordinal = 0) ∧
      ((s.candidates (some actor) category).result.2 ≠ [] →
        e.ordinal ∈ (s.candidates (some actor) category).result.2) ∧
      (swept.1.window? e.actor).map Window.ordinal = some e.ordinal) ∧
    (∀ a, ¬ swept.1.IsDue now a) ∧
    (∀ a, t.window? a = none → swept.1.window? a = none) ∧
    (∀ a w d, t.window? a = some w → w.deadline = some d →
      (d ≤ now → host.actor a = none → swept.1.window? a = none) ∧
      (d ≤ now → (host.actor a).isSome = true → host.category a = none →
        swept.1.window? a = some { w with deadline := none, lastActive := now }) ∧
      (now < d → swept.1.window? a = some w)) ∧
    (∀ a w, t.window? a = some w → w.deadline = none →
      swept.1.window? a = if t.retention ≤ now - w.lastActive then none else some w) ∧
    swept.2.session.metrics.rerolls = s.metrics.rerolls + .ofNat swept.2.events.length := by
  intro swept
  have after (a : Form) : swept.1.window? a = (t.window? a).bind fun w =>
      (w.swept now t.retention host s.model (draws a) a).1 := t.window?_sweep now host draws s a
  refine ⟨t.nodup_actors_sweep now host draws s, fun _ => t.mem_actors_sweep now host draws s,
    fun _ => t.pick_of_mem_events_sweep now host draws s, t.not_isDue_sweep now host draws s,
    ?_, ?_, ?_, t.rerolls_sweep now host draws s⟩
  · intro a untracked
    rw [after, untracked, Option.bind_none]
  · intro a w d there deadline
    rw [after, there, Option.bind_some]
    have expired (due : d ≤ now) : w.hasExpired now = true :=
      Window.hasExpired_iff.mpr ⟨d, deadline, due⟩
    refine ⟨fun due gone => ?_, fun due present unequipped => ?_, fun later => ?_⟩
    · rw [Window.swept_of_gone (expired due) gone]
    · rw [Window.swept_of_unequipped (expired due) present unequipped]
      rfl
    · rw [Window.swept_of_open deadline later]
  · intro a w there closed
    rw [after, there, Option.bind_some, Window.swept_of_closed closed]

end Tracker

end Movesets
