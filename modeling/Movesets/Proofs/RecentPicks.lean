import Movesets.Proofs.Drawing

set_option autoImplicit false

/-!
# Picks that do not repeat

A window carries the two latest picks of its actor from sweep to sweep for as long as it is there,
whatever happens in between.  So a new pick differs from both wherever the candidates allow it.
-/

namespace Movesets

namespace Recent

/-- The two latest picks of a history, which lists the latest first. -/
def ofPicks (picks : List UInt32) : Recent := ⟨picks.getD 0 0, picks.getD 1 0⟩

theorem contains_ofPicks {o : UInt32} (nonzero : o ≠ 0) (picks : List UInt32) :
    (ofPicks picks).contains o = true ↔ o ∈ picks.take 2 := by
  match picks with
  | [] => simp [ofPicks, contains, nonzero]
  | [x] => simp [ofPicks, contains, nonzero]
  | x :: y :: rest => simp [ofPicks, contains]

/-- The recent picks after an event; a pick of zero is none. -/
def follow (r : Recent) : Option Reroll → Recent
  | .none => r
  | some e => if e.ordinal = 0 then r else r.push e.ordinal

end Recent

/-- A history of picks after an event. -/
def Reroll.addTo (picks : List UInt32) : Option Reroll → List UInt32
  | none => picks
  | some e => if e.ordinal = 0 then picks else e.ordinal :: picks

/-- The pick is one of the candidates, none only if there are none, and not one of some earlier
picks unless all candidates are among these. -/
structure Reroll.Varies (e : Reroll) (candidates earlier : List UInt32) : Prop where
  none : e.ordinal = 0 ↔ candidates = []
  mem : candidates ≠ [] → e.ordinal ∈ candidates
  apart : (∃ o ∈ candidates, o ∉ earlier) → e.ordinal ∉ earlier

theorem Recent.follow_ofPicks (picks : List UInt32) (e : Option Reroll) :
    (ofPicks picks).follow e = ofPicks (Reroll.addTo picks e) := by
  cases e with
  | none => rfl
  | some e =>
    dsimp only [follow, Reroll.addTo]
    split <;> rfl

theorem Host.recent_turn {host : Host} {now : Nat} {m : Model} {d : Draws} {a : Form}
    {w left : Window} (numbered : m.Numbered)
    (stays : (host.turn now m d a w.recent (some w)).1 = some left) :
    left.recent = w.recent.follow (host.turn now m d a w.recent (some w)).2 := by
  unfold turn at stays ⊢
  split at stays
  next => cases stays
  next present =>
    rw [if_neg present]
    split at stays
    next nothing =>
      cases stays
      rfl
    next r candidates offer =>
      cases stays
      exact Draw.recent_next (numbered.zero_notMem_offer offer) w.recent d

theorem Window.recent_swept {w left : Window} {now retention : Nat} {host : Host} {m : Model}
    {d : Draws} {a : Form} (numbered : m.Numbered)
    (stays : (w.swept now retention host m d a).1 = some left) :
    left.recent = w.recent.follow (w.swept now retention host m d a).2 := by
  unfold swept at stays ⊢
  split at stays
  next expired =>
    rw [if_pos expired]
    exact Host.recent_turn numbered stays
  next running =>
    rw [if_neg running]
    split at stays
    next retained =>
      cases stays
      rw [if_pos retained]
      rfl
    next => cases stays

theorem ComboCall.recent_treat {call : ComboCall} {length retention : Nat} {m : Model} {a : Form}
    {w : Option Window} {left : Window} (numbered : m.Numbered)
    (stays : (call.treat length retention m a w).1 = some left) :
    left.recent =
      ((w.map Window.recent).getD .none).follow (call.treat length retention m a w).2 := by
  cases call with
  | openWindow b now =>
    dsimp only [treat] at stays
    split at stays
    next =>
      -- a window that is opened again keeps its picks, a new one has none
      cases stays
      cases w <;> rfl
    next =>
      cases stays
      rfl
  | closeWindow b =>
    dsimp only [treat] at stays
    split at stays
    next =>
      obtain ⟨w, rfl, rfl⟩ := Option.map_eq_some_iff.mp stays
      rfl
    next =>
      cases stays
      rfl
  | forget b =>
    dsimp only [treat] at stays
    split at stays
    next => cases stays
    next =>
      cases stays
      rfl
  | sweep now host draws =>
    cases w with
    | none => cases stays
    | some w => exact w.recent_swept numbered stays
  | manage op =>
    cases stays
    rfl

namespace Combo

/-- The recent picks that the window of an actor carries, none without a window. -/
def recent (c : Combo) (a : Form) : Recent :=
  ((c.tracker.window? a).map Window.recent).getD .none

/-- The picks of an actor after a call, the latest first, given those before; they are forgotten
with its window. -/
def recorded (c : Combo) (call : ComboCall) (a : Form) (picks : List UInt32) : List UInt32 :=
  if (c.after call).isTracked a then Reroll.addTo picks (c.event? call a) else []

/-- The picks of an actor after a run, the latest first, given those before. -/
def picks (c : Combo) (a : Form) (before : List UInt32) : List ComboCall → List UInt32
  | [] => before
  | call :: calls => (c.after call).picks a (c.recorded call a before) calls

theorem recent_after {c : Combo} (numbered : c.session.model.Numbered) (call : ComboCall)
    {a : Form} {picks : List UInt32} (remembered : c.recent a = .ofPicks picks) :
    (c.after call).recent a = .ofPicks (c.recorded call a picks) := by
  rw [recent, recorded, isTracked, window?_after, event?_eq_treated]
  cases stays : (c.treated call a).1 with
  | none => rfl
  | some left =>
    have carried : left.recent = (c.recent a).follow (c.treated call a).2 :=
      ComboCall.recent_treat numbered stays
    rw [remembered, Recent.follow_ofPicks] at carried
    exact carried

theorem recent_run {c : Combo} {a : Form} {picks : List UInt32} {calls : List ComboCall}
    (numbered : c.Numbered calls) (remembered : c.recent a = .ofPicks picks) :
    (c.run calls).recent a = .ofPicks (c.picks a picks calls) := by
  induction calls generalizing c picks with
  | nil => exact remembered
  | cons call calls ih => exact ih numbered.tail (recent_after numbered.head call remembered)

theorem event_varies {c : Combo} (numbered : c.session.model.Numbered) {now : Nat} {host : Host}
    {draws : Form → Draws} {e : Reroll} {picks : List UInt32}
    (remembered : c.recent e.actor = .ofPicks picks)
    (emitted : e ∈ c.events (.sweep now host draws)) :
    ∃ r candidates, host.offer? c.session.model e.actor = some (r, candidates) ∧
      e.tier = r.tier ∧ e.Varies candidates (picks.take 2) := by
  obtain ⟨w, there, swept⟩ := (Tracker.mem_events_sweep ..).mp emitted
  obtain ⟨_, r, candidates, offer, drawn⟩ := Window.exists_of_swept swept
  have ordinal : e.ordinal = (Draw.next candidates w.recent (draws e.actor)).1 :=
    congrArg Reroll.ordinal drawn
  have carried : w.recent = .ofPicks picks := by
    rwa [recent, there] at remembered
  have proper : 0 ∉ candidates := numbered.zero_notMem_offer offer
  have mem (nonempty : candidates ≠ []) : e.ordinal ∈ Draw.remaining candidates w.recent := by
    rw [ordinal]
    exact Draw.next_mem_remaining nonempty ..
  refine ⟨r, candidates, offer, congrArg Reroll.tier drawn, ?_, fun nonempty => ?_, ?_⟩
  · rw [ordinal]
    exact Draw.next_eq_zero_iff proper ..
  · exact Draw.mem_of_mem_remaining (mem nonempty)
  · rintro ⟨o, candidate, other⟩
    have nonzero {o : UInt32} (mem : o ∈ candidates) : o ≠ 0 := fun zero => proper (zero ▸ mem)
    have remains := mem (List.ne_nil_of_mem candidate)
    rw [← Recent.contains_ofPicks (nonzero candidate), Bool.not_eq_true, ← carried] at other
    rw [← Recent.contains_ofPicks (nonzero (Draw.mem_of_mem_remaining remains)),
      Bool.not_eq_true, ← carried]
    exact Draw.not_contains_of_mem_remaining ⟨o, candidate, other⟩ remains

/-- A new pick differs from the two latest picks that its actor was given since it has been tracked,
unless the candidates are all among these.  `Numbered` is a bound on resources alone: no playlist
has `2 ^ 32` selected entries or more, of which one would have the number that stands for none. -/
theorem sweep_avoids_recent_picks (window retention sweepPeriod : Nat) (s : Session)
    (calls : List ComboCall) (now : Nat) (host : Host) (draws : Form → Draws)
    (numbered : (start window retention sweepPeriod s).Numbered calls) {e : Reroll}
    (emitted : e ∈ ((start window retention sweepPeriod s).run calls).events
      (.sweep now host draws)) :
    ∃ r candidates, host.offer? ((start window retention sweepPeriod s).run calls).session.model
        e.actor = some (r, candidates) ∧ e.tier = r.tier ∧
      e.Varies candidates
        (((start window retention sweepPeriod s).picks e.actor [] calls).take 2) := by
  have nothing : (start window retention sweepPeriod s).recent e.actor = .ofPicks [] := rfl
  exact event_varies numbered.last (recent_run numbered nothing) emitted

def brawl : List ComboCall :=
  [.openWindow brawler 0, .sweep 10 tavern fun _ => .ofWords [], .openWindow brawler 20,
    .sweep 30 tavern fun _ => .ofWords [], .openWindow brawler 40]

theorem sweep_avoids_recent_picks_brawl : tavernWindows.Numbered brawl ∧
    ⟨brawler, 3, 0⟩ ∈
      (tavernWindows.run brawl).events (.sweep 50 tavern fun _ => .ofWords []) ∧
    tavernWindows.picks brawler [] brawl = [2, 1] ∧
    3 ∉ (tavernWindows.picks brawler [] brawl).take 2 := by
  have numbered : tavernWindows.Numbered brawl :=
    numbered_of_unedited numbered_brawlers (by simp [brawl, ComboCall.edit])
  have new : tavernWindows.tracker.window? brawler = none := rfl
  have length : tavernWindows.tracker.window = 5 := rfl
  have model : tavernWindows.session.model = brawlers := rfl
  have first : Draw.next [1, 2, 3] .none (.ofWords []) = (1, ⟨1, 0⟩, ⟨[], 1⟩) := rfl
  have second : Draw.next [1, 2, 3] ⟨1, 0⟩ (.ofWords []) = (2, ⟨2, 1⟩, ⟨[], 1⟩) := rfl
  have third : Draw.next [1, 2, 3] ⟨2, 1⟩ (.ofWords []) = (3, ⟨3, 2⟩, ⟨[], 1⟩) := rfl
  have emitted : ⟨brawler, 3, 0⟩ ∈
      (tavernWindows.run brawl).events (.sweep 50 tavern fun _ => .ofWords []) := by
    refine ((mem_events_iff _ 50 tavern _ brawler _).mpr ?_).1
    simp [brawl, treated, window?_after, ComboCall.treat, ComboCall.edit,
      Window.swept_of_offer _ offer_brawler, Window.hasExpired, Window.unopened, new, length, model,
      first, second, third]
  have picks : tavernWindows.picks brawler [] brawl = [2, 1] := by
    simp [brawl, Combo.picks, recorded, Reroll.addTo, isTracked, event?_eq_treated, treated,
      window?_after, ComboCall.treat, ComboCall.edit, Window.swept_of_offer _ offer_brawler,
      Window.hasExpired, Window.unopened, new, length, model, first, second]
  have unchanged : (tavernWindows.run brawl).session.model = brawlers := by
    simp [brawl, ComboCall.edit, model]
  obtain ⟨r, candidates, offer, _, varies⟩ := sweep_avoids_recent_picks 5 40 250
    (.start brawlers .empty) brawl 50 tavern (fun _ => .ofWords []) numbered emitted
  change tavern.offer? (tavernWindows.run brawl).session.model brawler = _ at offer
  rw [unchanged, offer_brawler] at offer
  cases offer
  refine ⟨numbered, emitted, picks, varies.apart ⟨3, by decide, ?_⟩⟩
  change 3 ∉ (tavernWindows.picks brawler [] brawl).take 2
  rw [picks]
  decide

end Combo

end Movesets
