import Movesets.Proofs.SessionRuns

set_option autoImplicit false

/-!
# Counts that are never stale

The counts a session keeps are those of its model whenever they stand: an operation that may change
the model invalidates them, and counting goes through every playlist.  So whatever was done before,
asking for the parents of a playlist gives what the model itself says.
-/

namespace Movesets

/-- The parents of a playlist by the model itself, none where there is no playlist; stances behind
the fourth do not count. -/
def Model.parentCount (m : Model) (key : PlaylistKey) : UInt32 :=
  if key.2.2 < stanceCount then
    ((m.playlist? key.1 key.2.1 key.2.2).map Playlist.parentCount).getD 0
  else 0

namespace ParentCounts

/-- What is found at a place, if all that was kept there is the same. -/
theorem lookup_eq {counts : List (PlaylistKey × UInt32)} {key : PlaylistKey} {n : UInt32}
    (same : ∀ e ∈ counts, e.1 = key → e.2 = n) (kept : n ≠ 0 → (key, n) ∈ counts) :
    lookup counts key = n := by
  rw [lookup]
  cases found : counts.find? fun e => e.1 == key with
  | none =>
    by_contra nonzero
    have absent := List.find?_eq_none.mp found (key, n) (kept (Ne.symm nonzero))
    exact absent (beq_self_eq_true key)
  | some e =>
    have here : e.1 = key := by simpa using List.find?_some found
    exact same e (List.mem_of_find?_eq_some found) here

theorem mem_ofRule {ref : RuleRef} {r : Rule} {key : PlaylistKey} {n : UInt32} :
    (key, n) ∈ ofRule ref r ↔ 0 < n ∧ key.1 = ref ∧ key.2.2 < stanceCount ∧
      (r.playlist? key.2.1 key.2.2).map Playlist.parentCount = some n := by
  obtain ⟨ref', category, stance⟩ := key
  simp only [ofRule, List.mem_filter, List.mem_flatMap, List.mem_map, decide_eq_true_eq,
    Prod.exists, List.mem_zipIdx_iff_getElem?, Prod.mk.injEq, List.getElem?_take,
    Option.map_eq_some_iff, Rule.playlist?, Option.bind_eq_some_iff, Rule.category?,
    Table.get?_eq_some_iff, Category.stance?]
  constructor
  · rintro ⟨⟨name, c, inTable, p, i, at_i, ⟨rfl, rfl, rfl⟩, rfl⟩, pos⟩
    split at at_i
    next bound => exact ⟨pos, rfl, bound, p, ⟨c, inTable, at_i⟩, rfl⟩
    next => cases at_i
  · rintro ⟨pos, rfl, bound, p, ⟨c, inTable, at_i⟩, rfl⟩
    exact ⟨⟨category, c, inTable, p, stance, by rw [if_pos bound, at_i], ⟨rfl, rfl, rfl⟩, rfl⟩, pos⟩

theorem mem_ofModel {m : Model} {key : PlaylistKey} {n : UInt32} :
    (key, n) ∈ ofModel m ↔ 0 < n ∧ key.2.2 < stanceCount ∧
      (m.playlist? key.1 key.2.1 key.2.2).map Playlist.parentCount = some n := by
  simp only [ofModel, List.mem_flatMap, Prod.exists, Model.mem_allRules_iff_rule?, mem_ofRule,
    Model.playlist?]
  constructor
  · rintro ⟨ref, r, found, pos, rfl, bound, count⟩
    exact ⟨pos, bound, by rw [found, Option.bind_some, count]⟩
  · rintro ⟨pos, bound, count⟩
    cases found : m.rule? key.1 with
    | none =>
      rw [found] at count
      cases count
    | some r =>
      rw [found] at count
      exact ⟨key.1, r, found, pos, rfl, bound, count⟩

theorem lookup_ofModel (m : Model) (key : PlaylistKey) :
    lookup (ofModel m) key = m.parentCount key := by
  unfold Model.parentCount
  refine lookup_eq (fun e mem here => ?_) fun nonzero => ?_
  · subst here
    obtain ⟨_, bound, count⟩ := mem_ofModel.mp mem
    rw [if_pos bound, count]
    rfl
  · split at nonzero
    next bound =>
      rw [if_pos bound]
      cases count : (m.playlist? key.1 key.2.1 key.2.2).map Playlist.parentCount with
      | none =>
        rw [count] at nonzero
        exact absurd rfl nonzero
      | some n =>
        rw [count] at nonzero
        exact mem_ofModel.mpr ⟨UInt32.pos_iff_ne_zero.mpr nonzero, bound, count⟩
    next => exact absurd rfl nonzero

end ParentCounts

namespace Session

/-- The counts are those of the model, if they stand. -/
def Fresh (s : Session) : Prop := s.counts.isValid = true → s.counts = .rebuild s.model

theorem fresh_withModel (s : Session) (m : Model) : (s.withModel m).Fresh :=
  fun valid => absurd valid Bool.false_ne_true

theorem Fresh.counts_counted {s : Session} (fresh : s.Fresh) :
    s.counted.counts = .rebuild s.model := by
  unfold counted
  split
  next valid => exact fresh valid
  next => rfl

theorem Fresh.counted {s : Session} (fresh : s.Fresh) : s.counted.Fresh := by
  intro _
  rw [fresh.counts_counted, model_counted]

theorem Fresh.result_maxVariants {s : Session} (fresh : s.Fresh) (key : PlaylistKey) :
    (s.maxVariants key).result = s.model.parentCount key := by
  change (s.counted.counts.get? key).getD 0 = _
  rw [fresh.counts_counted]
  exact ParentCounts.lookup_ofModel s.model key

theorem Fresh.after {s : Session} (fresh : s.Fresh) (op : SessionOp) : (s.after op).Fresh := by
  cases op with
  | update edit => exact fresh_withModel _ _
  | replace model library => exact fresh_withModel _ _
  | addRule name matcher =>
    -- an edit that is refused leaves the session as it is, any other invalidates the counts
    simp only [Session.after, addRule]
    cases s.model.addRule name matcher with
    | error e => exact fresh
    | ok added => exact fresh_withModel _ _
  | removeRule index =>
    simp only [Session.after, removeRule]
    cases s.model.removeRule index with
    | error e => exact fresh
    | ok removed => exact fresh_withModel _ _
  | setPlaylist rule category stance playlist =>
    simp only [Session.after, setPlaylist]
    cases s.model.setPlaylist rule category stance playlist with
    | error e => exact fresh
    | ok m => exact fresh_withModel _ _
  | compile => exact fun _ => rfl
  | resolve actor category => exact fresh
  | candidates actor category => exact fresh
  | setMode mode => exact fresh
  | nextStance => exact fresh
  | previousStance => exact fresh
  | setStance stance => exact fresh
  | maxVariants key => exact fresh.counted
  | nextVariant category draws => exact fresh.counted
  | previousVariant category => exact fresh.counted
  | variant category =>
    obtain ⟨p, session⟩ := s.exists_session_variant category
    rw [Session.after, session]
    exact fresh.counted
  | variantName category direction =>
    obtain ⟨p, session⟩ := s.exists_session_variant category
    change (s.variant category).session.Fresh
    rw [session]
    exact fresh.counted

theorem Fresh.run {s : Session} (fresh : s.Fresh) (ops : List SessionOp) : (s.run ops).Fresh := by
  induction ops generalizing s with
  | nil => exact fresh
  | cons op ops ih => exact ih (fresh.after op)

/-- Whatever has been done with a session since its start, the number of parents it gives for a
playlist is that of the playlist in its model. -/
theorem maxVariants_run (m : Model) (l : Library) (ops : List SessionOp) (key : PlaylistKey) :
    (((start m l).run ops).maxVariants key).result =
      ((start m l).run ops).model.parentCount key :=
  have started : (start m l).Fresh := fun valid => absurd valid Bool.false_ne_true
  (started.run ops).result_maxVariants key

end Session

end Movesets
