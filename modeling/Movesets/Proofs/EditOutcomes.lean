import Movesets.Proofs.FreshCounts

set_option autoImplicit false

/-!
# What an edit leaves behind

An edit of a session is refused for reasons that can be named, and then nothing is changed or
announced.  An accepted one is announced once and reaches one place of the model: a rule behind the
others, a rule less, or one playlist.  Removing the rule that was just declared gives the model back.
-/

namespace Movesets

theorem Rule.playlist?_withPlaylist (r : Rule) (category category' : String) (stance stance' : Nat)
    (q : Playlist) : (r.withPlaylist category stance q).playlist? category' stance' =
      if category' = category ∧ stance' = stance then (r.playlist? category' stance').map fun _ => q
      else r.playlist? category' stance' := by
  change ((r.categories.modify category _).get? category').bind _ = _
  rw [Table.get?_modify, Rule.playlist?, Rule.category?]
  by_cases sameCategory : category = category'
  · subst sameCategory
    cases r.categories.get? category with
    | none => simp
    | some c =>
      simp only [if_true, Option.map_some, Option.bind_some, Category.stance?_modifyStance,
        true_and, eq_comm]
  · rw [if_neg sameCategory, if_neg fun same => sameCategory same.1.symm]

namespace Model

theorem mapRules_modifyRule (m : Model) (ref : RuleRef) {f g : Rule → Rule}
    (same : ∀ r, g (f r) = g r) : (m.modifyRule ref f).mapRules g = m.mapRules g := by
  cases ref with
  | player => simp only [mapRules, modifyRule, same]
  | general => simp only [mapRules, modifyRule, same]
  | declared i =>
    have rules : (m.rules.modify i f).map g = m.rules.map g := by
      refine List.ext_getElem? fun j => ?_
      rw [List.getElem?_map, List.getElem?_modify, List.getElem?_map]
      split
      next => cases m.rules[j]? <;> simp [same]
      next => simp
    simp only [mapRules, modifyRule, rules]

/-- The rule is new, behind the declared ones, with an emptied copy of every template. -/
structure RuleAppended (m : Model) (name : String) (matcher : Matcher) (ref : RuleRef)
    (m' : Model) : Prop where
  place : ref = .declared m.rules.length
  rules : ∃ r, m'.rules = m.rules ++ [r] ∧ r.name = name ∧ r.matcher = matcher ∧
    r.categories.toList = m.templates.toList.map
      fun e => (e.1, { e.2 with stances := List.replicate stanceCount [] })
  others : m' = { m with rules := m'.rules }

/-- The rule is no longer declared, and the later ones have moved up. -/
structure RuleTaken (m : Model) (i : Nat) (r : Rule) (m' : Model) : Prop where
  taken : m.rules[i]? = some r
  rules : ∀ j, m'.rules[j]? = m.rules[if j < i then j else j + 1]?
  others : m' = { m with rules := m'.rules }

/-- The playlist of one place is another, and the model is the same but for playlists. -/
structure PlaylistReplaced (m : Model) (ref : RuleRef) (category : String) (stance : Nat)
    (q : Playlist) (m' : Model) : Prop where
  there : (m.playlist? ref category stance).isSome = true
  playlists : ∀ ref' category' stance', m'.playlist? ref' category' stance' =
    if ref' = ref ∧ category' = category ∧ stance' = stance then some q
    else m.playlist? ref' category' stance'
  others : m'.mapRules Rule.cleared = m.mapRules Rule.cleared

/-- Why there is no playlist at a place, or none that can be set. -/
inductive NoPlaylist (m : Model) (ref : RuleRef) (category : String) (stance : Nat) :
    ModelError → Prop where
  | late (past : stanceCount ≤ stance) : NoPlaylist m ref category stance (.stanceOutOfRange stance)
  | rule {i : Nat} (early : stance < stanceCount) (declared : ref = .declared i)
      (past : m.rules.length ≤ i) : NoPlaylist m ref category stance (.unknownRule i)
  | category {r : Rule} (early : stance < stanceCount) (found : m.rule? ref = some r)
      (absent : r.category? category = none) :
      NoPlaylist m ref category stance (.unknownCategory category)
  | short {r : Rule} {c : Category} (early : stance < stanceCount) (found : m.rule? ref = some r)
      (has : r.category? category = some c) (past : c.stances.length ≤ stance) :
      NoPlaylist m ref category stance (.stanceOutOfRange stance)

theorem declares_iff {m : Model} {matcher : Matcher} : m.declares matcher = true ↔
    matcher = .player ∨ matcher = .general ∨ ∃ r ∈ m.rules, r.matcher = matcher := by
  have builtIn : matcher.isBuiltIn = true ↔ matcher = .player ∨ matcher = .general := by
    cases matcher <;> simp [Matcher.isBuiltIn]
  rw [declares, Bool.or_eq_true, builtIn, List.any_eq_true, or_assoc]
  simp only [beq_iff_eq]

theorem addRule_error_iff {m : Model} {name : String} {matcher : Matcher} {e : ModelError} :
    m.addRule name matcher = .error e ↔ m.declares matcher = true ∧ e = .duplicateRule name := by
  unfold addRule
  split
  next declared => simp [declared, eq_comm]
  next fresh => simp [fresh]

theorem removeRule_error_iff {m : Model} {i : Nat} {e : ModelError} :
    m.removeRule i = .error e ↔ m.rules.length ≤ i ∧ e = .unknownRule i := by
  rw [← List.getElem?_eq_none_iff]
  unfold removeRule
  split
  next none => simp [none, eq_comm]
  next r found => simp [found]

theorem setPlaylist_error_iff {m : Model} {ref : RuleRef} {category : String} {stance : Nat}
    {q : Playlist} {e : ModelError} : m.setPlaylist ref category stance q = .error e ↔
      NoPlaylist m ref category stance e := by
  constructor
  · intro refused
    unfold setPlaylist at refused
    split at refused
    next past =>
      cases refused
      exact .late past
    next early =>
      have early : stance < stanceCount := Nat.lt_of_not_le early
      split at refused
      next absent =>
        cases ref with
        | player => cases absent
        | general => cases absent
        | declared i =>
          cases refused
          exact .rule early rfl (List.getElem?_eq_none_iff.mp absent)
      next r found =>
        split at refused
        next absent =>
          cases refused
          exact .category early found absent
        next c has =>
          split at refused
          next past =>
            cases refused
            exact .short early found has (List.getElem?_eq_none_iff.mp past)
          next => cases refused
  · intro reason
    unfold setPlaylist
    cases reason with
    | late past => rw [if_pos past]
    | @rule i early declared past =>
      subst declared
      have absent : m.rule? (.declared i) = none := List.getElem?_eq_none_iff.mpr past
      rw [if_neg (Nat.not_le_of_lt early), absent]
    | category early found absent =>
      simp only [if_neg (Nat.not_le_of_lt early), found, absent]
    | @short r c early found has past =>
      have none : c.stance? stance = none := List.getElem?_eq_none_iff.mpr past
      simp only [if_neg (Nat.not_le_of_lt early), found, has, none]

theorem ruleAppended_of_addRule {m m' : Model} {name : String} {matcher : Matcher} {ref : RuleRef}
    (ok : m.addRule name matcher = .ok (m', ref)) : m.RuleAppended name matcher ref m' := by
  obtain ⟨_, rfl, rfl⟩ := addRule_ok ok
  exact ⟨rfl, ⟨_, rfl, rfl, rfl, rfl⟩, rfl⟩

theorem ruleTaken_of_removeRule {m m' : Model} {i : Nat} {r : Rule}
    (ok : m.removeRule i = .ok (m', r)) : m.RuleTaken i r m' := by
  obtain ⟨found, rfl⟩ := removeRule_ok ok
  refine ⟨found, fun j => ?_, rfl⟩
  rw [List.getElem?_eraseIdx]
  split <;> rfl

theorem playlistReplaced_of_setPlaylist {m m' : Model} {ref : RuleRef} {category : String}
    {stance : Nat} {q : Playlist} (ok : m.setPlaylist ref category stance q = .ok m') :
    m.PlaylistReplaced ref category stance q m' := by
  obtain ⟨r, c, p, found, has, slot, rfl⟩ := setPlaylist_ok ok
  have there : m.playlist? ref category stance = some p := by
    rw [playlist?, found, Option.bind_some, Rule.playlist?, has, Option.bind_some, slot]
  refine ⟨by rw [there, Option.isSome_some], fun ref' category' stance' => ?_,
    m.mapRules_modifyRule ref fun r => r.cleared_withPlaylist category stance q⟩
  rw [playlist?, rule?_modifyRule]
  by_cases sameRule : ref = ref'
  · subst sameRule
    rw [if_pos rfl, Option.bind_map]
    simp only [Function.comp_def, Rule.playlist?_withPlaylist, true_and]
    split
    next here =>
      obtain ⟨rfl, rfl⟩ := here
      rw [found, Option.bind_some, Rule.playlist?, has, Option.bind_some, slot, Option.map_some]
    next => rfl
  · rw [if_neg sameRule, if_neg fun same => sameRule same.1.symm]
    rfl

/-- Declaring a rule and removing it again changes nothing. -/
theorem removeRule_of_addRule {m m' : Model} {name : String} {matcher : Matcher} {ref : RuleRef}
    (ok : m.addRule name matcher = .ok (m', ref)) :
    ∃ r, m'.removeRule m.rules.length = .ok (m, r) := by
  obtain ⟨_, rfl, _⟩ := addRule_ok ok
  refine ⟨⟨name, matcher, m.templates.map Category.cleared⟩, ?_⟩
  simp [removeRule, List.eraseIdx_append_of_length_le]

end Model

namespace Session

/-- Nothing is changed and nothing announced, so nothing that is asked later tells the difference. -/
structure Refused {α : Type} (s : Session) (o : Outcome α) : Prop where
  unchanged : o.session = s
  silent : o.changes = []
  counts (ops : List SessionOp) (key : PlaylistKey) :
    ((o.session.run ops).maxVariants key).result = ((s.run ops).maxVariants key).result

/-- One change is announced, nothing beside the model is touched, and parents are counted anew. -/
structure Accepted {α : Type} (s : Session) (change : Change) (o : Outcome α) : Prop where
  announced : o.changes = [change]
  library : o.session.library = s.library
  player : o.session.player = s.player
  metrics : o.session.metrics = s.metrics
  counts (key : PlaylistKey) :
    (o.session.maxVariants key).result = o.session.model.parentCount key

/-- An operation is refused for the given reasons and for no other, and accepted with the given
change and the given effect on the model. -/
structure Settled {α : Type} (s : Session) (o : Outcome (Except ModelError α))
    (reason : ModelError → Prop) (change : α → Change) (effect : α → Model → Prop) : Prop where
  error_iff : ∀ e, o.result = .error e ↔ reason e
  refused : ∀ e, o.result = .error e → s.Refused o
  accepted : ∀ a, o.result = .ok a → s.Accepted (change a) o ∧ effect a o.session.model

/-- What an edit of the model makes of the session. -/
def applied {α : Type} (s : Session) (change : α → Change) :
    Except ModelError (Model × α) → Outcome (Except ModelError α)
  | .error e => s.quiet (.error e)
  | .ok (m, a) => ⟨s.withModel m, [change a], .ok a⟩

theorem settled_applied {α : Type} {s : Session} {change : α → Change}
    {edited : Except ModelError (Model × α)} {reason : ModelError → Prop}
    {effect : α → Model → Prop} (error_iff : ∀ e, edited = .error e ↔ reason e)
    (ok : ∀ m a, edited = .ok (m, a) → effect a m) :
    s.Settled (s.applied change edited) reason change effect := by
  cases edited with
  | error e =>
    refine ⟨fun e' => ?_, fun _ _ => ⟨rfl, rfl, fun _ _ => rfl⟩, fun a accepted => nomatch accepted⟩
    rw [← error_iff e']
    simp [applied, quiet]
  | ok edited =>
    obtain ⟨m, a⟩ := edited
    refine ⟨fun e' => ?_, fun _ refused => (nomatch refused), fun b accepted => ?_⟩
    · rw [← error_iff e']
      simp [applied]
    · -- The counts are dropped with the edit, so the next one is of the new model.
      cases accepted
      exact ⟨⟨rfl, rfl, rfl, rfl, (s.fresh_withModel m).result_maxVariants⟩, ok m a rfl⟩

theorem addRule_eq_applied (s : Session) (name : String) (matcher : Matcher) :
    s.addRule name matcher =
      s.applied (fun ref => .ruleAdded ref name) (s.model.addRule name matcher) := by
  unfold addRule
  cases s.model.addRule name matcher <;> rfl

theorem removeRule_eq_applied (s : Session) (i : Nat) : s.removeRule i =
    s.applied (fun r => .ruleRemoved r.name) (s.model.removeRule i) := by
  unfold removeRule
  cases s.model.removeRule i <;> rfl

theorem setPlaylist_eq_applied (s : Session) (ref : RuleRef) (category : String) (stance : Nat)
    (q : Playlist) : s.setPlaylist ref category stance q =
      s.applied (fun _ => .playlistSet ref category stance)
        ((s.model.setPlaylist ref category stance q).map fun m => (m, ())) := by
  unfold setPlaylist
  cases s.model.setPlaylist ref category stance q <;> rfl

/-- An edit that is refused leaves no trace.  An accepted one is announced once and changes its
target alone: a rule is declared behind the others with emptied templates, a rule is taken out and
the later ones move up, one playlist is replaced.  Removing the rule just declared undoes it. -/
theorem edits_settled (s : Session) :
    (∀ name matcher, s.Settled (s.addRule name matcher)
      (fun e => (matcher = .player ∨ matcher = .general ∨ ∃ r ∈ s.model.rules, r.matcher = matcher) ∧
        e = .duplicateRule name)
      (fun ref => .ruleAdded ref name) (s.model.RuleAppended name matcher)) ∧
    (∀ i, s.Settled (s.removeRule i) (fun e => s.model.rules.length ≤ i ∧ e = .unknownRule i)
      (fun r => .ruleRemoved r.name) (s.model.RuleTaken i)) ∧
    (∀ ref category stance q, s.Settled (s.setPlaylist ref category stance q)
      (s.model.NoPlaylist ref category stance) (fun _ => .playlistSet ref category stance)
      fun _ => s.model.PlaylistReplaced ref category stance q) ∧
    ∀ name matcher i, (s.addRule name matcher).result = .ok (.declared i) →
      (∃ r, ((s.addRule name matcher).session.removeRule i).result = .ok r) ∧
      ((s.addRule name matcher).session.removeRule i).session.model = s.model := by
  refine ⟨fun name matcher => ?_, fun i => ?_, fun ref category stance q => ?_,
    fun name matcher i declared => ?_⟩
  · rw [addRule_eq_applied]
    refine settled_applied (fun e => ?_) fun m ref => Model.ruleAppended_of_addRule
    rw [Model.addRule_error_iff, Model.declares_iff]
  · rw [removeRule_eq_applied]
    exact settled_applied (fun e => Model.removeRule_error_iff) fun m r =>
      Model.ruleTaken_of_removeRule
  · rw [setPlaylist_eq_applied]
    refine settled_applied (fun e => ?_) fun m _ ok => ?_
    · rw [← Model.setPlaylist_error_iff (q := q)]
      cases s.model.setPlaylist ref category stance q <;> simp [Except.map]
    · cases edited : s.model.setPlaylist ref category stance q with
      | error e =>
        rw [edited] at ok
        cases ok
      | ok m' =>
        rw [edited] at ok
        cases ok
        exact Model.playlistReplaced_of_setPlaylist edited
  · obtain ⟨m, edited, session⟩ := addRule_ok declared
    obtain ⟨_, _, place⟩ := Model.addRule_ok edited
    obtain rfl := RuleRef.declared.inj place
    obtain ⟨r, removed⟩ := Model.removeRule_of_addRule edited
    have undone : (s.withModel m).removeRule s.model.rules.length =
        ⟨(s.withModel m).withModel s.model, [.ruleRemoved r.name], .ok r⟩ := by
      rw [removeRule_eq_applied]
      change applied _ _ (m.removeRule _) = _
      rw [removed]
      rfl
    rw [session, undone]
    exact ⟨⟨r, rfl⟩, rfl⟩

theorem edits_settled_twoKeywords :
    let s := start Document.twoKeywords Document.lightAndHeavy
    let declared := s.addRule "Bandit" (.keyword "Bandit")
    let again := declared.session.addRule "Bandit again" (.keyword "Bandit")
    (declared.result = .ok (.declared 2) ∧ declared.changes = [.ruleAdded (.declared 2) "Bandit"]) ∧
    (declared.session.removeRule 2).session.model = s.model ∧
    again.result = .error (.duplicateRule "Bandit again") ∧ again.session = declared.session ∧
    (s.setPlaylist (.declared 2) "Sword" 0 []).result = .error (.unknownRule 2) ∧
    ∃ m, (s.setPlaylist (.declared 1) "Sword" 0 []).session.model = m ∧
      m.playlist? (.declared 1) "Sword" 0 = some [] ∧
      m.playlist? (.declared 0) "Sword" 0 = s.model.playlist? (.declared 0) "Sword" 0 := by
  intro s declared again
  obtain ⟨add, _, set, undo⟩ := edits_settled s
  obtain ⟨addAgain, _⟩ := edits_settled declared.session
  have replaced := ((set (.declared 1) "Sword" 0 []).accepted () rfl).2
  refine ⟨⟨rfl, ((add "Bandit" (.keyword "Bandit")).accepted _ rfl).1.announced⟩,
    (undo "Bandit" (.keyword "Bandit") 2 rfl).2, rfl,
    ((addAgain "Bandit again" (.keyword "Bandit")).refused _ rfl).unchanged, ?_, _, rfl, ?_, ?_⟩
  · exact ((set (.declared 2) "Sword" 0 []).error_iff _).mpr (.rule (by decide) rfl (by decide))
  · exact replaced.playlists (.declared 1) "Sword" 0
  · exact replaced.playlists (.declared 0) "Sword" 0

end Session

end Movesets
