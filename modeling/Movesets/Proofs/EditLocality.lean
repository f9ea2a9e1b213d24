import Movesets.Proofs.Distribution
import Movesets.Proofs.Outlines

set_option autoImplicit false

/-!
# Edits in the exported documents

The blocks of one playlist stand together among the blocks of a model, and no other block depends on
them.  So replacing a playlist replaces one stretch of blocks, declaring a rule adds none, and
removing a rule takes out its stretch.
-/

namespace Movesets

/-- Whatever the argument, the list is the same before and behind one part. -/
def Confined {α β : Type} (whole part : α → List β) : Prop :=
  ∃ before behind, ∀ q, whole q = before ++ part q ++ behind

namespace Confined

variable {α β γ : Type}

theorem const (whole : List β) : Confined (fun _ : α => whole) fun _ => [] :=
  ⟨whole, [], fun _ => by simp⟩

theorem trans {f g h : α → List β} (outer : Confined f g) (inner : Confined g h) :
    Confined f h := by
  obtain ⟨before, behind, eq⟩ := outer
  obtain ⟨before', behind', eq'⟩ := inner
  refine ⟨before ++ before', behind' ++ behind, fun q => ?_⟩
  rw [eq, eq']
  simp only [List.append_assoc]

/-- In a concatenation over distinct things only the share of one of them varies. -/
theorem flatMap {xs : List γ} (nodup : xs.Nodup) {x : γ} (mem : x ∈ xs) {g : α → γ → List β}
    {fixed : γ → List β} (same : ∀ q, ∀ y ∈ xs, y ≠ x → g q y = fixed y) :
    Confined (fun q => xs.flatMap (g q)) fun q => g q x := by
  obtain ⟨front, back, rfl⟩ := List.append_of_mem mem
  have others (y : γ) (other : y ∈ front ∨ y ∈ back) : y ≠ x := by
    intro eq
    subst eq
    rw [List.nodup_append, List.nodup_cons] at nodup
    rcases other with inFront | inBack
    · exact nodup.2.2 _ inFront _ List.mem_cons_self rfl
    · exact nodup.2.1.1 inBack
  refine ⟨front.flatMap fixed, back.flatMap fixed, fun q => ?_⟩
  have eqFront : front.flatMap (g q) = front.flatMap fixed :=
    List.flatMap_congr fun y mem => same q y (by simp [mem]) (others y (Or.inl mem))
  have eqBack : back.flatMap (g q) = back.flatMap fixed :=
    List.flatMap_congr fun y mem => same q y (by simp [mem]) (others y (Or.inr mem))
  dsimp only
  rw [List.flatMap_append, List.flatMap_cons, eqFront, eqBack, List.append_assoc]

end Confined

/-- A selected variant of a selected entry points at the source. -/
def Playlist.PointsAt (p : Playlist) (s : Source) : Prop :=
  ∃ e ∈ p, e.selected = true ∧ ∃ v ∈ e.variants, v.selected = true ∧ v.source = s

theorem Block.pointsAt_of_mem {cs : Categories} {rule : Option Rule} {c : Category} {stance : Nat}
    {p : Playlist} {b : Block} (mem : b ∈ compileAll cs rule c stance p) :
    p.PointsAt b.source := by
  obtain ⟨i, at_i⟩ := List.mem_iff_getElem?.mp mem
  obtain ⟨q, placed, rfl⟩ := placement_of_getElem? at_i
  obtain ⟨e, entry, selected, variant, chosen⟩ :=
    Playlist.entry_of_mem_order (List.mem_of_getElem? placed)
  exact ⟨e, List.mem_of_getElem? entry, selected, q.variant, List.mem_of_getElem? variant, chosen,
    rfl⟩

theorem Category.stance?_modifyStance (c : Category) (stance i : Nat) (q : Playlist) :
    (c.modifyStance stance fun _ => q).stance? i =
      if stance = i then (c.stance? i).map fun _ => q else c.stance? i := by
  simp only [stance?, modifyStance, List.getElem?_modify]
  split
  · rfl
  · simp

theorem Category.modifyStance_self {c : Category} {stance : Nat} {p : Playlist}
    (found : c.stance? stance = some p) : c.modifyStance stance (fun _ => p) = c := by
  have same : c.stances.modify stance (fun _ => p) = c.stances := by
    refine List.ext_getElem? fun i => ?_
    rw [List.getElem?_modify]
    split
    next here =>
      subst here
      have found : c.stances[stance]? = some p := found
      rw [found]
      rfl
    next => exact Option.map_id'
  rw [Category.modifyStance, same]

namespace Rule

/-- The rule with the playlist of one category and stance replaced. -/
def withPlaylist (r : Rule) (category : String) (stance : Nat) (q : Playlist) : Rule :=
  r.modifyCategory category fun c => c.modifyStance stance fun _ => q

@[simp] theorem cleared_withPlaylist (r : Rule) (category : String) (stance : Nat) (q : Playlist) :
    (r.withPlaylist category stance q).cleared = r.cleared := by
  have categories : (r.withPlaylist category stance q).categories.map Category.cleared =
      r.categories.map Category.cleared := by
    refine Table.ext_toList ?_
    simp only [Table.toList, Table.map, withPlaylist, modifyCategory, Table.modify, List.map_map]
    refine List.map_congr_left fun e _ => ?_
    dsimp only [Function.comp_apply]
    split <;> rfl
  rw [cleared, categories]
  rfl

theorem withPlaylist_self {r : Rule} {category : String} {c : Category}
    (found : r.category? category = some c) {stance : Nat} {p : Playlist}
    (slot : c.stance? stance = some p) : r.withPlaylist category stance p = r := by
  have mem := Table.mem_toList_of_get? found
  have same : r.categories.modify category (fun c => c.modifyStance stance fun _ => p) =
      r.categories := by
    refine Table.ext_toList ((List.map_congr_left fun e inTable => ?_).trans (List.map_id _))
    by_cases here : e.1 = category
    · have e_eq : e = (category, c) := List.inj_on_of_nodup_map r.categories.nodup inTable mem here
      rw [e_eq, if_pos rfl]
      exact congrArg (Prod.mk category) (Category.modifyStance_self slot)
    · rw [if_neg here]
      rfl
  rw [withPlaylist, modifyCategory, same]

end Rule

namespace Model

theorem modifyRule_self {m : Model} {ref : RuleRef} {r : Rule} (found : m.rule? ref = some r)
    {f : Rule → Rule} (same : f r = r) : m.modifyRule ref f = m := by
  cases ref with
  | player =>
    cases found
    rw [modifyRule, same]
  | general =>
    cases found
    rw [modifyRule, same]
  | declared i =>
    obtain ⟨bound, rfl⟩ := List.getElem?_eq_some_iff.mp found
    rw [modifyRule, List.modify_eq_take_cons_drop bound, same, ← List.drop_eq_getElem_cons bound,
      List.take_append_drop]

/-- An accepted playlist goes to a place that is there, and nothing else changes. -/
theorem setPlaylist_ok {m m' : Model} {ref : RuleRef} {category : String} {stance : Nat}
    {q : Playlist} (ok : m.setPlaylist ref category stance q = .ok m') :
    ∃ r c p, m.rule? ref = some r ∧ r.category? category = some c ∧ c.stance? stance = some p ∧
      m' = m.modifyRule ref fun r => r.withPlaylist category stance q := by
  unfold setPlaylist at ok
  split at ok
  next => cases ok
  split at ok
  next => cases ok
  next r found =>
    split at ok
    next => cases ok
    next c has =>
      split at ok
      next => cases ok
      next p slot =>
        cases ok
        exact ⟨r, c, p, found, has, slot, rfl⟩

theorem addRule_ok {m m' : Model} {name : String} {matcher : Matcher} {ref : RuleRef}
    (ok : m.addRule name matcher = .ok (m', ref)) : m.declares matcher = false ∧
      m' = { m with rules := m.rules ++ [⟨name, matcher, m.templates.map Category.cleared⟩] } ∧
      ref = .declared m.rules.length := by
  unfold addRule at ok
  split at ok
  next => cases ok
  next fresh =>
    cases ok
    exact ⟨Bool.eq_false_iff.mpr fresh, rfl, rfl⟩

theorem removeRule_ok {m m' : Model} {i : Nat} {r : Rule} (ok : m.removeRule i = .ok (m', r)) :
    m.rules[i]? = some r ∧ m' = { m with rules := m.rules.eraseIdx i } := by
  unfold removeRule at ok
  split at ok
  next => cases ok
  next found =>
    cases ok
    exact ⟨found, rfl⟩

end Model

namespace Document
open Block

/-- The blocks that a playlist gives where it stands; only the player has stances. -/
def slotBlocks (r : Rule) (c : Category) (stance : Nat) (p : Playlist) : List Block :=
  if stance ∈ stancesOf r then compileAll r.categories (some r) c stance p else []

theorem slotBlocks_eq_nil {r : Rule} {stance : Nat} (notPlayer : r.isPlayer = false)
    (later : 0 < stance) (c : Category) (p : Playlist) : slotBlocks r c stance p = [] := by
  have skipped : stance ∉ stancesOf r := by
    simp only [stancesOf, notPlayer, List.mem_range]
    simp
    omega
  exact if_neg skipped

theorem confined_stances {r : Rule} (r' : Playlist → Rule) (rules : ∀ q, (r' q).cleared = r.cleared)
    {c : Category} {stance : Nat} {p : Playlist} (found : c.stance? stance = some p) :
    Confined (fun q => (stancesOf r).flatMap
      (stanceBlocks (r' q) (c.modifyStance stance fun _ => q))) (slotBlocks r c stance) := by
  have others (q : Playlist) (i : Nat) (other : i ≠ stance) :
      stanceBlocks (r' q) (c.modifyStance stance fun _ => q) i = stanceBlocks r c i := by
    have same : (c.modifyStance stance fun _ => q).cleared = c.cleared := rfl
    refine stanceBlocks_congr (rules q) same ?_
    rw [Category.stance?_modifyStance, if_neg other.symm]
  have slot (q : Playlist) : stanceBlocks (r' q) (c.modifyStance stance fun _ => q) stance =
      compileAll r.categories (some r) c stance q := by
    unfold stanceBlocks
    rw [Category.stance?_modifyStance, if_pos rfl, found]
    exact compileAll_congr (rules q) rfl stance q
  unfold slotBlocks
  by_cases compiled : stance ∈ stancesOf r
  · simp only [if_pos compiled, ← slot]
    exact .flatMap List.nodup_range compiled fun q i _ other => others q i other
  · have same (q : Playlist) : (stancesOf r).flatMap
        (stanceBlocks (r' q) (c.modifyStance stance fun _ => q)) =
        (stancesOf r).flatMap (stanceBlocks r c) :=
      List.flatMap_congr fun i mem => others q i fun eq => compiled (eq ▸ mem)
    simp only [if_neg compiled, same]
    exact .const _

theorem confined_rule {r : Rule} {category : String} {c : Category}
    (found : r.category? category = some c) {stance : Nat} {p : Playlist}
    (slot : c.stance? stance = some p) :
    Confined (fun q => ruleBlocks (r.withPlaylist category stance q)) (slotBlocks r c stance) := by
  let edited (q : Playlist) (e : String × Category) : Category :=
    if e.1 = category then e.2.modifyStance stance fun _ => q else e.2
  let share (q : Playlist) (e : String × Category) : List Block :=
    (stancesOf r).flatMap (stanceBlocks (r.withPlaylist category stance q) (edited q e))
  have blocks (q : Playlist) : ruleBlocks (r.withPlaylist category stance q) =
      r.categories.toList.flatMap (share q) := by
    rw [ruleBlocks, stancesOf_congr (r.cleared_withPlaylist category stance q), Table.values,
      List.flatMap_map]
    simp only [Rule.withPlaylist, Rule.modifyCategory, Table.modify, List.flatMap_map]
    rfl
  have mem := Table.mem_toList_of_get? found
  have others (q : Playlist) (e : String × Category) (inTable : e ∈ r.categories.toList)
      (other : e ≠ (category, c)) :
      share q e = (stancesOf r).flatMap (stanceBlocks r e.2) := by
    have key : e.1 ≠ category := fun eq =>
      other (List.inj_on_of_nodup_map r.categories.nodup inTable mem eq)
    simp only [share, edited, if_neg key]
    exact List.flatMap_congr fun i _ =>
      stanceBlocks_congr (r.cleared_withPlaylist category stance q) rfl rfl
  have here (q : Playlist) : share q (category, c) = (stancesOf r).flatMap
      (stanceBlocks (r.withPlaylist category stance q) (c.modifyStance stance fun _ => q)) := by
    simp only [share, edited, if_true]
  have inner := confined_stances _ (r.cleared_withPlaylist category stance) slot
  simp only [← here] at inner
  simp only [blocks]
  exact (Confined.flatMap (List.Nodup.of_map _ r.categories.nodup) mem others).trans inner

theorem modelBlocks_eq (m : Model) : modelBlocks m =
    ruleBlocks m.player ++ (ruleBlocks m.general ++ m.rules.flatMap ruleBlocks) := by
  have declared : (m.rules.zipIdx.map fun r => (RuleRef.declared r.2, r.1)).flatMap
      (fun r => ruleBlocks r.2) = m.rules.flatMap ruleBlocks := by
    conv => rhs; rw [← List.zipIdx_map_fst 0 m.rules, List.flatMap_map]
    rw [List.flatMap_map]
  rw [modelBlocks, Model.allRules, List.flatMap_cons, List.flatMap_cons, declared]

theorem confined_modifyRule (m : Model) {ref : RuleRef} {r : Rule} (found : m.rule? ref = some r)
    (f : Playlist → Rule → Rule) : Confined (fun q => modelBlocks (m.modifyRule ref (f q)))
      fun q => ruleBlocks (f q r) := by
  simp only [modelBlocks_eq]
  cases ref with
  | player =>
    cases found
    exact ⟨[], ruleBlocks m.general ++ m.rules.flatMap ruleBlocks, fun q => rfl⟩
  | general =>
    cases found
    refine ⟨ruleBlocks m.player, m.rules.flatMap ruleBlocks, fun q => ?_⟩
    simp only [Model.modifyRule, List.append_assoc]
  | declared i =>
    obtain ⟨bound, rfl⟩ := List.getElem?_eq_some_iff.mp found
    refine ⟨ruleBlocks m.player ++ (ruleBlocks m.general ++ (m.rules.take i).flatMap ruleBlocks),
      (m.rules.drop (i + 1)).flatMap ruleBlocks, fun q => ?_⟩
    simp only [Model.modifyRule, List.modify_eq_take_cons_drop bound, List.flatMap_append,
      List.flatMap_cons, List.append_assoc]

theorem ruleBlocks_cleared (name : String) (matcher : Matcher) (templates : Categories) :
    ruleBlocks ⟨name, matcher, templates.map Category.cleared⟩ = [] := by
  refine List.eq_nil_iff_forall_not_mem.mpr fun b mem => ?_
  obtain ⟨c, inTable, stance, _, p, slot, inPlaylist⟩ := mem_ruleBlocks.mp mem
  rw [Table.values_map] at inTable
  obtain ⟨template, _, rfl⟩ := List.mem_map.mp inTable
  obtain rfl : p = [] := List.eq_of_mem_replicate (List.mem_of_getElem? slot)
  obtain ⟨e, inEmpty, _⟩ := pointsAt_of_mem inPlaylist
  cases inEmpty

theorem conditionsFor_append (s : Source) (xs ys : List Block) :
    conditionsFor s (xs ++ ys) = conditionsFor s xs ++ conditionsFor s ys := by
  simp [conditionsFor]

theorem conditionsFor_slotBlocks {p : Playlist} {s : Source} (elsewhere : ¬ p.PointsAt s)
    (r : Rule) (c : Category) (stance : Nat) : conditionsFor s (slotBlocks r c stance p) = [] := by
  refine conditionsFor_eq_nil_iff.mpr fun b mem same => ?_
  unfold slotBlocks at mem
  split at mem
  · exact elsewhere (same ▸ pointsAt_of_mem mem)
  · cases mem

/-- The documents share out lists of blocks that differ in one stretch: first it is `old`, then
`new`. -/
def Replaced (l : Library) (old new : List Block) (documents documents' : List Document) : Prop :=
  ∃ before behind,
    documents = l.toList.map (ofAnimation (before ++ old ++ behind)) ∧
    documents' = l.toList.map (ofAnimation (before ++ new ++ behind))

namespace Replaced

variable {l : Library} {old new : List Block} {documents documents' : List Document}

theorem of_confined {α : Type} {model : α → Model} {part : α → List Block}
    (confined : Confined (fun x => modelBlocks (model x)) part) (x y : α) :
    Replaced l (part x) (part y) (build (model x) l) (build (model y) l) := by
  obtain ⟨before, behind, eq⟩ := confined
  refine ⟨before, behind, ?_, ?_⟩
  · rw [build_eq, ← eq x]
  · rw [build_eq, ← eq y]

theorem getElem?_eq (replaced : Replaced l old new documents documents') {i : Nat} {d : Document}
    (at_i : documents[i]? = some d) (gone : conditionsFor d.source old = [])
    (none : conditionsFor d.source new = []) : documents'[i]? = some d := by
  obtain ⟨before, behind, rfl, rfl⟩ := replaced
  rw [List.getElem?_map, Option.map_eq_some_iff] at at_i
  obtain ⟨a, at_i, rfl⟩ := at_i
  have gone : conditionsFor a.source old = [] := gone
  have none : conditionsFor a.source new = [] := none
  rw [List.getElem?_map, at_i, Option.map_some]
  simp only [ofAnimation, conditionsFor_append, gone, none]

theorem eq_of_nil (replaced : Replaced l [] [] documents documents') : documents' = documents := by
  obtain ⟨before, behind, rfl, rfl⟩ := replaced
  rfl

end Replaced

theorem replaced_withPlaylist {m : Model} {ref : RuleRef} {r : Rule} {category : String}
    {c : Category} {stance : Nat} {p : Playlist} (found : m.rule? ref = some r)
    (has : r.category? category = some c) (slot : c.stance? stance = some p) (q : Playlist)
    (l : Library) : Replaced l (slotBlocks r c stance p) (slotBlocks r c stance q) (build m l)
      (build (m.modifyRule ref fun r => r.withPlaylist category stance q) l) := by
  let edited (q : Playlist) : Model := m.modifyRule ref fun r => r.withPlaylist category stance q
  have unchanged : edited p = m := Model.modifyRule_self found (Rule.withPlaylist_self has slot)
  have confined : Confined (fun q => modelBlocks (edited q)) (slotBlocks r c stance) :=
    (confined_modifyRule m found fun q r => r.withPlaylist category stance q).trans
      (confined_rule has slot)
  have replaced := Replaced.of_confined (l := l) confined p q
  rw [unchanged] at replaced
  exact replaced

theorem build_addRule (m : Model) (name : String) (matcher : Matcher) (l : Library) :
    build { m with rules := m.rules ++ [⟨name, matcher, m.templates.map Category.cleared⟩] } l =
      build m l := by
  rw [build_eq, build_eq, modelBlocks_eq, modelBlocks_eq, List.flatMap_append,
    List.flatMap_singleton, ruleBlocks_cleared, List.append_nil]

theorem replaced_removeRule {m : Model} {i : Nat} {r : Rule} (found : m.rules[i]? = some r)
    (l : Library) : Replaced l (ruleBlocks r) [] (build m l)
      (build { m with rules := m.rules.eraseIdx i } l) := by
  obtain ⟨bound, rfl⟩ := List.getElem?_eq_some_iff.mp found
  refine ⟨ruleBlocks m.player ++ (ruleBlocks m.general ++ (m.rules.take i).flatMap ruleBlocks),
    (m.rules.drop (i + 1)).flatMap ruleBlocks, ?_, ?_⟩
  · have rules : m.rules = m.rules.take i ++ m.rules[i] :: m.rules.drop (i + 1) := by
      rw [← List.drop_eq_getElem_cons bound, List.take_append_drop]
    rw [build_eq, modelBlocks_eq]
    conv => lhs; rw [rules]
    simp only [List.flatMap_append, List.flatMap_cons, List.append_assoc]
  · rw [build_eq, modelBlocks_eq, List.eraseIdx_eq_take_drop_succ]
    simp only [List.flatMap_append, List.append_assoc, List.append_nil]

end Document

namespace Session
open Document

def documents (s : Session) : List Document := s.compile.result

theorem documents_withModel (s : Session) (m : Model) :
    (s.withModel m).documents = build m s.library := rfl

theorem setPlaylist_ok {s : Session} {ref : RuleRef} {category : String} {stance : Nat}
    {q : Playlist} (ok : (s.setPlaylist ref category stance q).result = .ok ()) :
    ∃ m, s.model.setPlaylist ref category stance q = .ok m ∧
      (s.setPlaylist ref category stance q).session = s.withModel m := by
  unfold setPlaylist at ok ⊢
  cases edited : s.model.setPlaylist ref category stance q with
  | error e =>
    rw [edited] at ok
    cases ok
  | ok m => exact ⟨m, rfl, rfl⟩

theorem addRule_ok {s : Session} {name : String} {matcher : Matcher} {ref : RuleRef}
    (ok : (s.addRule name matcher).result = .ok ref) :
    ∃ m, s.model.addRule name matcher = .ok (m, ref) ∧
      (s.addRule name matcher).session = s.withModel m := by
  unfold addRule at ok ⊢
  cases edited : s.model.addRule name matcher with
  | error e =>
    rw [edited] at ok
    cases ok
  | ok added =>
    rw [edited] at ok
    cases ok
    exact ⟨added.1, rfl, rfl⟩

theorem removeRule_ok {s : Session} {i : Nat} {r : Rule}
    (ok : (s.removeRule i).result = .ok r) :
    ∃ m, s.model.removeRule i = .ok (m, r) ∧ (s.removeRule i).session = s.withModel m := by
  unfold removeRule at ok ⊢
  cases edited : s.model.removeRule i with
  | error e =>
    rw [edited] at ok
    cases ok
  | ok removed =>
    rw [edited] at ok
    cases ok
    exact ⟨removed.1, rfl, rfl⟩

/-- An accepted edit changes the documents in its own place only.  Another playlist replaces the
blocks of its slot, leaves every document alone that neither playlist points at, and leaves all of
them alone in a later stance of a rule that is not the player's; declaring a rule leaves all of them
alone; removing one takes out its blocks. -/
theorem edits_local (s : Session) :
    (∀ ref category stance q, (s.setPlaylist ref category stance q).result = .ok () →
      let after := (s.setPlaylist ref category stance q).session
      ∃ r c p, s.model.rule? ref = some r ∧ r.category? category = some c ∧
        c.stance? stance = some p ∧
        Replaced s.library (slotBlocks r c stance p) (slotBlocks r c stance q) s.documents
          after.documents ∧
        (∀ (i : Nat) (d : Document), s.documents[i]? = some d → ¬ p.PointsAt d.source →
          ¬ q.PointsAt d.source → after.documents[i]? = some d) ∧
        (r.isPlayer = false → 0 < stance → after.documents = s.documents)) ∧
    (∀ name matcher ref, (s.addRule name matcher).result = .ok ref →
      (s.addRule name matcher).session.documents = s.documents) ∧
    ∀ i r, (s.removeRule i).result = .ok r → s.model.rules[i]? = some r ∧
      Replaced s.library (ruleBlocks r) [] s.documents (s.removeRule i).session.documents := by
  refine ⟨?_, ?_, ?_⟩
  · intro ref category stance q ok after
    obtain ⟨m, edited, session⟩ := setPlaylist_ok ok
    obtain ⟨r, c, p, found, has, slot, rfl⟩ := Model.setPlaylist_ok edited
    have replaced : Replaced s.library (slotBlocks r c stance p) (slotBlocks r c stance q)
        s.documents after.documents := by
      change Replaced _ _ _ _ (s.setPlaylist ref category stance q).session.documents
      rw [session, documents_withModel]
      exact replaced_withPlaylist found has slot q s.library
    refine ⟨r, c, p, found, has, slot, replaced, ?_, ?_⟩
    · intro i d at_i notOld notNew
      exact replaced.getElem?_eq at_i (conditionsFor_slotBlocks notOld r c stance)
        (conditionsFor_slotBlocks notNew r c stance)
    · intro notPlayer later
      rw [slotBlocks_eq_nil notPlayer later, slotBlocks_eq_nil notPlayer later] at replaced
      exact replaced.eq_of_nil
  · intro name matcher ref ok
    obtain ⟨m, edited, session⟩ := addRule_ok ok
    obtain ⟨_, rfl, _⟩ := Model.addRule_ok edited
    rw [session, documents_withModel]
    exact build_addRule s.model name matcher s.library
  · intro i r ok
    obtain ⟨m, edited, session⟩ := removeRule_ok ok
    obtain ⟨found, rfl⟩ := Model.removeRule_ok edited
    rw [session, documents_withModel]
    exact ⟨found, replaced_removeRule found s.library⟩

theorem edits_local_twoKeywords :
    let s := start twoKeywords lightAndHeavy
    let emptied := s.setPlaylist (.declared 0) "Sword" 0 []
    let declared := s.addRule "Bandit" (.keyword "Bandit")
    let removed := s.removeRule 0
    (emptied.result = .ok () ∧ (∃ d, s.documents[1]? = some d ∧
      emptied.session.documents[1]? = some d)) ∧
    (declared.result = .ok (.declared 2) ∧ declared.session.documents = s.documents) ∧
    removed.result = .ok (keywordRule "Vampire") ∧
      Replaced s.library (ruleBlocks (keywordRule "Vampire")) [] s.documents
        removed.session.documents := by
  intro s emptied declared removed
  obtain ⟨playlist, add, remove⟩ := edits_local s
  refine ⟨⟨rfl, _, rfl, ?_⟩, ⟨rfl, add "Bandit" (.keyword "Bandit") _ rfl⟩, rfl,
    (remove 0 _ rfl).2⟩
  obtain ⟨r, c, p, found, has, slot, _, kept, _⟩ := playlist (.declared 0) "Sword" 0 [] rfl
  cases found
  cases has
  cases slot
  refine kept 1 _ rfl ?_ ?_
  · rintro ⟨e, mem, _, v, inEntry, _, heavy⟩
    cases List.mem_singleton.mp mem
    cases List.mem_singleton.mp inEntry
    cases heavy
  · rintro ⟨e, mem, _⟩
    cases mem

end Session

end Movesets
