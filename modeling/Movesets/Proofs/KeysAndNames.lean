import Movesets.Proofs.Equipment
import Movesets.Proofs.UnreadableParts

set_option autoImplicit false

/-!
# Keys and names of categories

A category that is built in or added is stored under its own name, and no edit changes a key or a
name.  A rules file may store a category under any key, so that its key and its name differ, and two
categories of one table may have one name.  This is the only way: a model stays keyed by name, and
then names are distinct, exactly if the file gives every category under its name.
-/

namespace Movesets

namespace Categories

/-- Every category goes by its key, or by a name that is allowed under it. -/
def NamedBy (allowed : String → String → Prop) (cs : Categories) : Prop :=
  ∀ ⦃key c⦄, cs.get? key = some c → c.name = key ∨ allowed key c.name

/-- Every category goes by its key. -/
def Keyed (cs : Categories) : Prop := ∀ ⦃key c⦄, cs.get? key = some c → c.name = key

/-- Categories under two keys have two names. -/
def NamesDistinct (cs : Categories) : Prop :=
  ∀ ⦃key key' c c'⦄, cs.get? key = some c → cs.get? key' = some c' → c.name = c'.name → key = key'

variable {allowed : String → String → Prop} {cs : Categories}

theorem keyed_iff_namedBy : cs.Keyed ↔ cs.NamedBy fun _ _ => False := by
  simp only [Keyed, NamedBy, or_false]

theorem keyed_of_forall_mem (each : ∀ e ∈ cs.toList, e.2.name = e.1) : cs.Keyed :=
  fun key c found => each (key, c) (Table.mem_toList_of_get? found)

theorem Keyed.namesDistinct (keyed : cs.Keyed) : cs.NamesDistinct := by
  intro key key' c c' found found' same
  rw [← keyed found, same, keyed found']

theorem get?_fillFrom {templates : Categories} {key : String} {c : Category} :
    (fillFrom templates cs).get? key = some c ↔ cs.get? key = some c ∨
      key ∉ cs.keys ∧ ∃ t, templates.get? key = some t ∧ t.cleared = c := by
  -- Both sides speak of the same list: the own categories, and the templates that are lacked.
  simp only [Table.get?_eq_some_iff, toList_fillFrom, List.mem_append, List.mem_map,
    List.mem_filter, Bool.not_eq_true', ← Bool.not_eq_true, Table.contains_iff, Prod.exists,
    Prod.mk.injEq]
  refine or_congr_right ⟨?_, ?_⟩
  · rintro ⟨_, t, ⟨inTable, lacked⟩, rfl, cleared⟩
    exact ⟨lacked, t, inTable, cleared⟩
  · rintro ⟨lacked, t, inTable, cleared⟩
    exact ⟨key, t, ⟨inTable, lacked⟩, rfl, cleared⟩

namespace NamedBy

theorem empty : NamedBy allowed .empty := fun _ _ found => nomatch found

theorem map {f : Category → Category} (same : ∀ c, (f c).name = c.name)
    (named : cs.NamedBy allowed) : NamedBy allowed (Table.map f cs) := by
  intro key c found
  rw [Table.get?_map] at found
  obtain ⟨old, there, rfl⟩ := Option.map_eq_some_iff.mp found
  rw [same]
  exact named there

theorem modify {f : Category → Category} (same : ∀ c, (f c).name = c.name)
    (named : cs.NamedBy allowed) (category : String) :
    NamedBy allowed (Table.modify cs category f) := by
  intro key c found
  rw [Table.get?_modify] at found
  split at found
  · obtain ⟨old, there, rfl⟩ := Option.map_eq_some_iff.mp found
    rw [same]
    exact named there
  · exact named found

theorem insert (named : cs.NamedBy allowed) {category : String} {d : Category}
    (own : d.name = category) : NamedBy allowed (Table.insert cs category d) := by
  intro key c found
  rw [Table.get?_insert] at found
  split at found
  next here =>
    cases found
    exact Or.inl (own.trans here)
  next => exact named found

theorem insertNew (named : cs.NamedBy allowed) {category : String} {d : Category}
    (own : d.name = category) : NamedBy allowed (Table.insertNew cs category d) := by
  unfold Table.insertNew
  split
  · exact named
  · exact named.insert own

theorem reconcileRule {templates : Categories} {r : Rule} (named : r.categories.NamedBy allowed)
    (shared : templates.NamedBy allowed) :
    (Model.reconcileRule templates r).categories.NamedBy allowed := by
  refine map (f := Category.normalized) (fun _ => rfl) fun key c found => ?_
  rcases get?_fillFrom.mp found with own | ⟨_, t, template, rfl⟩
  · exact named own
  · exact shared (c := t) template

theorem of_reconcileRule {templates : Categories} {r : Rule}
    (named : (Model.reconcileRule templates r).categories.NamedBy allowed) :
    r.categories.NamedBy allowed := by
  intro key c found
  have kept : (Model.reconcileRule templates r).categories.get? key = some c.normalized := by
    rw [Model.reconcileRule, Table.get?_map, get?_fillFrom.mpr (Or.inl found), Option.map_some]
  exact named (c := c.normalized) kept

end NamedBy

theorem keyed_builtIn : builtIn.Keyed := keyed_of_forall_mem (by decide)

end Categories

namespace Model
open Categories (NamedBy)

/-- The table is that of the templates or of a rule. -/
def HasTable (m : Model) (cs : Categories) : Prop :=
  m.templates = cs ∨ ∃ ref r, m.rule? ref = some r ∧ r.categories = cs

/-- The templates and the categories of every rule go by their keys or by allowed names. -/
structure Named (allowed : String → String → Prop) (m : Model) : Prop where
  templates : m.templates.NamedBy allowed
  rules : ∀ (ref : RuleRef) {r : Rule}, m.rule? ref = some r → r.categories.NamedBy allowed

variable {allowed : String → String → Prop} {m : Model}

theorem named_iff : m.Named allowed ↔ ∀ cs, m.HasTable cs → cs.NamedBy allowed := by
  constructor
  · rintro named cs (rfl | ⟨ref, r, found, rfl⟩)
    · exact named.templates
    · exact named.rules ref found
  · exact fun all => ⟨all _ (Or.inl rfl), fun ref r found => all _ (Or.inr ⟨ref, r, found, rfl⟩)⟩

namespace Named

theorem mapRules (named : m.Named allowed) {f : Rule → Rule} (each : ∀ r : Rule,
    r.categories.NamedBy allowed → (f r).categories.NamedBy allowed) :
    (m.mapRules f).Named allowed where
  templates := named.templates
  rules ref r found := by
    rw [rule?_mapRules] at found
    obtain ⟨old, there, rfl⟩ := Option.map_eq_some_iff.mp found
    exact each old (named.rules ref there)

theorem modifyRule (named : m.Named allowed) (ref : RuleRef) {f : Rule → Rule} (each : ∀ r : Rule,
    r.categories.NamedBy allowed → (f r).categories.NamedBy allowed) :
    (m.modifyRule ref f).Named allowed where
  templates := by cases ref <;> exact named.templates
  rules ref' r found := by
    rw [rule?_modifyRule] at found
    split at found
    · obtain ⟨old, there, rfl⟩ := Option.map_eq_some_iff.mp found
      exact each old (named.rules ref' there)
    · exact named.rules ref' found

theorem withRules (named : m.Named allowed) {rules : List Rule}
    (each : ∀ r ∈ rules, r.categories.NamedBy allowed) : Named allowed { m with rules } where
  templates := named.templates
  rules ref r found := by
    cases ref with
    | player => exact named.rules .player found
    | general => exact named.rules .general found
    | declared i => exact each r (List.mem_of_getElem? found)

theorem declared (named : m.Named allowed) {r : Rule} (mem : r ∈ m.rules) :
    r.categories.NamedBy allowed := by
  obtain ⟨i, at_i⟩ := List.mem_iff_getElem?.mp mem
  exact named.rules (.declared i) at_i

theorem reconcile (named : m.Named allowed) : m.reconcile.Named allowed :=
  named.mapRules fun _ own => own.reconcileRule named.templates

theorem addRule (named : m.Named allowed) {m' : Model} {name : String} {matcher : Matcher}
    {ref : RuleRef} (ok : m.addRule name matcher = .ok (m', ref)) : m'.Named allowed := by
  obtain ⟨_, rfl, _⟩ := addRule_ok ok
  refine named.withRules fun r mem => ?_
  rcases List.mem_append.mp mem with old | new
  · exact named.declared old
  · rw [List.mem_singleton.mp new]
    exact named.templates.map (f := Category.cleared) fun _ => rfl

theorem removeRule (named : m.Named allowed) {m' : Model} {i : Nat} {r : Rule}
    (ok : m.removeRule i = .ok (m', r)) : m'.Named allowed := by
  obtain ⟨_, rfl⟩ := removeRule_ok ok
  exact named.withRules fun r mem => named.declared (List.mem_of_mem_eraseIdx mem)

theorem addCategory (named : m.Named allowed) (c : Category) : (m.addCategory c).Named allowed := by
  have templates : Named allowed { m with templates := m.templates.insert c.name c.cleared } :=
    ⟨named.templates.insert rfl, fun ref r found => named.rules ref (by cases ref <;> exact found)⟩
  exact templates.mapRules
    (f := fun r => { r with categories := r.categories.insertNew c.name c.cleared })
    fun r own => own.insertNew rfl

theorem setPlaylist (named : m.Named allowed) {m' : Model} {ref : RuleRef} {category : String}
    {stance : Nat} {q : Playlist} (ok : m.setPlaylist ref category stance q = .ok m') :
    m'.Named allowed := by
  obtain ⟨_, _, _, _, _, _, rfl⟩ := setPlaylist_ok ok
  exact named.modifyRule ref fun r own =>
    own.modify (f := fun c => c.modifyStance stance fun _ => q) (fun _ => rfl) category

theorem edited (named : m.Named allowed) (e : ModelEdit) : (m.edited e).Named allowed := by
  cases e with
  | addRule name matcher =>
    rw [Model.edited]
    split
    next => exact named
    next ok => exact named.addRule ok
  | removeRule i =>
    rw [Model.edited]
    split
    next => exact named
    next ok => exact named.removeRule ok
  | addCategory c => exact named.addCategory c
  | reconcile => exact named.reconcile
  | setPlaylist ref category stance q =>
    rw [Model.edited]
    split
    next => exact named
    next ok => exact named.setPlaylist ok

theorem editedAll (named : m.Named allowed) (edits : List ModelEdit) :
    (m.editedAll edits).Named allowed := by
  induction edits generalizing m with
  | nil => exact named
  | cons e edits ih => exact ih (named.edited e)

end Named

end Model

namespace RulesFile
open Categories (NamedBy)

/-- The table is read from the file: the templates, or the categories of a rule that is declared or
stands in the place of a built-in one. -/
inductive GivesTable (d : Data) : Categories → Prop where
  | templates {x : Data} (found : d.get? "templates" = some x) : GivesTable d (categories x)
  | player {r : Rule} (read : (d.get? "player").bind rule? = some r) : GivesTable d r.categories
  | general {r : Rule} (read : (d.get? "general").bind rule? = some r) : GivesTable d r.categories
  | declared {r : Rule} (mem : r ∈ declared d) : GivesTable d r.categories

/-- The file has a category of the name under the key. -/
def GivesName (d : Data) (key name : String) : Prop :=
  ∃ cs c, GivesTable d cs ∧ cs.get? key = some c ∧ c.name = name

variable {allowed : String → String → Prop} {d : Data}

theorem namedBy_builtInRule {templates : Categories} (shared : templates.NamedBy allowed)
    {key : String} (plain : Rule) (empty : plain.categories = .empty)
    (given : ∀ r, (d.get? key).bind rule? = some r → r.categories.NamedBy allowed) :
    (builtInRule d key (Model.reconcileRule templates plain)).categories.NamedBy allowed := by
  unfold builtInRule
  split
  next => exact NamedBy.reconcileRule (empty ▸ NamedBy.empty) shared
  next r read => exact given r read

theorem namedBy_of_builtInRule {templates : Categories} {key : String} {fallback : Rule}
    (named : (Model.reconcileRule templates (builtInRule d key fallback)).categories.NamedBy allowed)
    {r : Rule} (read : (d.get? key).bind rule? = some r) : r.categories.NamedBy allowed := by
  have own := named.of_reconcileRule
  rw [builtInRule, read] at own
  exact own

theorem named_model_iff :
    (model d).Named allowed ↔ ∀ cs, GivesTable d cs → cs.NamedBy allowed := by
  constructor
  · intro named cs given
    cases given with
    | @templates x found =>
      have templates : (model d).templates = categories x := by
        change ((d.get? "templates").map categories).getD _ = _
        rw [found, Option.map_some, Option.getD_some]
      exact templates ▸ named.templates
    | player read => exact namedBy_of_builtInRule (named.rules .player rfl) read
    | general read => exact namedBy_of_builtInRule (named.rules .general rfl) read
    | declared mem => exact (named.declared (List.mem_map_of_mem mem)).of_reconcileRule
  · intro given
    have shared :
        (((d.get? "templates").map categories).getD Categories.builtIn).NamedBy allowed := by
      cases found : d.get? "templates" with
      | none => exact fun key c found => Or.inl (Categories.keyed_builtIn found)
      | some x => exact given _ (.templates found)
    -- A built-in rule that the file does not give is filled from the templates of the file.
    have player := namedBy_builtInRule shared ⟨"Player", .player, .empty⟩ rfl
      fun r read => given _ (.player read)
    have general := namedBy_builtInRule shared ⟨"General NPC", .general, .empty⟩ rfl
      fun r read => given _ (.general read)
    refine Model.Named.reconcile ⟨shared, fun ref r found => ?_⟩
    cases ref with
    | player => exact Option.some.inj found ▸ player
    | general => exact Option.some.inj found ▸ general
    | declared i => exact given _ (.declared (List.mem_of_getElem? found))

/-- However a model read from a file is edited, it is keyed by name, and then the names in each of
its tables are distinct, exactly if the file gives each category under its name.  Whatever the file
gives, a category goes by its key or by a name that the file has under it. -/
theorem keyed_by_name_iff (d : Data) :
    ((∀ edits cs, ((model d).editedAll edits).HasTable cs → cs.Keyed ∧ cs.NamesDistinct) ↔
      ∀ cs, GivesTable d cs → cs.Keyed) ∧
    ∀ edits cs, ((model d).editedAll edits).HasTable cs → cs.NamedBy (GivesName d) := by
  refine ⟨⟨fun keyed cs given => ?_, fun given edits cs has => ?_⟩, fun edits => ?_⟩
  · have named : (model d).Named fun _ _ => False := Model.named_iff.mpr fun cs has =>
      Categories.keyed_iff_namedBy.mp (keyed [] cs has).1
    exact Categories.keyed_iff_namedBy.mpr (named_model_iff.mp named cs given)
  · have named : (model d).Named fun _ _ => False := named_model_iff.mpr fun cs gives =>
      Categories.keyed_iff_namedBy.mp (given cs gives)
    have keyed := Categories.keyed_iff_namedBy.mpr
      (Model.named_iff.mp (named.editedAll edits) cs has)
    exact ⟨keyed, keyed.namesDistinct⟩
  · have named : (model d).Named (GivesName d) := named_model_iff.mpr fun cs gives key c found =>
      Or.inr ⟨cs, c, gives, found, rfl⟩
    exact Model.named_iff.mp (named.editedAll edits)

theorem keyed_by_name_iff_damaged :
    ((model damaged).edited (.addCategory (.plain "Katana" 1))).rules.map
      (fun r => r.categories.keys) = [["Bow", "Sword", "Katana"]] ∧
    (∀ cs, GivesTable damaged cs → cs.Keyed) ∧
    ∀ cs, ((model damaged).edited (.addCategory (.plain "Katana" 1))).HasTable cs →
      cs.Keyed ∧ cs.NamesDistinct := by
  have given : ∀ cs, GivesTable damaged cs → cs.Keyed := by
    intro cs gives
    cases gives with
    | templates found =>
      cases found
      exact Categories.keyed_of_forall_mem (by decide +kernel)
    | player read => cases read
    | general read => cases read
    | @declared r mem =>
      have each : ∀ r ∈ declared damaged, ∀ e ∈ r.categories.toList, e.2.name = e.1 := by
        decide +kernel
      exact Categories.keyed_of_forall_mem (each r mem)
  exact ⟨by decide +kernel, given,
    (keyed_by_name_iff damaged).1.mpr given [.addCategory (.plain "Katana" 1)]⟩

/-- Battleaxes and warhammers, stored under their own keys by one name. -/
def twoHanded : Data :=
  .record [("templates", .record [
    ("Battleaxe",
      { Category.plain "Two-handed" 6 with rightKeywords := ["WeapTypeBattleaxe"] }.toData),
    ("Warhammer",
      { Category.plain "Two-handed" 6 with rightKeywords := ["WeapTypeWarhammer"] }.toData)])]

/-- Categories of one name are stored under two keys, and then neither excludes the keywords of the
other. -/
theorem one_name_under_two_keys :
    (model twoHanded).templates.toList.map (fun e => (e.1, e.2.name)) =
      [("Battleaxe", "Two-handed"), ("Warhammer", "Two-handed")] ∧
    ¬ (model twoHanded).templates.Keyed ∧ ¬ (model twoHanded).templates.NamesDistinct ∧
    (model twoHanded).player.categories.values.map (fun c => (c.rightType, c.rightKeywords)) =
      [(6, ["WeapTypeBattleaxe"]), (6, ["WeapTypeWarhammer"])] ∧
    ∀ c ∈ (model twoHanded).player.categories.values,
      Exclusion.competing (model twoHanded).player.categories c .right = [] := by
  have axe : ∃ c, (model twoHanded).templates.get? "Battleaxe" = some c ∧ c.name = "Two-handed" :=
    ⟨_, rfl, rfl⟩
  have hammer : ∃ c, (model twoHanded).templates.get? "Warhammer" = some c ∧
      c.name = "Two-handed" := ⟨_, rfl, rfl⟩
  obtain ⟨c, found, named⟩ := axe
  obtain ⟨c', found', named'⟩ := hammer
  refine ⟨by decide +kernel, fun keyed => ?_, fun distinct => ?_, by decide +kernel,
    fun c inTable => ?_⟩
  · exact absurd (named.symm.trans (keyed found)) (by decide)
  · exact absurd (distinct found found' (named.trans named'.symm)) (by decide)
  · -- Only a category of another name competes, and here all have one name.
    have same : ∀ c ∈ (model twoHanded).player.categories.values, c.name = "Two-handed" := by
      decide +kernel
    have alone : Exclusion.competitors (model twoHanded).player.categories c .right = [] := by
      refine List.eq_nil_iff_forall_not_mem.mpr fun other competes => ?_
      obtain ⟨there, names, _⟩ := Exclusion.mem_competitors.mp competes
      exact names ((same other there).trans (same c inTable).symm)
    rw [Exclusion.competing, alone]
    rfl

end RulesFile

end Movesets
