import Movesets.Proofs.RoundTrip
import Movesets.Proofs.WellFormed
import Movesets.Proofs.WrittenFiles

set_option autoImplicit false

/-!
# Saving a model and loading it

The tolerant reader of the rules file drops and repairs nothing of a well-formed model: every part
decodes, no declared rule is taken for another, and reconciling has nothing to do.  So a model is
the same after it is saved and loaded.
-/

namespace Movesets

/-- No threshold of the templates or of a rule is a NaN. -/
structure Model.Numeric (m : Model) : Prop where
  templates : ∀ c ∈ m.templates.values, c.Numeric
  rules : ∀ x ∈ m.allRules, ∀ c ∈ x.2.categories.values, c.Numeric

instance (m : Model) : Decidable m.Numeric :=
  decidable_of_iff ((∀ c ∈ m.templates.values, c.Numeric) ∧
    ∀ x ∈ m.allRules, ∀ c ∈ x.2.categories.values, c.Numeric)
    ⟨fun h => ⟨h.1, h.2⟩, fun h => ⟨h.1, h.2⟩⟩

namespace Data

theorem isEmptyFile_pretty_map (D : Dialect) (f : Key × Data) (fs : List (Key × Data)) :
    isEmptyFile ((map (f :: fs)).pretty D) = false := by
  have parts : prettyParts D 0 (map (f :: fs)) =
      "\x7b" :: (prettyFields D 1 (f :: fs) ++ [lineBreak 0, "\x7d"]) := rfl
  have brace : "\x7b".toList = ['\x7b'] := rfl
  rw [isEmptyFile, toList_pretty, parts, List.flatMap_cons, brace, List.singleton_append,
    List.all_cons]
  rfl

end Data

theorem filterMap_map_of_some {α β : Type} {decode : β → Option α} {f : α → β} {xs : List α}
    (each : ∀ x ∈ xs, decode (f x) = some x) : (xs.map f).filterMap decode = xs := by
  rw [List.filterMap_map]
  exact (List.filterMap_congr each).trans List.filterMap_some

namespace RulesFile

theorem categories_toData {cs : Categories} (numeric : ∀ c ∈ cs.values, c.Numeric) :
    categories cs.toData = cs := by
  have read : ((cs.toList.map fun e => (e.1, e.2.toData)).map
      fun f => (Key.text f.1, f.2)).filterMap category? = cs.toList := by
    rw [List.map_map]
    refine filterMap_map_of_some fun e mem => ?_
    have decoded := Category.ofData?_toData .lenient (numeric e.2 (List.mem_map_of_mem mem))
    change (Category.ofData? .lenient e.2.toData).map (fun c => (e.1, c)) = some e
    rw [decoded]
    rfl
  change Table.ofList (((cs.toList.map fun e => (e.1, e.2.toData)).map
    fun f => (Key.text f.1, f.2)).filterMap category?) = cs
  rw [read]
  exact Table.ext_toList (Table.toList_ofList cs.nodup)

theorem rule?_toData {r : Rule} (readable : r.matcher.Readable)
    (numeric : ∀ c ∈ r.categories.values, c.Numeric) : rule? r.toData = some r := by
  have matcher : r.toData.get? "matcher" = some r.matcher.toData := by simp [Rule.toData]
  have table : r.toData.get? "categories" = some r.categories.toData := by simp [Rule.toData]
  have named : r.toData.get? "name" = some (.text r.name) := by simp [Rule.toData]
  rw [rule?, matcher, table, Option.bind_some, Matcher.ofData?_toData .lenient readable,
    Option.map_some, Option.map_some, Option.getD_some, categories_toData numeric, name, named]
  rfl

theorem foldl_declare {rules rest : List Rule} (declared : Declarable (rules ++ rest)) :
    rest.foldl declare rules = rules ++ rest := by
  induction rest generalizing rules with
  | nil => simp
  | cons r rest ih =>
    have fresh : (rules.any fun s => s.matcher == r.matcher) = false := by
      refine List.any_eq_false.mpr fun s mem same => ?_
      have nodup := declared.nodup
      rw [List.map_append, List.map_cons, List.nodup_append] at nodup
      exact nodup.2.2 _ (List.mem_map_of_mem mem) _ List.mem_cons_self (beq_iff_eq.mp same)
    have added : declare rules r = rules ++ [r] := by
      rw [declare, declared.notBuiltIn r (by simp), fresh]
      rfl
    have regroup : rules ++ r :: rest = (rules ++ [r]) ++ rest := by simp
    rw [List.foldl_cons, added, regroup]
    exact ih (regroup ▸ declared)

theorem builtInRule_toData {d : Data} {key : String} {r fallback : Rule}
    (found : d.get? key = some r.toData) (same : fallback.matcher = r.matcher)
    (readable : r.matcher.Readable) (numeric : ∀ c ∈ r.categories.values, c.Numeric) :
    builtInRule d key fallback = r := by
  rw [builtInRule, found, Option.bind_some, rule?_toData readable numeric, same]

/-- A well-formed model is read from its data as it is. -/
theorem model_toData {m : Model} (wf : m.WellFormed)
    (readable : ∀ r ∈ m.rules, r.matcher.Readable) (numeric : m.Numeric) :
    model m.toData = m := by
  have templates : m.toData.get? "templates" = some m.templates.toData := by simp [Model.toData]
  have player : builtInRule m.toData "player" (Model.ofTemplates m.templates).player = m.player := by
    refine builtInRule_toData (by simp [Model.toData]) wf.player.symm ?_
      (numeric.rules (.player, m.player) (by simp [Model.allRules]))
    rw [wf.player]
    trivial
  have general : builtInRule m.toData "general" (Model.ofTemplates m.templates).general =
      m.general := by
    refine builtInRule_toData (by simp [Model.toData]) wf.general.symm ?_
      (numeric.rules (.general, m.general) (by simp [Model.allRules]))
    rw [wf.general]
    trivial
  have rules : declared m.toData = m.rules := by
    have listed : m.toData.get? "rules" = some (.list (m.rules.map Rule.toData)) := by
      simp [Model.toData]
    have read : (m.rules.map Rule.toData).filterMap rule? = m.rules := by
      refine filterMap_map_of_some fun r mem => ?_
      obtain ⟨i, at_i⟩ := List.mem_iff_getElem?.mp mem
      exact rule?_toData (readable r mem) (numeric.rules (.declared i, r)
        (Model.mem_allRules.mpr (Or.inr (Or.inr ⟨i, rfl, at_i⟩))))
    rw [declared, listed, Option.bind_some, Data.list?, Option.getD_some, read]
    exact foldl_declare ⟨wf.declared, wf.nodup⟩
  rw [model, templates, Option.map_some, Option.getD_some, categories_toData numeric.templates,
    player, general, rules]
  exact wf.reconcile_eq

end RulesFile

/-- A model that is built from templates or read from data, and edited in any way, is read from its
data as it is, and so loading what was saved gives the model back. -/
theorem Model.Reached.reload {m : Model} (reached : m.Reached)
    (readable : ∀ r ∈ m.rules, r.matcher.Readable) (numeric : m.Numeric) :
    RulesFile.model m.toData = m ∧
    ∀ (dataDir : String) (t t' : FileTree),
      Data.read? .configuration (m.toData.pretty .configuration) = some m.toData →
      t.perform (Config.saveModel dataDir m) = (.ok (), t') →
      t'.perform (Config.loadModel dataDir) = (.ok m, t') := by
  have same := RulesFile.model_toData reached.wellFormed readable numeric
  refine ⟨same, fun dataDir t t' written saved => ?_⟩
  rw [Config.saveModel, FileTree.perform_save] at saved
  cases stored : t.writeText? (ConfigFile.path .rules dataDir) (m.toData.pretty .configuration) with
  | none =>
    rw [stored] at saved
    cases saved
  | some stored' =>
    rw [stored] at saved
    cases saved
    refine FileTree.perform_load (FileTree.readText?_of_writeText? stored) _ ?_
    have value : Data.isEmptyFile (m.toData.pretty .configuration) = false :=
      Data.isEmptyFile_pretty_map ..
    rw [Config.parseModel?, value, if_neg (by decide), written, Option.map_some, same]

/-- A model with one rule, for a faction. -/
def bandits : Model :=
  (Model.ofTemplates .empty).edited (.addRule "Bandits" (.faction ⟨"Skyrim.esm", 0x1BCC0⟩))

/-- The rule has a moveset for swords. -/
def armedBandits : Model :=
  (bandits.edited (.addCategory (.plain "Sword" 1))).edited
    (.setPlaylist (.declared 0) "Sword" 0 Block.lone)

def banditsFile : String :=
"\x7b
  \"templates\": \x7b\x7d,
  \"player\": \x7b
    \"name\": \"Player\",
    \"matcher\": \x7b
      \"type\": \"Player\"
    \x7d,
    \"categories\": \x7b\x7d
  \x7d,
  \"general\": \x7b
    \"name\": \"General NPC\",
    \"matcher\": \x7b
      \"type\": \"General\"
    \x7d,
    \"categories\": \x7b\x7d
  \x7d,
  \"rules\": [
    \x7b
      \"name\": \"Bandits\",
      \"matcher\": \x7b
        \"type\": \"Faction\",
        \"target\": \"Skyrim.esm|0x0001BCC0\"
      \x7d,
      \"categories\": \x7b\x7d
    \x7d
  ]
\x7d"

set_option maxRecDepth 10000 in
theorem pretty_bandits : bandits.toData.pretty .configuration = banditsFile := by
  rw [← String.toList_inj, Data.toList_pretty, show banditsFile = String.ofList _ from rfl,
    String.toList_ofList]
  rfl

set_option maxRecDepth 10000 in
theorem read?_banditsFile : Data.read? .configuration banditsFile = some bandits.toData := by
  rw [Data.read?, show banditsFile = String.ofList _ from rfl, String.toList_ofList]
  rfl

theorem Model.Reached.reload_bandits :
    RulesFile.model armedBandits.toData = armedBandits ∧
    ∃ t, (FileTree.empty ["data"]).perform (Config.saveModel "" bandits) = (.ok (), t) ∧
      t.perform (Config.loadModel "") = (.ok bandits, t) := by
  have reached : bandits.Reached := .edited (.ofTemplates .empty) _
  have readable : ∀ r ∈ bandits.rules, r.matcher.Readable := by
    intro r mem
    cases List.mem_singleton.mp mem
    exact ⟨"Skyrim.esm|0x0001BCC0", rfl⟩
  have armed : ∀ r ∈ armedBandits.rules, r.matcher.Readable := by
    intro r mem
    cases List.mem_singleton.mp mem
    exact ⟨"Skyrim.esm|0x0001BCC0", rfl⟩
  have written : Data.read? .configuration (bandits.toData.pretty .configuration) =
      some bandits.toData := by
    rw [pretty_bandits, read?_banditsFile]
  have place : (FileTree.empty ["data"]).place? (ConfigFile.path .rules "") =
      some ["data", "Stancecraft Rules.yaml"] := by decide +kernel
  have saved := (FileTree.empty ["data"]).perform_save .rules "" bandits.toData
  rw [FileTree.writeText?_of_place? place rfl rfl (by decide)] at saved
  exact ⟨(reload (.edited (.edited reached _) _) armed (by decide)).1, _, saved,
    (reload reached readable (by decide)).2 "" _ _ written saved⟩

end Movesets
