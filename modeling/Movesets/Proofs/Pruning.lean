import Movesets.Candidates
import Movesets.Proofs.Distribution
import Movesets.Proofs.Ordinals
import Movesets.Proofs.Outlines
import Movesets.VariantName

set_option autoImplicit false

/-!
# Deselecting and deleting

A model is pruned by deleting every entry and every variant that is not selected.  The order of a
pruned playlist has the same variants under the same ordinals, at other positions; nothing that is
exported, counted, named, resolved or offered depends on these positions.
-/

namespace Movesets

/-- The entry without the variants that are not selected. -/
def Entry.pruned (e : Entry) : Entry := { e with variants := e.variants.filter Variant.selected }

def Playlist.pruned (p : Playlist) : Playlist := (p.filter Entry.selected).map Entry.pruned

def Category.pruned (c : Category) : Category := { c with stances := c.stances.map Playlist.pruned }

def Rule.pruned (r : Rule) : Rule := { r with categories := r.categories.map Category.pruned }

/-- The model with all unselected entries and variants deleted. -/
def Model.pruned (m : Model) : Model :=
  { m.mapRules Rule.pruned with templates := m.templates.map Category.pruned }

/-- A placement but for its position. -/
def Placement.unplaced (q : Placement) : Placement := { q with entryIndex := 0, variantIndex := 0 }

namespace Playlist

@[simp] theorem filter_pruned (p : Playlist) : p.pruned.filter Entry.selected = p.pruned := by
  rw [List.filter_eq_self]
  intro e mem
  obtain ⟨whole, kept, rfl⟩ := List.mem_map.mp mem
  exact (List.mem_filter.mp kept).2

theorem variants_selectedVariants (i : Nat) (e : Entry) :
    (selectedVariants i e).map (·.2.2) = e.variants.filter Variant.selected := by
  rw [selectedVariants, List.map_map]
  conv => rhs; rw [← List.zipIdx_map_fst 0 e.variants, List.filter_map]
  rfl

/-- What is selected, apart from where it stands. -/
theorem variants_selection (p : Playlist) : (selection p).map (·.2.2) =
    (p.filter Entry.selected).flatMap fun e => e.variants.filter Variant.selected := by
  have entries : p.filter Entry.selected =
      (p.zipIdx.filter fun e => e.1.selected).map Prod.fst := by
    conv => lhs; rw [← List.zipIdx_map_fst 0 p, List.filter_map]
    rfl
  rw [selection, List.map_flatMap, entries, List.flatMap_map]
  simp only [variants_selectedVariants]

theorem variants_selection_pruned (p : Playlist) :
    (selection p.pruned).map (·.2.2) = (selection p).map (·.2.2) := by
  rw [variants_selection, variants_selection, filter_pruned, pruned, List.flatMap_map]
  simp only [Entry.pruned, List.filter_filter, Bool.and_self]

theorem unplaced_number_congr {sel sel' : List (Nat × Nat × Variant)}
    (same : sel.map (·.2.2) = sel'.map (·.2.2)) (n : Nat) :
    (number n sel).map Placement.unplaced = (number n sel').map Placement.unplaced := by
  induction sel generalizing n sel' with
  | nil =>
    cases sel' with
    | nil => rfl
    | cons x rest => cases same
  | cons x rest ih =>
    cases sel' with
    | nil => cases same
    | cons y rest' =>
      obtain ⟨i, j, v⟩ := x
      obtain ⟨i', j', w⟩ := y
      obtain ⟨rfl, tails⟩ := List.cons.inj same
      simp only [number]
      split
      · exact congrArg (List.cons _) (ih tails (n + 1))
      · split
        · exact ih tails n
        · exact congrArg (List.cons _) (ih tails n)

theorem unplaced_order_pruned (p : Playlist) :
    (order p.pruned).map Placement.unplaced = (order p).map Placement.unplaced :=
  unplaced_number_congr (variants_selection_pruned p) 0

@[simp] theorem parentCount_pruned (p : Playlist) : parentCount p.pruned = parentCount p := by
  have count (q : Playlist) : (order q).countP Placement.isParent =
      ((order q).map Placement.unplaced).countP Placement.isParent := by
    rw [List.countP_map]
    rfl
  rw [parentCount, count, unplaced_order_pruned, ← count]
  rfl

@[simp] theorem selectedCount_pruned (p : Playlist) : selectedCount p.pruned = selectedCount p := by
  rw [selectedCount, selectedCount, List.countP_eq_length_filter, List.countP_eq_length_filter,
    filter_pruned, pruned, List.length_map]

@[simp] theorem candidates_pruned (p : Playlist) (s : Stats) :
    p.pruned.candidates s = p.candidates s := by
  have fitting : p.pruned.fitting s = p.fitting s := by
    unfold Playlist.fitting
    rw [filter_pruned, pruned, List.zipIdx_map, List.filter_map, List.map_map]
    rfl
  rw [Playlist.candidates, fitting]
  rfl

end Playlist

namespace VariantName
open Playlist

variable (l : Library) (direction : Nat)

theorem amongPlacements_unplaced (ps : List Placement) :
    amongPlacements l direction (ps.map Placement.unplaced) = amongPlacements l direction ps := by
  cases ps with
  | nil => rfl
  | cons parent rest =>
    rw [List.map_cons, amongPlacements, amongPlacements, List.takeWhile_map, List.find?_map,
      Option.bind_map]
    rfl

@[simp] theorem active_pruned (p : Playlist) (ordinal : UInt32) :
    active p.pruned l ordinal direction = active p l ordinal direction := by
  have name (q : Playlist) : active q l ordinal direction = amongPlacements l direction
      (((order q).map Placement.unplaced).dropWhile
        fun r => !(r.isParent && r.ordinal == ordinal)) := by
    rw [List.dropWhile_map, amongPlacements_unplaced]
    rfl
  rw [name, unplaced_order_pruned, ← name]

end VariantName

namespace Block
open Playlist

/-- What a document keeps of a block. -/
def exported (b : Block) : Source × Condition := (b.source, b.condition)

theorem childGates_unplaced (ps : List Placement) :
    childGates (ps.map Placement.unplaced) = childGates ps := by
  rw [childGates, List.takeWhile_map, List.filterMap_map]
  rfl

theorem exported_ofPlacements (shared : List Condition) (ps : List Placement) :
    (ofPlacements shared (ps.map Placement.unplaced)).map exported =
      (ofPlacements shared ps).map exported := by
  induction ps with
  | nil => rfl
  | cons q rest ih =>
    have gates : gateParts q.unplaced (rest.map Placement.unplaced) = gateParts q rest := by
      unfold gateParts
      rw [childGates_unplaced]
      rfl
    have head : (ofPlacement shared q.unplaced (rest.map Placement.unplaced)).exported =
        (ofPlacement shared q rest).exported := by
      rw [exported, condition, ofPlacement, gates]
      rfl
    rw [List.map_cons, ofPlacements, List.map_cons, ih, head]
    rfl

theorem exported_compileAll_pruned (cs : Categories) (rule : Option Rule) (c : Category)
    (stance : Nat) (p : Playlist) : (compileAll cs rule c stance p.pruned).map exported =
      (compileAll cs rule c stance p).map exported := by
  rw [compileAll, ← exported_ofPlacements, unplaced_order_pruned, exported_ofPlacements]
  rfl

theorem conditionsFor_congr {blocks blocks' : List Block}
    (same : blocks.map exported = blocks'.map exported) (s : Source) :
    conditionsFor s blocks = conditionsFor s blocks' := by
  have share (bs : List Block) : conditionsFor s bs =
      ((bs.map exported).filter fun x => x.1 == s).map (·.2) := by
    rw [List.filter_map, List.map_map]
    rfl
  rw [share, same, ← share]

end Block

@[simp] theorem Category.cleared_pruned (c : Category) : c.pruned.cleared = c.cleared := rfl

@[simp] theorem Rule.cleared_pruned (r : Rule) : r.pruned.cleared = r.cleared := by
  rw [Rule.cleared, Rule.pruned, Table.map_map]
  rfl

theorem Category.stance?_pruned (c : Category) (i : Nat) :
    c.pruned.stance? i = (c.stance? i).map Playlist.pruned := by
  simp [stance?, Category.pruned]

theorem Rule.playlist?_pruned (r : Rule) (category : String) (stance : Nat) :
    r.pruned.playlist? category stance = (r.playlist? category stance).map Playlist.pruned := by
  rw [playlist?, playlist?, category?, category?, Rule.pruned, Table.get?_map]
  cases r.categories.get? category with
  | none => rfl
  | some c => exact c.stance?_pruned stance

@[simp] theorem Rule.candidates_pruned (r : Rule) (category : String) (s : Stats) :
    r.pruned.candidates category s = r.candidates category s := by
  rw [candidates, candidates, playlist?_pruned, Option.map_map]
  simp only [Function.comp_def, Playlist.candidates_pruned]

@[simp] theorem Rule.available_pruned (r : Rule) (category : String) :
    r.pruned.available category = r.available category := by
  rw [available, available, playlist?_pruned, Option.map_map]
  simp only [Function.comp_def, Playlist.selectedCount_pruned]

namespace Document

theorem exported_stanceBlocks_pruned (r : Rule) (c : Category) (stance : Nat) :
    (stanceBlocks r.pruned c.pruned stance).map Block.exported =
      (stanceBlocks r c stance).map Block.exported := by
  unfold stanceBlocks
  rw [Category.stance?_pruned]
  cases c.stance? stance with
  | none => rfl
  | some p =>
    rw [← Block.exported_compileAll_pruned]
    exact congrArg (List.map Block.exported)
      (Block.compileAll_congr r.cleared_pruned c.cleared_pruned stance p.pruned)

theorem exported_ruleBlocks_pruned (r : Rule) :
    (ruleBlocks r.pruned).map Block.exported = (ruleBlocks r).map Block.exported := by
  have categories : r.pruned.categories.values = r.categories.values.map Category.pruned :=
    Table.values_map ..
  rw [ruleBlocks, ruleBlocks, stancesOf_congr r.cleared_pruned, categories, List.flatMap_map]
  simp only [List.map_flatMap, exported_stanceBlocks_pruned]

end Document

namespace Model

theorem allRules_pruned (m : Model) :
    m.pruned.allRules = m.allRules.map fun r => (r.1, r.2.pruned) := by
  simp only [allRules, pruned, mapRules, List.zipIdx_map, List.map_cons, List.map_map]
  rfl

theorem rule?_pruned (m : Model) (ref : RuleRef) :
    m.pruned.rule? ref = (m.rule? ref).map Rule.pruned := by
  cases ref with
  | player | general => rfl
  | declared i => simp [rule?, pruned, mapRules]

theorem playlist?_pruned (m : Model) (ref : RuleRef) (category : String) (stance : Nat) :
    m.pruned.playlist? ref category stance =
      (m.playlist? ref category stance).map Playlist.pruned := by
  rw [playlist?, playlist?, rule?_pruned]
  cases m.rule? ref with
  | none => rfl
  | some r => exact r.playlist?_pruned category stance

theorem exported_modelBlocks_pruned (m : Model) :
    (Document.modelBlocks m.pruned).map Block.exported =
      (Document.modelBlocks m).map Block.exported := by
  rw [Document.modelBlocks, Document.modelBlocks, allRules_pruned, List.flatMap_map]
  simp only [List.map_flatMap, Document.exported_ruleBlocks_pruned]

theorem inTier?_pruned (m : Model) (a : Actor) (category : String) (kind : RuleKind) :
    Resolution.inTier? m.pruned a category kind = Resolution.inTier? m a category kind := by
  have eligible (r : Rule) : Resolution.Eligible kind a category r.pruned ↔
      Resolution.Eligible kind a category r := by
    simp only [Resolution.Eligible, Rule.available_pruned]
    rfl
  simp only [Resolution.inTier?, pruned, mapRules, List.zipIdx_map, List.find?_map,
    Option.map_map, Function.comp_def, Prod.map, eligible, Rule.available_pruned, id]

theorem resolve_pruned (m : Model) (actor : Option Actor) (category : String) :
    m.pruned.resolve actor category = m.resolve actor category := by
  cases actor with
  | none => rfl
  | some a =>
    have tiers : Resolution.inTier? m.pruned a category = Resolution.inTier? m a category :=
      funext (m.inTier?_pruned a category)
    have general : m.pruned.general.available category = m.general.available category :=
      m.general.available_pruned category
    simp only [resolve, tiers, general]

/-- Documents, parent counts, names, resolutions and candidates are those of the pruned model. -/
theorem pruned_agrees (m : Model) (l : Library) :
    Document.build m.pruned l = Document.build m l ∧
    (∀ ref category stance, (m.pruned.playlist? ref category stance).map Playlist.parentCount =
      (m.playlist? ref category stance).map Playlist.parentCount) ∧
    (∀ ref category stance ordinal direction,
      (m.pruned.playlist? ref category stance).map
          (fun p => VariantName.active p l ordinal direction) =
        (m.playlist? ref category stance).map
          fun p => VariantName.active p l ordinal direction) ∧
    (∀ actor category, m.pruned.resolve actor category = m.resolve actor category) ∧
    (∀ ref category stats,
      (m.pruned.rule? ref).map (fun r => r.candidates category stats) =
        (m.rule? ref).map fun r => r.candidates category stats) := by
  refine ⟨?_, ?_, ?_, m.resolve_pruned, ?_⟩
  · rw [Document.build_eq, Document.build_eq]
    refine List.map_congr_left fun a _ => ?_
    rw [Document.ofAnimation, Block.conditionsFor_congr m.exported_modelBlocks_pruned]
    rfl
  · intro ref category stance
    simp [playlist?_pruned, Function.comp_def]
  · intro ref category stance ordinal direction
    simp [playlist?_pruned, Function.comp_def]
  · intro ref category stats
    simp [rule?_pruned, Function.comp_def]

end Model

end Movesets
