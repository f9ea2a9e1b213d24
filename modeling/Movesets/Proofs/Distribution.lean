import Mathlib.Data.List.Basic
import Movesets.Proofs.RuleSeparation
import Movesets.Session

set_option autoImplicit false

/-!
# Blocks handed out to documents

Gathering keeps the conditions of a source in the order in which its blocks come, and handing out
gives each animation what was gathered for its source.  So the documents share out the blocks of a
model: every block of an animation goes to one document, in order, and the counters say how many
did and how many did not.
-/

namespace Movesets

namespace Source

def Before (s t : Source) : Prop :=
  s.modIndex < t.modIndex ∨ s.modIndex = t.modIndex ∧ s.subIndex < t.subIndex

theorem before_of_rank_lt {s t : Source} (h : s.rank < t.rank) : s.Before t := by
  have hs := s.subIndex.toNat_lt
  have ht := t.subIndex.toNat_lt
  simp only [rank, UInt32.size] at h
  rcases Nat.lt_or_ge s.modIndex.toNat t.modIndex.toNat with less | ge
  · exact Or.inl (UInt32.lt_iff_toNat_lt.mpr less)
  · refine Or.inr ⟨UInt32.toNat_inj.mp (by omega), UInt32.lt_iff_toNat_lt.mpr (by omega)⟩

end Source

namespace Library

theorem contains_iff {l : Library} {s : Source} :
    l.contains s = true ↔ s ∈ l.toList.map Animation.source := by
  simp [contains, get?, toList]

theorem sorted_sources (l : Library) :
    (l.toList.map Animation.source).Pairwise Source.Before :=
  List.pairwise_map.mpr (l.sorted.imp Source.before_of_rank_lt)

theorem nodup_sources (l : Library) : (l.toList.map Animation.source).Nodup := by
  refine List.pairwise_map.mpr (l.sorted.imp ?_)
  intro a b less same
  rw [same] at less
  exact Nat.lt_irrefl _ less

end Library

namespace Gathered

def of (g : Gathered) (s : Source) : List Condition := (g.get? s).getD []

theorem get?_add (g : Gathered) (s t : Source) (c : Condition) :
    (g.add s c).get? t = if s = t then some (g.of s ++ [c]) else g.get? t := by
  induction g with
  | nil => simp [add, get?, of]
  | cons e rest ih =>
    obtain ⟨key, cs⟩ := e
    by_cases here : key = s
    · subst here
      simp only [add, get?, of, if_true, Option.getD_some]
      split <;> rfl
    · have elsewhere : of ((key, cs) :: rest) s = of rest s := by simp [of, get?, here]
      simp only [add, if_neg here, get?, ih, elsewhere]
      by_cases hit : key = t
      · have apart : s ≠ t := fun same => here (hit.trans same.symm)
        simp [hit, apart]
      · simp [hit]

theorem of_add (g : Gathered) (s t : Source) (c : Condition) :
    (g.add s c).of t = g.of t ++ if s = t then [c] else [] := by
  unfold of
  rw [get?_add]
  split
  next same => rw [same]; rfl
  next => rw [List.append_nil]

theorem get?_erase_of_ne {s t : Source} (apart : s ≠ t) (g : Gathered) :
    (g.erase s).get? t = g.get? t := by
  induction g with
  | nil => rfl
  | cons e rest ih =>
    obtain ⟨key, cs⟩ := e
    rw [erase] at ih ⊢
    by_cases gone : key = s
    · have other : key ≠ t := fun same => apart (gone.symm.trans same)
      rw [List.filter_cons_of_neg (by simp [gone]), ih, get?, if_neg other]
    · rw [List.filter_cons_of_pos (by simp [gone]), get?, get?, ih]

def Full (g : Gathered) : Prop := ∀ s, g.get? s ≠ some []

theorem Full.add {g : Gathered} (full : g.Full) (s : Source) (c : Condition) :
    (g.add s c).Full := by
  intro t
  rw [get?_add]
  split
  · simp
  · exact full t

theorem Full.elim_get? {g : Gathered} (full : g.Full) (s : Source) :
    (g.get? s).elim .killSwitch .any = Block.choice (g.of s) := by
  have filled := full s
  unfold of
  cases found : g.get? s with
  | none => rfl
  | some cs =>
    cases cs with
    | nil => exact absurd found filled
    | cons c cs => rfl

end Gathered

/-- The conditions that some blocks hold for a source. -/
def Block.conditionsFor (s : Source) (blocks : List Block) : List Condition :=
  (blocks.filter fun b => b.source == s).map Block.condition

namespace Building
open Block

variable {l : Library}

theorem of_collect {s : Source} (known : l.contains s = true) (x : Building) (b : Block) :
    (x.collect l b).gathered.of s = x.gathered.of s ++ conditionsFor s [b] := by
  unfold collect
  by_cases here : b.source = s
  · subst here
    rw [if_pos known]
    simp [Gathered.of_add, conditionsFor]
  · split <;> simp [Gathered.of_add, conditionsFor, here]

theorem full_collect {x : Building} (full : x.gathered.Full) (b : Block) :
    (x.collect l b).gathered.Full := by
  unfold collect
  split
  · exact full.add b.source b.condition
  · exact full

theorem of_foldl_collect {s : Source} (known : l.contains s = true) (blocks : List Block)
    (x : Building) : (blocks.foldl (collect l) x).gathered.of s =
      x.gathered.of s ++ conditionsFor s blocks := by
  induction blocks generalizing x with
  | nil => simp [conditionsFor]
  | cons b rest ih =>
    rw [List.foldl_cons, ih, of_collect known, List.append_assoc]
    simp only [conditionsFor, ← List.map_append, ← List.filter_append, List.singleton_append]

theorem full_foldl_collect (blocks : List Block) {x : Building} (full : x.gathered.Full) :
    (blocks.foldl (collect l) x).gathered.Full := by
  induction blocks generalizing x with
  | nil => exact full
  | cons b rest ih => exact ih (full_collect full b)

/-- Counting one and then the rest counts one more than the rest. -/
theorem count_succ (c : UInt64) (n : Nat) : c + 1 + .ofNat n = c + .ofNat (n + 1) := by
  rw [UInt64.ofNat_add, UInt64.add_assoc, UInt64.add_comm (.ofNat n)]
  rfl

theorem counts_foldl_collect (blocks : List Block) (x : Building) :
    (blocks.foldl (collect l) x).counts =
      ⟨x.counts.documents,
        x.counts.blocks + .ofNat (blocks.countP fun b => l.contains b.source),
        x.counts.dangling + .ofNat (blocks.countP fun b => !l.contains b.source)⟩ := by
  induction blocks generalizing x with
  | nil => simp
  | cons b rest ih =>
    rw [List.foldl_cons, ih, List.countP_cons, List.countP_cons]
    cases known : l.contains b.source <;> simp [collect, known, count_succ]

/-- Handing out takes nothing away from the animations to come, whose sources are others. -/
theorem handOut_documents (x : Building) (as : List Animation)
    (nodup : (as.map Animation.source).Nodup) :
    (x.handOut as).1 = as.map fun a => ⟨a.source, a.name, a.priority, a.capabilities,
      (x.gathered.get? a.source).elim .killSwitch .any⟩ := by
  induction as generalizing x with
  | nil => rfl
  | cons a rest ih =>
    obtain ⟨fresh, nodup⟩ := List.nodup_cons.mp nodup
    rw [handOut, List.map_cons]
    refine congrArg (List.cons _) ((ih _ nodup).trans (List.map_congr_left fun b mem => ?_))
    have apart : a.source ≠ b.source := fun same => fresh (same ▸ List.mem_map_of_mem mem)
    simp only [Gathered.get?_erase_of_ne apart]

theorem handOut_counts (x : Building) (as : List Animation) :
    (x.handOut as).2 = { x.counts with documents := x.counts.documents + .ofNat as.length } := by
  induction as generalizing x with
  | nil => simp [handOut]
  | cons a rest ih => simp only [handOut, ih, List.length_cons, count_succ]

end Building

namespace Document
open Block

/-- The document of an animation that is given its share of some blocks. -/
def ofAnimation (blocks : List Block) (a : Animation) : Document :=
  ⟨a.source, a.name, a.priority, a.capabilities, choice (conditionsFor a.source blocks)⟩

theorem gather_eq (m : Model) (l : Library) :
    gather m l = (modelBlocks m).foldl (Building.collect l) .start := by
  simp only [gather, collectRule, modelBlocks, ruleBlocks, List.foldl_flatMap]

theorem full_gather (m : Model) (l : Library) : (gather m l).gathered.Full := by
  rw [gather_eq]
  exact Building.full_foldl_collect _ fun s => by simp [Building.start, Gathered.get?]

theorem of_gather (m : Model) {l : Library} {s : Source} (known : l.contains s = true) :
    (gather m l).gathered.of s = conditionsFor s (modelBlocks m) := by
  rw [gather_eq, Building.of_foldl_collect known]
  rfl

theorem build_eq (m : Model) (l : Library) :
    build m l = l.toList.map (ofAnimation (modelBlocks m)) := by
  rw [build, buildCounted, Building.handOut_documents _ _ l.nodup_sources]
  refine List.map_congr_left fun a mem => ?_
  have known : l.contains a.source = true := Library.contains_iff.mpr (List.mem_map_of_mem mem)
  rw [ofAnimation, (full_gather m l).elim_get?, of_gather m known]

theorem counts_eq (m : Model) (l : Library) :
    counts m l = ⟨.ofNat l.toList.length,
      .ofNat ((modelBlocks m).countP fun b => l.contains b.source),
      .ofNat ((modelBlocks m).countP fun b => !l.contains b.source)⟩ := by
  rw [counts, buildCounted, Building.handOut_counts, gather_eq, Building.counts_foldl_collect]
  simp [Building.start]

@[simp] theorem parts_choice (cs : List Condition) : (choice cs).parts = cs := by
  cases cs <;> rfl

theorem isKillSwitch_choice (cs : List Condition) : (choice cs).isKillSwitch = cs.isEmpty := by
  cases cs <;> rfl

theorem parts_ofAnimation (blocks : List Block) (a : Animation) :
    (ofAnimation blocks a).condition.parts = conditionsFor a.source blocks :=
  parts_choice _

theorem conditionsFor_eq_nil_iff {s : Source} {blocks : List Block} :
    conditionsFor s blocks = [] ↔ ∀ b ∈ blocks, b.source ≠ s := by
  simp [conditionsFor]

theorem flatMap_conditionsFor_perm (blocks : List Block) {sources : List Source}
    (nodup : sources.Nodup) : (sources.flatMap fun s => conditionsFor s blocks).Perm
      ((blocks.filter fun b => sources.contains b.source).map Block.condition) := by
  induction sources with
  | nil => simp
  | cons s rest ih =>
    obtain ⟨fresh, nodup⟩ := List.nodup_cons.mp nodup
    let both := blocks.filter fun b => (s :: rest).contains b.source
    have own : both.filter (fun b => b.source == s) = blocks.filter fun b => b.source == s := by
      rw [List.filter_filter]
      refine List.filter_congr fun b _ => ?_
      by_cases here : b.source = s <;> simp [here]
    have others : both.filter (fun b => !(b.source == s)) =
        blocks.filter fun b => rest.contains b.source := by
      rw [List.filter_filter]
      refine List.filter_congr fun b _ => ?_
      by_cases here : b.source = s
      · simp [here, fresh]
      · simp [here]
    have split : (both.filter (fun b => b.source == s) ++
        both.filter fun b => !(b.source == s)).Perm both :=
      List.filter_append_perm _ both
    rw [own, others] at split
    calc (s :: rest).flatMap (fun s => conditionsFor s blocks)
      _ = conditionsFor s blocks ++ rest.flatMap fun s => conditionsFor s blocks := rfl
      _ |>.Perm (conditionsFor s blocks ++
          (blocks.filter fun b => rest.contains b.source).map Block.condition) :=
        (ih nodup).append_left _
      _ |>.Perm (both.map Block.condition) := by
        rw [conditionsFor, ← List.map_append]
        exact split.map Block.condition

/-- Building gives one document for each animation, in order of source, and shares out the blocks
of the model: each document is the choice of its blocks in their order, and together the documents
hold every block of an animation once and no other.  A document is switched off exactly when it has
no block, and the counters grow by the documents, by the blocks in them and by those left over. -/
theorem build_distributes (m : Model) (l : Library) (before : Metrics) :
    (build m l).map source = l.toList.map Animation.source ∧
    ((build m l).map source).Pairwise Source.Before ∧
    build m l = l.toList.map (ofAnimation (modelBlocks m)) ∧
    ((build m l).flatMap fun d => d.condition.parts).Perm
      (((modelBlocks m).filter fun b => l.contains b.source).map Block.condition) ∧
    (∀ d ∈ build m l,
      d.condition.parts = conditionsFor d.source (modelBlocks m) ∧
      (d.isDisabled = true ↔ ∀ b ∈ modelBlocks m, b.source ≠ d.source)) ∧
    before.addBuild (counts m l) = { before with
      documents := before.documents + .ofNat (build m l).length
      blocks := before.blocks + .ofNat ((build m l).flatMap fun d => d.condition.parts).length
      dangling := before.dangling +
        .ofNat ((modelBlocks m).countP fun b => !l.contains b.source) } := by
  have sources : (build m l).map source = l.toList.map Animation.source := by
    rw [build_eq, List.map_map]
    rfl
  have shares : ((build m l).flatMap fun d => d.condition.parts).Perm
      (((modelBlocks m).filter fun b => l.contains b.source).map Block.condition) := by
    have known : (fun b : Block => l.contains b.source) =
        fun b => (l.toList.map Animation.source).contains b.source := by
      funext b
      rw [Bool.eq_iff_iff, Library.contains_iff, List.contains_iff_mem]
    have perm := flatMap_conditionsFor_perm (modelBlocks m) l.nodup_sources
    rw [List.flatMap_map] at perm
    rw [known, build_eq, List.flatMap_map]
    simpa only [parts_ofAnimation] using perm
  refine ⟨sources, sources ▸ l.sorted_sources, build_eq m l, shares, ?_, ?_⟩
  · intro d mem
    rw [build_eq] at mem
    obtain ⟨a, _, rfl⟩ := List.mem_map.mp mem
    refine ⟨parts_ofAnimation _ a, ?_⟩
    rw [isDisabled, ofAnimation, isKillSwitch_choice, List.isEmpty_iff, conditionsFor_eq_nil_iff]
  · have documents : (build m l).length = l.toList.length := by rw [build_eq, List.length_map]
    rw [counts_eq, Metrics.addBuild, documents, shares.length_eq, List.length_map,
      ← List.countP_eq_length_filter]

/-- An animation that rules point at and one that none does. -/
def lightAndHeavy : Library := .ofList [.plain ⟨0, 1⟩ "Heavy", .plain ⟨0, 0⟩ "Light"]

theorem build_distributes_twoKeywords :
    (∃ d ∈ build twoKeywords lightAndHeavy, d.isDisabled = false ∧ d.condition.parts.length = 2 ∧
      ¬ ∀ b ∈ modelBlocks twoKeywords, b.source ≠ d.source) ∧
    ∃ d ∈ build twoKeywords lightAndHeavy, d.isDisabled = true ∧
      ∀ b ∈ modelBlocks twoKeywords, b.source ≠ d.source := by
  obtain ⟨_, _, _, _, each, _⟩ := build_distributes twoKeywords lightAndHeavy .zero
  have light := List.mem_of_getElem? (l := build twoKeywords lightAndHeavy) (i := 0) rfl
  have heavy := List.mem_of_getElem? (l := build twoKeywords lightAndHeavy) (i := 1) rfl
  refine ⟨⟨_, light, rfl, rfl, fun none => ?_⟩, _, heavy, rfl, (each _ heavy).2.mp rfl⟩
  cases (each _ light).2.mpr none

end Document

end Movesets
