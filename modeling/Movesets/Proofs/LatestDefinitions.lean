import Mathlib.Data.List.Sort
import Movesets.Proofs.Distribution

set_option autoImplicit false

/-!
# The latest definitions

A library holds of every source the definition that was inserted last, and an insertion gives back
what it replaces.  What is found under each source determines the library: the order in which its
sources came in leaves no trace.
-/

namespace Movesets

namespace Library

variable {l m : Library} {a : Animation} {s : Source}

/-- The last definition of a source in a list. -/
def latest? (s : Source) (as : List Animation) : Option Animation :=
  as.findRev? fun a => a.source == s

theorem latest?_cons (s : Source) (a : Animation) (as : List Animation) :
    latest? s (a :: as) = (latest? s as).or (if a.source = s then some a else none) := by
  unfold latest?
  rw [List.findRev?]
  cases as.findRev? fun a => a.source == s with
  | some last => rfl
  | none => by_cases here : a.source = s <;> simp [here]

theorem mem_of_latest? {as : List Animation} (found : latest? s as = some a) :
    a ∈ as ∧ a.source = s := by
  induction as with
  | nil => cases found
  | cons b rest ih =>
    rw [latest?_cons] at found
    rcases Option.or_eq_some_iff.mp found with later | ⟨_, first⟩
    · exact ⟨List.mem_cons_of_mem _ (ih later).1, (ih later).2⟩
    · obtain ⟨here, same⟩ := Option.ite_none_right_eq_some.mp first
      cases same
      exact ⟨List.mem_cons_self, here⟩

theorem isSome_latest? {as : List Animation} :
    (latest? s as).isSome = true ↔ s ∈ as.map Animation.source := by
  induction as with
  | nil => simp [latest?, List.findRev?]
  | cons b rest ih =>
    rw [latest?_cons, Option.isSome_or, Bool.or_eq_true, ih, List.map_cons, List.mem_cons, or_comm]
    by_cases here : b.source = s
    · simp [here]
    · simp [here, Ne.symm here]

/-! ## What is found in a library -/

theorem find?_source (b : Animation) (s : Source) (rest : List Animation) :
    (b :: rest).find? (fun c => c.source == s) =
      if b.source = s then some b else rest.find? fun c => c.source == s := by
  by_cases here : b.source = s <;> simp [here]

theorem find?_place (a : Animation) (s : Source) (xs : List Animation) :
    (place a xs).find? (fun b => b.source == s) =
      if a.source = s then some a else xs.find? fun b => b.source == s := by
  induction xs with
  | nil => exact find?_source a s []
  | cons b rest ih =>
    by_cases before : a.source.rank < b.source.rank
    · rw [place, if_pos before]
      exact find?_source a s (b :: rest)
    rw [place, if_neg before]
    by_cases after : b.source.rank < a.source.rank
    · -- what stands before the place of `a` is of another source
      have other : b.source ≠ a.source := fun same => absurd after (same ▸ Nat.lt_irrefl _)
      rw [if_pos after, find?_source, find?_source, ih]
      by_cases here : a.source = s
      · have elsewhere : b.source ≠ s := here ▸ other
        rw [if_neg elsewhere, if_pos here, if_pos here]
      · rw [if_neg here, if_neg here]
    · have same : b.source = a.source := Source.rank_injective (by omega)
      rw [if_neg after, find?_source, find?_source, same]
      split <;> rfl

theorem get?_insert (l : Library) (a : Animation) (s : Source) :
    (l.insert a).get? s = if a.source = s then some a else l.get? s :=
  find?_place a s l.animations

theorem displaced_eq_find? (a : Animation) {xs : List Animation}
    (sorted : xs.Pairwise fun a b => a.source.rank < b.source.rank) :
    displaced a xs = xs.find? fun b => b.source == a.source := by
  induction xs with
  | nil => rfl
  | cons b rest ih =>
    obtain ⟨least, sorted_rest⟩ := List.pairwise_cons.mp sorted
    by_cases before : a.source.rank < b.source.rank
    · have absent : ∀ c ∈ b :: rest, c.source ≠ a.source := by
        intro c mem same
        rw [← same] at before
        rcases List.mem_cons.mp mem with rfl | mem
        · exact Nat.lt_irrefl _ before
        · exact Nat.lt_asymm before (least c mem)
      rw [displaced, if_pos before, eq_comm, List.find?_eq_none]
      exact fun c mem => by simpa using absent c mem
    rw [displaced, if_neg before, find?_source]
    by_cases after : b.source.rank < a.source.rank
    · have other : b.source ≠ a.source := fun same => absurd after (same ▸ Nat.lt_irrefl _)
      rw [if_pos after, if_neg other, ih sorted_rest]
    · have same : b.source = a.source := Source.rank_injective (by omega)
      rw [if_neg after, if_pos same]

theorem replaced_put (l : Library) (a : Animation) : (l.put a).2 = l.get? a.source :=
  displaced_eq_find? a l.sorted

theorem get?_eq_some_iff : l.get? s = some a ↔ a ∈ l.toList ∧ a.source = s := by
  constructor
  · intro found
    exact ⟨List.mem_of_find?_eq_some found, by simpa using List.find?_some found⟩
  · rintro ⟨mem, rfl⟩
    obtain ⟨b, found⟩ : ∃ b, l.get? a.source = some b :=
      Option.isSome_iff_exists.mp (contains_iff.mpr (List.mem_map_of_mem mem))
    have same : b.source = a.source := by simpa using List.find?_some found
    have held : b ∈ l.toList := List.mem_of_find?_eq_some found
    rw [found, List.inj_on_of_nodup_map l.nodup_sources held mem same]

/-- A library is determined by what is found in it. -/
theorem ext_get? (same : ∀ s, l.get? s = m.get? s) : l = m := by
  have mem (a : Animation) : a ∈ l.toList ↔ a ∈ m.toList := by
    have held := get?_eq_some_iff (l := l) (a := a) (s := a.source)
    rw [same, get?_eq_some_iff] at held
    simpa using held.symm
  have perm : l.toList.Perm m.toList :=
    (List.perm_ext_iff_of_nodup l.nodup_sources.of_map m.nodup_sources.of_map).mpr mem
  refine ext_toList (perm.eq_of_pairwise ?_ l.sorted m.sorted)
  intro a b _ _ less more
  exact absurd more (Nat.lt_asymm less)

/-! ## Insertions one after another -/

theorem get?_foldl_insert (l : Library) (as : List Animation) (s : Source) :
    (as.foldl insert l).get? s = (latest? s as).or (l.get? s) := by
  induction as generalizing l with
  | nil => rfl
  | cons a rest ih =>
    rw [List.foldl_cons, ih, get?_insert, latest?_cons, Option.or_assoc]
    split <;> rfl

theorem get?_ofList (as : List Animation) (s : Source) : (ofList as).get? s = latest? s as := by
  have nothing : empty.get? s = none := rfl
  rw [ofList, get?_foldl_insert, nothing, Option.or_none]

theorem ofList_toList (l : Library) : ofList l.toList = l := by
  refine ext_get? fun s => ?_
  rw [get?_ofList]
  cases last : latest? s l.toList with
  | some a => exact (get?_eq_some_iff.mpr (mem_of_latest? last)).symm
  | none =>
    cases held : l.get? s with
    | none => rfl
    | some a =>
      obtain ⟨mem, rfl⟩ := get?_eq_some_iff.mp held
      have defined := isSome_latest?.mpr (List.mem_map_of_mem (f := Animation.source) mem)
      rw [last] at defined
      cases defined

/-- A library built from a list goes through the sources of the list in their order and holds of
each its last definition, and the library built from its own list is the same.  After any insertions
a library holds of every source what was inserted last, or what it held at first if nothing was; one
more insertion gives back just that of its source, and changes what is held of no other. -/
theorem insertions_keep_latest (as : List Animation) (l : Library) :
    let built := ofList as
    let filled := as.foldl insert l
    (built.toList.map Animation.source).Pairwise Source.Before ∧
    (∀ s, s ∈ built.toList.map Animation.source ↔ s ∈ as.map Animation.source) ∧
    (∀ a, a ∈ built.toList ↔ latest? a.source as = some a) ∧
    (∀ s, built.get? s = latest? s as) ∧
    ofList l.toList = l ∧
    (∀ s, filled.get? s = (latest? s as).or (l.get? s)) ∧
    ∀ a, (filled.put a).2 = (latest? a.source as).or (l.get? a.source) ∧
      ∀ s, (filled.put a).1.get? s = if a.source = s then some a else filled.get? s := by
  intro built filled
  have held (s : Source) : filled.get? s = (latest? s as).or (l.get? s) := get?_foldl_insert l as s
  refine ⟨built.sorted_sources, fun s => ?_, fun a => ?_, get?_ofList as, ofList_toList l, held,
    fun a => ⟨?_, get?_insert filled a⟩⟩
  · rw [← contains_iff, contains, get?_ofList, isSome_latest?]
  · rw [← get?_ofList, get?_eq_some_iff]
    exact (and_iff_left rfl).symm
  · rw [replaced_put, held]

end Library

end Movesets
