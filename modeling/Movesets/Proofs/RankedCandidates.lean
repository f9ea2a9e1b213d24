import Mathlib.Data.List.Nodup
import Movesets.Proofs.CandidateOrdinals
import Movesets.Proofs.PlaylistOrder
import Movesets.Proofs.Precedence

set_option autoImplicit false

/-!
# The order of candidates

The selected entries are numbered before any of them is left out, and those that admit the stats are
sorted by the room that they leave.  The sort is stable, so equal room leaves the numbers ascending.
A resolution counts the selected entries of the same playlist, and no candidate is above that count.
-/

namespace Movesets

/-- A stable sort leaves what ranks alike in the order in which it came. -/
theorem pairwise_mergeSort_of_pairwise {α : Type} {le : α → α → Bool} {R : α → α → Prop}
    (trans : ∀ a b c, le a b = true → le b c = true → le a c = true)
    (total : ∀ a b, (le a b || le b a) = true) {xs : List α} (inOrder : xs.Pairwise R) :
    (xs.mergeSort le).Pairwise fun a b => le a b = true ∧ (le b a = true → R a b) := by
  induction xs with
  | nil => simp
  | cons x xs ih =>
    obtain ⟨first, rest⟩ := List.pairwise_cons.mp inOrder
    -- the sort puts the first element behind those that rank strictly before it
    obtain ⟨before, after, sorted, others, smaller⟩ := List.mergeSort_cons trans total x xs
    have ranked := List.pairwise_mergeSort trans total (x :: xs)
    rw [sorted, List.pairwise_append, List.pairwise_cons] at ranked
    obtain ⟨_, ⟨x_le, _⟩, le_x⟩ := ranked
    have among := ih rest
    rw [others, List.pairwise_append] at among
    obtain ⟨inBefore, inAfter, across⟩ := among
    have mem_after {b : α} (mem : b ∈ after) : b ∈ xs := by
      have inSorted : b ∈ xs.mergeSort le := others ▸ List.mem_append_right before mem
      exact List.mem_mergeSort.mp inSorted
    rw [sorted, List.pairwise_append, List.pairwise_cons]
    refine ⟨inBefore, ⟨fun b mem => ⟨x_le b mem, fun _ => first b (mem_after mem)⟩, inAfter⟩, ?_⟩
    intro a mem b mem'
    rcases List.mem_cons.mp mem' with rfl | later
    · refine ⟨le_x a mem b List.mem_cons_self, fun back => ?_⟩
      have strict := smaller a mem
      rw [back] at strict
      cases strict
    · exact across a mem b later

namespace Playlist

/-- The selected entries that admit the stats, each with its place among the selected ones. -/
def admitting (p : Playlist) (s : Stats) : List (Entry × Nat) :=
  (p.filter Entry.selected).zipIdx.filter fun e => e.1.thresholds.admits s

/-- The first of two entries leaves no more room than the other. -/
def tighter (s : Stats) (a b : Entry × Nat) : Bool :=
  (a.1.thresholds.slack s).totalLe (b.1.thresholds.slack s)

/-- The entries that admit the stats in the order in which they are offered. -/
def ranked (p : Playlist) (s : Stats) : List (Entry × Nat) :=
  (p.admitting s).mergeSort (tighter s)

/-- Of the selected entries, counted from one, this is the `n`th, and it admits the stats. -/
def AdmitsAt (p : Playlist) (s : Stats) (n : Nat) (e : Entry) : Prop :=
  ∃ k, n = k + 1 ∧ (p.filter Entry.selected)[k]? = some e ∧ e.thresholds.admits s = true

/-- The numbers of the entries that admit the stats, each once, by the room that their entries
leave, and ascending where that is the same. -/
structure Ranks (p : Playlist) (s : Stats) (numbers : List Nat) : Prop where
  nodup : numbers.Nodup
  mem_iff : ∀ n, n ∈ numbers ↔ ∃ e, p.AdmitsAt s n e
  sorted : numbers.Pairwise fun m n => ∀ e f, p.AdmitsAt s m e → p.AdmitsAt s n f →
    (e.thresholds.slack s).totalLe (f.thresholds.slack s) = true ∧
      (e.thresholds.slack s = f.thresholds.slack s → m < n)

variable {p : Playlist} {s : Stats}

theorem tighter_trans (s : Stats) (a b c : Entry × Nat) (h : tighter s a b = true)
    (h' : tighter s b c = true) : tighter s a c = true :=
  Number.Binary.totalLe_trans h h'

theorem tighter_total (s : Stats) (a b : Entry × Nat) :
    (tighter s a b || tighter s b a) = true :=
  Number.Binary.totalLe_total ..

theorem mem_admitting {x : Entry × Nat} : x ∈ p.admitting s ↔ p.AdmitsAt s (x.2 + 1) x.1 := by
  rw [admitting, List.mem_filter, List.mem_zipIdx_iff_getElem?, AdmitsAt]
  constructor
  · rintro ⟨here, admits⟩
    exact ⟨x.2, rfl, here, admits⟩
  · rintro ⟨k, same, here, admits⟩
    obtain rfl := Nat.succ.inj same
    exact ⟨here, admits⟩

theorem mem_ranked {x : Entry × Nat} : x ∈ p.ranked s ↔ p.AdmitsAt s (x.2 + 1) x.1 := by
  rw [ranked, List.mem_mergeSort, mem_admitting]

theorem AdmitsAt.unique {n : Nat} {e f : Entry} (he : p.AdmitsAt s n e)
    (hf : p.AdmitsAt s n f) : e = f := by
  obtain ⟨k, rfl, here, _⟩ := he
  obtain ⟨l, same, here', _⟩ := hf
  obtain rfl := Nat.succ.inj same
  exact Option.some.inj (here.symm.trans here')

theorem AdmitsAt.range {n : Nat} {e : Entry} (he : p.AdmitsAt s n e) :
    1 ≤ n ∧ n ≤ p.selectedCount := by
  obtain ⟨k, rfl, here, _⟩ := he
  obtain ⟨bound, _⟩ := List.getElem?_eq_some_iff.mp here
  rw [selectedCount, List.countP_eq_length_filter]
  omega

/-- Candidates are the numbers of the ranked entries as words of 32 bits. -/
theorem candidates_eq (p : Playlist) (s : Stats) :
    p.candidates s = ((p.ranked s).map fun e => e.2 + 1).map UInt32.ofNat := by
  let offer (e : Entry × Nat) := (UInt32.ofNat (e.2 + 1), e.1.thresholds.slack s)
  have sorted : (p.ranked s).map offer = (p.fitting s).mergeSort fun a b => a.2.totalLe b.2 :=
    List.map_mergeSort fun _ _ _ _ => rfl
  rw [candidates, ← sorted, List.map_map, List.map_map]
  rfl

theorem ranks_ranked (p : Playlist) (s : Stats) :
    p.Ranks s ((p.ranked s).map fun e => e.2 + 1) := by
  have ascending : (p.admitting s).Pairwise fun a b => a.2 < b.2 := (pairwise_zipIdx _).filter _
  have stable : (p.ranked s).Pairwise fun a b =>
      tighter s a b = true ∧ (tighter s b a = true → a.2 < b.2) :=
    pairwise_mergeSort_of_pairwise (tighter_trans s) (tighter_total s) ascending
  refine ⟨?_, fun n => ?_, ?_⟩
  · have distinct : ((p.admitting s).map fun e => e.2 + 1).Nodup :=
      List.pairwise_map.mpr (ascending.imp fun before => by omega)
    exact (((p.admitting s).mergeSort_perm _).map _).nodup_iff.mpr distinct
  · rw [List.mem_map]
    constructor
    · rintro ⟨x, mem, rfl⟩
      exact ⟨x.1, mem_ranked.mp mem⟩
    · rintro ⟨e, k, rfl, here, admits⟩
      exact ⟨(e, k), mem_ranked.mpr ⟨k, rfl, here, admits⟩, rfl⟩
  · refine List.pairwise_map.mpr (stable.imp_of_mem ?_)
    rintro a b mem mem' ⟨le, tied⟩ e f atA atB
    obtain rfl := (mem_ranked.mp mem).unique atA
    obtain rfl := (mem_ranked.mp mem').unique atB
    refine ⟨le, fun same => Nat.succ_lt_succ (tied ?_)⟩
    rw [tighter, same] at le ⊢
    exact le

/-- The order determines the list: no two rank the same entries. -/
theorem Ranks.unique {xs ys : List Nat} (hx : p.Ranks s xs) (hy : p.Ranks s ys) : xs = ys := by
  have perm : xs.Perm ys := (List.perm_ext_iff_of_nodup hx.nodup hy.nodup).mpr fun n =>
    (hx.mem_iff n).trans (hy.mem_iff n).symm
  refine perm.eq_of_pairwise ?_ hx.sorted hy.sorted
  intro m n mem mem' before after
  obtain ⟨e, atM⟩ := (hx.mem_iff m).mp mem
  obtain ⟨f, atN⟩ := (hy.mem_iff n).mp mem'
  obtain ⟨le, tied⟩ := before e f atM atN
  obtain ⟨ge, tied'⟩ := after f e atN atM
  have same := Number.Binary.totalLe_antisymm le ge
  have ascending := tied same
  have descending := tied' same.symm
  omega

theorem map_toNat_candidates (fits : p.selectedCount < UInt32.size) :
    (p.candidates s).map UInt32.toNat = (p.ranked s).map fun e => e.2 + 1 := by
  rw [candidates_eq, List.map_map]
  refine (List.map_congr_left fun n mem => ?_).trans (List.map_id _)
  obtain ⟨e, admits⟩ := ((p.ranks_ranked s).mem_iff n).mp mem
  exact UInt32.toNat_ofNat_of_lt' (Nat.lt_of_le_of_lt admits.range.2 fits)

end Playlist

namespace Rule

variable {r : Rule} {category : String}

theorem candidates_of_playlist {p : Playlist} (found : r.playlist? category 0 = some p)
    (s : Stats) : r.candidates category s = p.candidates s := by
  rw [candidates, found]
  rfl

theorem candidates_of_no_playlist (absent : r.playlist? category 0 = none) (s : Stats) :
    r.candidates category s = [] := by
  rw [candidates, absent]
  rfl

end Rule

namespace Model

/-- The count of a resolution is that of the rule that drives. -/
theorem available_of_resolve {m : Model} {a : Actor} {category : String} {r : Rule}
    (driving : m.rule? (m.resolve (some a) category).rule = some r) :
    (m.resolve (some a) category).available = r.available category := by
  rcases m.resolve_cases a category with ⟨kind, _, found⟩ | ⟨_, fallback⟩
  · obtain ⟨i, r', at_i, _, _, resolved⟩ := Resolution.inTier?_eq_some_iff.mp found
    rw [resolved] at driving ⊢
    obtain rfl := Option.some.inj (at_i.symm.trans driving)
    rfl
  · rw [fallback] at driving ⊢
    obtain rfl := Option.some.inj driving
    rfl

theorem exists_admitsAt_of_mem_candidates {m : Model} {actor : Option Actor} {category : String}
    {o : UInt32} (mem : o ∈ (m.candidates actor category).2) : ∃ p s n e,
      Playlist.AdmitsAt p s n e ∧ UInt32.ofNat n = o ∧
        (m.candidates actor category).1.available = p.selectedCount := by
  cases actor with
  | none => cases mem
  | some a =>
    change o ∈ ((m.rule? (m.resolve (some a) category).rule).map
      fun r => r.candidates category a.stats).getD [] at mem
    cases driving : m.rule? (m.resolve (some a) category).rule with
    | none =>
      rw [driving] at mem
      cases mem
    | some r =>
      rw [driving] at mem
      obtain ⟨p, playlist, mem⟩ := Rule.mem_candidates_iff.mp mem
      obtain ⟨k, e, at_k, admits, ordinal⟩ := Playlist.mem_candidates.mp mem
      refine ⟨p, a.stats, k + 1, e, ⟨k, rfl, at_k, admits⟩, ordinal, ?_⟩
      change (m.resolve (some a) category).available = _
      rw [available_of_resolve driving, Rule.available, playlist]
      rfl

end Model

/-- What a rule offers for stats are the numbers of its selected entries that admit them, tightest
fit first and ascending where the fit is the same; nothing without the category or the stance.  What
is offered to an actor lies between one and the count of its resolution.  Numbers are words of 32
bits, from one as long as the count of entries is such a word. -/
theorem candidates_rank_entries (category : String) :
    (∀ (r : Rule) (s : Stats),
      (∀ c p, r.category? category = some c → c.stance? 0 = some p → ∃ numbers,
        p.Ranks s numbers ∧ r.candidates category s = numbers.map UInt32.ofNat ∧
        (p.selectedCount < UInt32.size → (r.candidates category s).Nodup ∧
          (r.candidates category s).map UInt32.toNat = numbers)) ∧
      (r.category? category = none → r.candidates category s = []) ∧
      ∀ c, r.category? category = some c → c.stance? 0 = none →
        r.candidates category s = []) ∧
    ∀ (m : Model) (actor : Option Actor), ∀ o ∈ (m.candidates actor category).2,
      o.toNat ≤ (m.candidates actor category).1.available ∧
        ((m.candidates actor category).1.available < UInt32.size → 1 ≤ o.toNat) := by
  refine ⟨fun r s => ⟨?_, ?_, ?_⟩, ?_⟩
  · intro c p there stance
    have found : r.playlist? category 0 = some p := by
      rw [Rule.playlist?, there]
      exact stance
    rw [Rule.candidates_of_playlist found]
    refine ⟨_, p.ranks_ranked s, p.candidates_eq s, fun fits => ?_⟩
    have numbers := Playlist.map_toNat_candidates (s := s) fits
    refine ⟨List.Nodup.of_map UInt32.toNat ?_, numbers⟩
    rw [numbers]
    exact (p.ranks_ranked s).nodup
  · intro absent
    apply Rule.candidates_of_no_playlist
    rw [Rule.playlist?, absent]
    rfl
  · intro c there absent
    apply Rule.candidates_of_no_playlist
    rw [Rule.playlist?, there]
    exact absent
  · intro m actor o mem
    obtain ⟨p, s, n, e, admits, rfl, count⟩ := Model.exists_admitsAt_of_mem_candidates mem
    obtain ⟨positive, le⟩ := admits.range
    rw [count]
    refine ⟨Nat.le_trans (Nat.mod_le ..) le, fun fits => ?_⟩
    rw [UInt32.toNat_ofNat_of_lt' (Nat.lt_of_le_of_lt le fits)]
    exact positive

end Movesets
