import Movesets.Proofs.CandidateOrdinals
import Movesets.Proofs.ComboRuns

set_option autoImplicit false

/-!
# What is drawn

A draw from some candidates gives one of those that remain once the recent picks are left out.
Candidates are numbered from one, so that the pick is never the zero that stands for none, as long
as the numbers fit 32 bits.
-/

namespace Movesets

namespace Draw

theorem atPoint_mem {cs : List UInt32} (ne : cs ≠ []) (point : Nat) : atPoint point cs ∈ cs := by
  fun_induction atPoint point cs with
  | case1 => exact absurd rfl ne
  | case2 => exact List.mem_singleton_self _
  | case3 => exact List.mem_cons_self
  | case4 _ _ _ nonempty _ _ ih => exact List.mem_cons_of_mem _ (ih nonempty)

theorem mem_of_mem_remaining {cs : List UInt32} {recent : Recent} {o : UInt32}
    (mem : o ∈ remaining cs recent) : o ∈ cs := by
  unfold remaining at mem
  dsimp only at mem
  split at mem
  next => exact mem
  next => exact (List.mem_filter.mp mem).1

theorem remaining_ne_nil {cs : List UInt32} (ne : cs ≠ []) (recent : Recent) :
    remaining cs recent ≠ [] := by
  unfold remaining
  dsimp only
  split
  next => exact ne
  next nonempty => exact fun nil => nonempty (List.isEmpty_iff.mpr nil)

theorem not_contains_of_mem_remaining {cs : List UInt32} {recent : Recent}
    (other : ∃ c ∈ cs, recent.contains c = false) {o : UInt32} (mem : o ∈ remaining cs recent) :
    recent.contains o = false := by
  obtain ⟨c, inCandidates, fresh⟩ := other
  have kept : c ∈ cs.filter fun c => !recent.contains c :=
    List.mem_filter.mpr ⟨inCandidates, by rw [fresh]; rfl⟩
  have nonempty : ¬ (cs.filter fun c => !recent.contains c).isEmpty = true :=
    fun empty => List.ne_nil_of_mem kept (List.isEmpty_iff.mp empty)
  rw [remaining, if_neg nonempty] at mem
  exact Bool.not_eq_true' _ ▸ (List.mem_filter.mp mem).2

@[simp] theorem next_nil (recent : Recent) (d : Draws) : next [] recent d = (0, recent, d) := rfl

theorem exists_next {cs : List UInt32} (ne : cs ≠ []) (recent : Recent) (d : Draws) :
    ∃ pick ∈ remaining cs recent, ∃ left, next cs recent d = (pick, recent.push pick, left) := by
  have nonempty : ¬ cs.isEmpty = true := fun empty => ne (List.isEmpty_iff.mp empty)
  rw [next, if_neg nonempty]
  exact ⟨_, atPoint_mem (remaining_ne_nil ne recent) _, _, rfl⟩

theorem next_mem_remaining {cs : List UInt32} (ne : cs ≠ []) (recent : Recent) (d : Draws) :
    (next cs recent d).1 ∈ remaining cs recent := by
  obtain ⟨pick, mem, left, drawn⟩ := exists_next ne recent d
  rwa [drawn]

theorem next_mem {cs : List UInt32} (ne : cs ≠ []) (recent : Recent) (d : Draws) :
    (next cs recent d).1 ∈ cs :=
  mem_of_mem_remaining (next_mem_remaining ne recent d)

theorem next_eq_zero_iff {cs : List UInt32} (proper : 0 ∉ cs) (recent : Recent) (d : Draws) :
    (next cs recent d).1 = 0 ↔ cs = [] := by
  by_cases empty : cs = []
  · subst empty
    simp
  · have positive : (next cs recent d).1 ≠ 0 := fun zero => proper (zero ▸ next_mem empty recent d)
    exact iff_of_false positive empty

theorem recent_next {cs : List UInt32} (proper : 0 ∉ cs) (recent : Recent) (d : Draws) :
    (next cs recent d).2.1 =
      if (next cs recent d).1 = 0 then recent else recent.push (next cs recent d).1 := by
  split
  next zero =>
    rw [(next_eq_zero_iff proper recent d).mp zero, next_nil]
  next drawn =>
    have ne : cs ≠ [] := fun nil => drawn ((next_eq_zero_iff proper recent d).mpr nil)
    obtain ⟨pick, _, left, eq⟩ := exists_next ne recent d
    rw [eq]

end Draw

theorem Playlist.candidates_of_pairwise {p : Playlist} {stats : Stats}
    (sorted : (p.fitting stats).Pairwise fun a b => a.2.totalLe b.2 = true) :
    p.candidates stats = (p.fitting stats).map (·.1) := by
  rw [candidates, List.mergeSort_of_pairwise sorted]

theorem Playlist.zero_notMem_candidates {p : Playlist} (fits : p.selectedCount < UInt32.size)
    (stats : Stats) : 0 ∉ p.candidates stats := by
  intro mem
  obtain ⟨k, e, at_k, _, wrapped⟩ := mem_candidates.mp mem
  obtain ⟨bound, _⟩ := List.getElem?_eq_some_iff.mp at_k
  rw [← List.countP_eq_length_filter] at bound
  have small : k + 1 < UInt32.size := by
    change k < p.selectedCount at bound
    omega
  have zero : (UInt32.ofNat (k + 1)).toNat = 0 := congrArg UInt32.toNat wrapped
  rw [UInt32.toNat_ofNat_of_lt' small] at zero
  omega

/-- The numbers of all candidates fit 32 bits: no playlist for other actors than the player has
`2 ^ 32` selected entries or more. -/
def Model.Numbered (m : Model) : Prop :=
  ∀ x ∈ m.allRules, ∀ c ∈ x.2.categories.values, ∀ p ∈ c.stance? 0, p.selectedCount < UInt32.size

instance (m : Model) : Decidable m.Numbered :=
  inferInstanceAs (Decidable (∀ x ∈ m.allRules, _))

theorem Model.Numbered.zero_notMem_offer {m : Model} (numbered : m.Numbered) {host : Host}
    {a : Form} {r : Resolution} {candidates : List UInt32}
    (offer : host.offer? m a = some (r, candidates)) : 0 ∉ candidates := by
  obtain ⟨actor, category, _, _, offer⟩ := Host.offer?_eq_some_iff.mp offer
  obtain ⟨rfl, rfl⟩ := Prod.mk.inj offer
  cases found : m.rule? (m.resolve (some actor) category).rule with
  | none => simp
  | some rule =>
    intro mem
    obtain ⟨p, playlist, mem⟩ := Rule.mem_candidates_iff.mp mem
    obtain ⟨c, there, stance⟩ := Option.bind_eq_some_iff.mp playlist
    have fits := numbered _ (mem_allRules_iff_rule?.mpr found) c (Table.mem_values_of_get? there)
      p stance
    exact p.zero_notMem_candidates fits _ mem

namespace Combo

/-- The numbers of candidates fit 32 bits at every point of a run. -/
def Numbered (c : Combo) (calls : List ComboCall) : Prop :=
  ∀ n, (c.run (calls.take n)).session.model.Numbered

variable {c : Combo} {call : ComboCall} {calls : List ComboCall}

theorem Numbered.head (numbered : c.Numbered calls) : c.session.model.Numbered := by
  have first := numbered 0
  rwa [List.take_zero, run_nil] at first

theorem Numbered.tail (numbered : c.Numbered (call :: calls)) : (c.after call).Numbered calls :=
  fun n => numbered (n + 1)

theorem Numbered.last (numbered : c.Numbered calls) : (c.run calls).session.model.Numbered := by
  have last := numbered calls.length
  rwa [List.take_length] at last

theorem numbered_of_unedited {c : Combo} {calls : List ComboCall}
    (numbered : c.session.model.Numbered) (unedited : ∀ call ∈ calls, ∀ m, call.edit m = m) :
    c.Numbered calls := by
  intro n
  induction calls generalizing c n with
  | nil => rwa [List.take_nil, run_nil]
  | cons call calls ih =>
    cases n with
    | zero => exact numbered
    | succ n =>
      refine ih ?_ (fun call mem => unedited call (List.mem_cons_of_mem _ mem)) n
      rwa [model_after, unedited call List.mem_cons_self]

end Combo

def blows : Playlist :=
  ["Jab", "Hook", "Kick"].map fun name => .plain name [.plain ⟨0, 0⟩ .parent]

def brawlers : Model := Model.builtIn.modifyPlaylist .general "Unarmed" 0 fun _ => blows

def brawler : Form := ⟨"Skyrim.esm", 0x13BBF⟩

/-- Everyone is there, with bare hands. -/
def tavern : Host := ⟨fun a => some (.plain a ⟨"Skyrim.esm", 0x13746⟩), fun _ => some "Unarmed"⟩

/-- Windows of five milliseconds beside the brawlers. -/
def Combo.tavernWindows : Combo := start 5 40 250 (.start brawlers .empty)

theorem numbered_brawlers : brawlers.Numbered := by decide +kernel

theorem offer_brawler : tavern.offer? brawlers brawler = some (⟨.general, 3, 0⟩, [1, 2, 3]) := by
  let actor : Actor := .plain brawler ⟨"Skyrim.esm", 0x13746⟩
  have resolution : brawlers.resolve (some actor) "Unarmed" = ⟨.general, 3, 0⟩ := by
    decide +kernel
  have sorted : (blows.fitting .full).Pairwise fun a b => a.2.totalLe b.2 = true := by
    decide +kernel
  have candidates : blows.candidates .full = [1, 2, 3] := by
    rw [Playlist.candidates_of_pairwise sorted]
    decide +kernel
  change some (brawlers.candidates (some actor) "Unarmed") = _
  rw [Model.candidates, resolution, ← candidates]
  rfl

end Movesets
