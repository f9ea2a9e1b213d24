import Mathlib.Algebra.BigOperators.Intervals
import Mathlib.Algebra.Order.Floor.Div
import Mathlib.Data.Set.Card
import Movesets.Proofs.Drawing

set_option autoImplicit false

/-!
# How many words draw each candidate

A word is accepted for a point if its product with the total weight lies in the interval of the
point among the products, which is as long as the greatest multiple of the weight that fits a word.
So every point below the weight is hit by equally many words.  A candidate owns as many points as it
weighs, and is drawn by that many times the words of a point.
-/

namespace Movesets

namespace Draws

/-- The words accepted for a point are those whose product lies in the interval of the point. -/
theorem accept?_eq_some_iff {total word point : Nat} (positive : 0 < total)
    (fits : total < UInt64.size) :
    accept? total word = some point ↔ point * UInt64.size ≤ word * total ∧
      word * total < point * UInt64.size + total * (UInt64.size / total) := by
  have halves : accept? total word = some point ↔ word * total / UInt64.size = point ∧
      word * total % UInt64.size ≤ UInt64.size - 1 - UInt64.size % total := by
    unfold accept?
    dsimp only
    split
    next accepted => rw [Option.some_inj, and_iff_left accepted]
    next refused => exact iff_of_false nofun fun both => refused both.2
  rw [halves]
  have whole := Nat.div_add_mod UInt64.size total
  have rest : UInt64.size % total < total := Nat.mod_lt _ positive
  generalize total * (UInt64.size / total) = length at whole ⊢
  generalize UInt64.size % total = cut at whole rest ⊢
  generalize word * total = product
  unfold UInt64.size at *
  omega

/-- The factors below `words` whose products with `total` lie in an interval that is as long as the
greatest multiple of `total` up to `words` follow one another. -/
theorem filter_products {words total point : Nat} (below : point < total) :
    (Finset.range words).filter (fun v => point * words ≤ v * total ∧
        v * total < point * words + total * (words / total)) =
      Finset.Ico (point * words ⌈/⌉ total) (point * words ⌈/⌉ total + words / total) := by
  have positive : 0 < total := Nat.zero_lt_of_lt below
  have lower (v : Nat) : point * words ⌈/⌉ total ≤ v ↔ point * words ≤ v * total := by
    rw [ceilDiv_le_iff_le_mul positive, Nat.mul_comm v]
  have upper (v : Nat) : v < point * words ⌈/⌉ total + words / total ↔
      v * total < point * words + total * (words / total) := by
    rcases Nat.lt_or_ge v (words / total) with small | large
    · have short : v * total < total * (words / total) := by
        rw [Nat.mul_comm]
        exact Nat.mul_lt_mul_of_pos_left small positive
      omega
    · have split : v * total = (v - words / total) * total + total * (words / total) := by
        rw [Nat.mul_comm total, ← Nat.add_mul, Nat.sub_add_cancel large]
      have shifted := lower (v - words / total)
      omega
  ext v
  rw [Finset.mem_filter, Finset.mem_range, Finset.mem_Ico, lower, upper]
  refine and_iff_right_of_imp fun between => ?_
  have length : total * (words / total) ≤ words := Nat.mul_div_le words total
  have last : (point + 1) * words ≤ total * words := Nat.mul_le_mul_right words below
  rw [Nat.succ_mul, Nat.mul_comm total] at last
  exact Nat.lt_of_mul_lt_mul_right (a := total) (by omega)

/-- Every point below the total weight is that of equally many words. -/
theorem card_accepted {total point : Nat} (below : point < total) (fits : total < UInt64.size) :
    ((Finset.range UInt64.size).filter fun word => accept? total word = some point).card =
      UInt64.size / total := by
  simp only [accept?_eq_some_iff (Nat.zero_lt_of_lt below) fits]
  rw [filter_products below, Nat.card_Ico, Nat.add_sub_cancel_left]

/-- Points are those of as many words as they are times the words of one. -/
theorem card_accepted_points {total : Nat} {points : Finset Nat}
    (below : ∀ point ∈ points, point < total) (fits : total < UInt64.size) :
    ((Finset.range UInt64.size).filter fun word =>
      ∃ point ∈ points, accept? total word = some point).card =
        points.card * (UInt64.size / total) := by
  let words (point : Nat) := (Finset.range UInt64.size).filter fun word =>
    accept? total word = some point
  have split : (Finset.range UInt64.size).filter (fun word =>
      ∃ point ∈ points, accept? total word = some point) = points.biUnion words := by
    ext word
    simp only [Finset.mem_biUnion, words, Finset.mem_filter]
    exact ⟨fun ⟨bound, point, mem, accepted⟩ => ⟨point, mem, bound, accepted⟩,
      fun ⟨point, mem, bound, accepted⟩ => ⟨bound, point, mem, accepted⟩⟩
  have apart : (points : Set Nat).PairwiseDisjoint words := by
    intro point _ other _ ne
    refine Finset.disjoint_filter.mpr fun word _ accepted accepted' => ne ?_
    exact Option.some.inj (accepted.symm.trans accepted')
  rw [split, Finset.card_biUnion apart]
  exact Finset.sum_const_nat fun point mem => card_accepted (below point mem) fits

theorem lt_of_accept? {total word point : Nat} (positive : 0 < total) (fits : total < UInt64.size)
    (bound : word < UInt64.size) (accepted : accept? total word = some point) : point < total := by
  have lower := ((accept?_eq_some_iff positive fits).mp accepted).1
  have upper : word * total < UInt64.size * total := Nat.mul_lt_mul_of_pos_right bound positive
  unfold UInt64.size at lower upper
  omega

theorem used_lt_pointFrom (total used : Nat) (words : List Nat) :
    used < (pointFrom total used words).2.used := by
  fun_induction pointFrom total used words with
  | case1 => exact Nat.lt_succ_self _
  | case2 => exact Nat.lt_succ_self _
  | case3 used w ws _ ih => omega

end Draws

namespace Draw

theorem totalWeight_succ (n : Nat) : totalWeight (n + 1) = n + 1 + totalWeight n := by
  have split : (n + 1) * (n + 1 + 1) = n * (n + 1) + (n + 1) * 2 := by
    rw [Nat.mul_comm n, ← Nat.mul_add]
  rw [totalWeight, totalWeight, split, Nat.add_mul_div_right _ _ (by decide), Nat.add_comm]

/-- The weights of the first `i` of `n` candidates added up. -/
def weightBefore (n i : Nat) : Nat := ∑ j ∈ Finset.range i, (n - j)

@[simp] theorem weightBefore_zero (n : Nat) : weightBefore n 0 = 0 := rfl

theorem weightBefore_succ (n i : Nat) : weightBefore n (i + 1) = weightBefore n i + (n - i) :=
  Finset.sum_range_succ ..

theorem weightBefore_succ_succ (n i : Nat) :
    weightBefore (n + 1) (i + 1) = n + 1 + weightBefore n i := by
  rw [weightBefore, Finset.sum_range_succ', Nat.sub_zero, Nat.add_comm]
  simp only [Nat.add_sub_add_right]
  rfl

theorem weightBefore_le (n i : Nat) : weightBefore n i ≤ totalWeight n := by
  induction n generalizing i with
  | zero => simp [weightBefore]
  | succ n ih =>
    cases i with
    | zero => exact Nat.zero_le _
    | succ i =>
      rw [weightBefore_succ_succ, totalWeight_succ]
      exact Nat.add_le_add_left (ih i) (n + 1)

/-- A candidate owns the points between the weights before it and those with its own. -/
theorem atPoint_eq_getElem_iff {cs : List UInt32} (distinct : cs.Nodup) {point : Nat}
    (below : point < totalWeight cs.length) {i : Nat} (bound : i < cs.length) :
    atPoint point cs = cs[i] ↔
      weightBefore cs.length i ≤ point ∧ point < weightBefore cs.length (i + 1) := by
  fun_induction atPoint point cs generalizing i with
  | case1 => cases bound
  | case2 point c =>
    obtain rfl : i = 0 := by simpa using bound
    simpa [weightBefore, totalWeight] using below
  | case3 point c cs _ weight inside =>
    cases i with
    | zero =>
      refine iff_of_true rfl ⟨Nat.zero_le point, ?_⟩
      rw [weightBefore_succ, weightBefore_zero, Nat.zero_add]
      exact inside
    | succ i =>
      have later : (c :: cs)[i + 1] ∈ cs := List.getElem_mem (l := cs) (by simpa using bound)
      refine iff_of_false (fun same => (List.nodup_cons.mp distinct).1 (same ▸ later)) ?_
      rw [List.length_cons, weightBefore_succ_succ]
      omega
  | case4 point c cs nonempty weight outside ih =>
    obtain ⟨fresh, distinct⟩ := List.nodup_cons.mp distinct
    rw [List.length_cons, totalWeight_succ] at below
    cases i with
    | zero =>
      have later : atPoint (point - weight) cs ∈ cs := atPoint_mem nonempty _
      refine iff_of_false (fun same : _ = c => fresh (same ▸ later)) fun inside => outside ?_
      rw [weightBefore_succ, weightBefore_zero, Nat.zero_add] at inside
      exact inside.2
    | succ i =>
      have within : i < cs.length := by simpa using bound
      rw [List.getElem_cons_succ, ih distinct (by omega) within, List.length_cons,
        weightBefore_succ_succ, weightBefore_succ_succ]
      omega

theorem remaining_eq (cs : List UInt32) (recent : Recent) : remaining cs recent =
    if cs.filter (fun o => o ≠ recent.last ∧ o ≠ recent.second) = [] then cs
    else cs.filter fun o => o ≠ recent.last ∧ o ≠ recent.second := by
  have fresh : (fun o => !recent.contains o) =
      fun o => decide (o ≠ recent.last ∧ o ≠ recent.second) := by
    funext o
    rw [Bool.eq_iff_iff]
    simp [Recent.contains]
  simp only [remaining, fresh, List.isEmpty_iff]

/-- The word ends a draw with this pick, whatever words follow it. -/
def Decides (cs : List UInt32) (recent : Recent) (word : Nat) (pick : UInt32) : Prop :=
  ∀ words used, next cs recent ⟨word :: words, used⟩ = (pick, recent.push pick, ⟨words, used + 1⟩)

/-- The word is passed over, and the draw goes on with the words that follow it. -/
def Refuses (cs : List UInt32) (recent : Recent) (word : Nat) : Prop :=
  ∀ words used, next cs recent ⟨word :: words, used⟩ = next cs recent ⟨words, used + 1⟩

variable {cs : List UInt32} {recent : Recent} {word : Nat}

theorem next_eq (ne : cs ≠ []) (recent : Recent) (d : Draws) : next cs recent d =
    let left := remaining cs recent
    let drawn := d.point (totalWeight left.length)
    (atPoint drawn.1 left, recent.push (atPoint drawn.1 left), drawn.2) := by
  have nonempty : ¬ cs.isEmpty = true := fun empty => ne (List.isEmpty_iff.mp empty)
  rw [next, if_neg nonempty]

theorem used_lt_next (ne : cs ≠ []) (recent : Recent) (d : Draws) :
    d.used < (next cs recent d).2.2.used := by
  rw [next_eq ne]
  exact Draws.used_lt_pointFrom ..

theorem decides_of_accept? (ne : cs ≠ []) {point : Nat}
    (accepted : Draws.accept? (totalWeight (remaining cs recent).length) word = some point) :
    Decides cs recent word (atPoint point (remaining cs recent)) := by
  intro words used
  simp only [next_eq ne, Draws.point, Draws.pointFrom, accepted]

theorem refuses_of_accept? (ne : cs ≠ [])
    (refused : Draws.accept? (totalWeight (remaining cs recent).length) word = none) :
    Refuses cs recent word := by
  intro words used
  simp only [next_eq ne, Draws.point, Draws.pointFrom, refused]

/-- A draw that goes on takes another word. -/
theorem not_decides_of_refuses (ne : cs ≠ []) (refuses : Refuses cs recent word) (pick : UInt32) :
    ¬ Decides cs recent word pick := by
  intro decides
  have further := used_lt_next ne recent ⟨[], 1⟩
  rw [← refuses [] 0, decides [] 0] at further
  exact absurd further (Nat.lt_irrefl 1)

theorem decides_iff (ne : cs ≠ []) {pick : UInt32} : Decides cs recent word pick ↔
    ∃ point, Draws.accept? (totalWeight (remaining cs recent).length) word = some point ∧
      atPoint point (remaining cs recent) = pick := by
  constructor
  · intro decides
    cases accepted : Draws.accept? (totalWeight (remaining cs recent).length) word with
    | none => exact absurd decides (not_decides_of_refuses ne (refuses_of_accept? ne accepted) pick)
    | some point =>
      have same := (decides_of_accept? ne accepted [] 0).symm.trans (decides [] 0)
      exact ⟨point, rfl, congrArg Prod.fst same⟩
  · rintro ⟨point, accepted, rfl⟩
    exact decides_of_accept? ne accepted

/-- The words that decide for a candidate are those accepted for the points that it owns. -/
theorem decides_getElem_iff (ne : cs ≠ []) {left : List UInt32}
    (leaves : remaining cs recent = left) (distinct : left.Nodup)
    (fits : totalWeight left.length < UInt64.size) (bound : word < UInt64.size)
    {i : Nat} (here : i < left.length) : Decides cs recent word left[i] ↔
      ∃ point ∈ Finset.Ico (weightBefore left.length i) (weightBefore left.length (i + 1)),
        Draws.accept? (totalWeight left.length) word = some point := by
  have positive : 0 < totalWeight left.length := by
    obtain ⟨n, length⟩ := Nat.exists_eq_succ_of_ne_zero (Nat.ne_zero_of_lt here)
    rw [length, totalWeight_succ]
    omega
  simp only [decides_iff ne, leaves, Finset.mem_Ico]
  refine exists_congr fun point => ?_
  rw [and_comm]
  refine and_congr_left fun accepted => ?_
  exact atPoint_eq_getElem_iff distinct (Draws.lt_of_accept? positive fits bound accepted) here

/-- A candidate is drawn by as many times the words of a point as it weighs. -/
theorem ncard_decides (ne : cs ≠ []) {left : List UInt32} (leaves : remaining cs recent = left)
    (distinct : left.Nodup) (fits : totalWeight left.length < UInt64.size) {i : Nat}
    (here : i < left.length) :
    {word | word < UInt64.size ∧ Decides cs recent word left[i]}.ncard =
      (left.length - i) * (UInt64.size / totalWeight left.length) := by
  let owned := Finset.Ico (weightBefore left.length i) (weightBefore left.length (i + 1))
  have below : ∀ point ∈ owned, point < totalWeight left.length := by
    intro point inside
    have within := weightBefore_le left.length (i + 1)
    exact Nat.lt_of_lt_of_le (Finset.mem_Ico.mp inside).2 within
  have decided : {word | word < UInt64.size ∧ Decides cs recent word left[i]} =
      ↑((Finset.range UInt64.size).filter fun word =>
        ∃ point ∈ owned, Draws.accept? (totalWeight left.length) word = some point) := by
    ext word
    rw [Set.mem_ofPred_eq, Finset.mem_coe, Finset.mem_filter, Finset.mem_range]
    exact and_congr_right fun bound => decides_getElem_iff ne leaves distinct fits bound here
  rw [decided, Set.ncard_coe_finset, Draws.card_accepted_points below fits, Nat.card_Ico,
    weightBefore_succ, Nat.add_sub_cancel_left]

/-- Of the words of 64 bits, a candidate that remains is decided by its weight times the words that
fit the total weight; all others are passed over; and the pick is pushed before the last one. -/
theorem words_decide_by_weight {cs : List UInt32} (ne : cs ≠ []) (distinct : cs.Nodup)
    (recent : Recent) {left : List UInt32}
    (leaves : left = if cs.filter (fun o => o ≠ recent.last ∧ o ≠ recent.second) = [] then cs
      else cs.filter fun o => o ≠ recent.last ∧ o ≠ recent.second)
    (fits : left.length * (left.length + 1) / 2 < UInt64.size) :
    (∀ i (here : i < left.length),
      {word | word < UInt64.size ∧ Decides cs recent word left[i]}.ncard =
        (left.length - i) * (UInt64.size / (left.length * (left.length + 1) / 2))) ∧
    (∀ word < UInt64.size, Refuses cs recent word ↔ ¬ ∃ o ∈ left, Decides cs recent word o) ∧
    ∀ draws, (next cs recent draws).2.1 = ⟨(next cs recent draws).1, recent.last⟩ := by
  have remains : remaining cs recent = left := (remaining_eq cs recent).trans leaves.symm
  have distinctLeft : left.Nodup := by
    rw [leaves]
    split
    next => exact distinct
    next => exact distinct.filter _
  refine ⟨fun i here => ncard_decides ne remains distinctLeft fits here, ?_, fun draws => ?_⟩
  · intro word bound
    constructor
    · rintro refuses ⟨o, _, decides⟩
      exact not_decides_of_refuses ne refuses o decides
    · intro none
      cases accepted : Draws.accept? (totalWeight (remaining cs recent).length) word with
      | none => exact refuses_of_accept? ne accepted
      | some point =>
        have mem := atPoint_mem (remaining_ne_nil ne recent) point
        exact absurd ⟨_, remains ▸ mem, decides_of_accept? ne accepted⟩ none
  · obtain ⟨pick, _, rest, drawn⟩ := exists_next ne recent draws
    rw [drawn]
    rfl

/-- With 1 picked last, 2 is drawn by two words for each one that draws 3, and one word is left. -/
theorem words_decide_by_weight_two :
    {word | word < UInt64.size ∧ Decides [1, 2, 3] ⟨1, 0⟩ word 2}.ncard = 12297829382473034410 ∧
    {word | word < UInt64.size ∧ Decides [1, 2, 3] ⟨1, 0⟩ word 3}.ncard = 6148914691236517205 ∧
    12297829382473034410 + 6148914691236517205 + 1 = UInt64.size := by
  have ne : ([1, 2, 3] : List UInt32) ≠ [] := by decide
  obtain ⟨counts, _, _⟩ := words_decide_by_weight ne (by decide) ⟨1, 0⟩
    (show [2, 3] = _ by decide) (by decide)
  exact ⟨counts 0 (by decide), counts 1 (by decide), by decide⟩

end Draw

end Movesets
