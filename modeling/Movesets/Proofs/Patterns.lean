import Movesets.Text.Pattern

set_option autoImplicit false

/-!
# What patterns take

A text is taken as a whole by a pattern exactly when it can be cut up as the pattern says, whatever
is preferred.  Where it can be cut up in several ways, a longest run is the one that no longer run
can stand in for, and a shortest one that no shorter.
-/

namespace Movesets.Pattern

variable {accepts : Char → Bool} {longest : Bool} {least : Nat} {most : Option Nat} {p q : Pattern}
  {c : Char} {cs : List Char} {gs : List (List Char)} {w : Way}

/-- The pattern takes the whole text, and its groups take these parts of it. -/
def Reads : Pattern → List Char → List (List Char) → Prop
  | run accepts least most _, cs, gs =>
    (∀ c ∈ cs, accepts c = true) ∧ least ≤ cs.length ∧ (∀ m ∈ most, cs.length ≤ m) ∧ gs = []
  | seq p q, cs, gs => ∃ cs₁ cs₂ gs₁ gs₂, p.Reads cs₁ gs₁ ∧ q.Reads cs₂ gs₂ ∧
    cs = cs₁ ++ cs₂ ∧ gs = gs₁ ++ gs₂
  | maybe p, cs, gs => p.Reads cs gs ∨ cs = [] ∧ gs = []
  | group p, cs, gs => ∃ inner, p.Reads cs inner ∧ gs = cs :: inner

theorem reads_many : (many accepts).Reads cs gs ↔ (∀ c ∈ cs, accepts c = true) ∧ gs = [] := by
  simp [many, Reads]

theorem reads_one : (one accepts).Reads cs gs ↔ ∃ c, accepts c = true ∧ cs = [c] ∧ gs = [] := by
  constructor
  · rintro ⟨accepted, lower, upper, rfl⟩
    obtain ⟨c, rfl⟩ := List.length_eq_one_iff.mp (Nat.le_antisymm (upper 1 rfl) lower)
    exact ⟨c, accepted c List.mem_cons_self, rfl, rfl⟩
  · rintro ⟨c, accepted, rfl, rfl⟩
    simpa [one, Reads] using accepted

theorem mem_runs_cons : w ∈ runs accepts longest (c :: cs) least most ↔
    least = 0 ∧ w = .stay (c :: cs) ∨ (accepts c = true ∧ most ≠ some 0) ∧
      ∃ v ∈ runs accepts longest cs (least - 1) (most.map (· - 1)), v.after c = w := by
  rw [runs]
  cases longest <;> by_cases short : least = 0 <;>
    by_cases long : accepts c = true ∧ most ≠ some 0 <;> simp [short, long, or_comm]

theorem reads_run_nil : (run accepts least most longest).Reads [] gs ↔ least = 0 ∧ gs = [] := by
  simp [Reads]

theorem reads_run_cons {taken : List Char} :
    (run accepts least most longest).Reads (c :: taken) gs ↔
      (accepts c = true ∧ most ≠ some 0) ∧
        (run accepts (least - 1) (most.map (· - 1)) longest).Reads taken gs := by
  have lower : least ≤ taken.length + 1 ↔ least - 1 ≤ taken.length := by omega
  have upper : (∀ m ∈ most, taken.length + 1 ≤ m) ↔
      most ≠ some 0 ∧ ∀ m ∈ most.map (· - 1), taken.length ≤ m := by
    cases most with
    | none => simp
    | some m => simp; omega
  simp only [Reads, List.forall_mem_cons, List.length_cons, lower, upper]
  constructor
  · rintro ⟨⟨here, rest⟩, lower, ⟨some, upper⟩, none⟩
    exact ⟨⟨here, some⟩, rest, lower, upper, none⟩
  · rintro ⟨⟨here, some⟩, rest, lower, upper, none⟩
    exact ⟨⟨here, rest⟩, lower, ⟨some, upper⟩, none⟩

theorem mem_runs {taken left : List Char} :
    ⟨taken, left, gs⟩ ∈ runs accepts longest cs least most ↔
      cs = taken ++ left ∧ (run accepts least most longest).Reads taken gs := by
  induction cs generalizing least most taken with
  | nil =>
    by_cases short : least = 0 <;> cases taken <;> simp [runs, reads_run_nil, short, Way.stay]
  | cons c cs ih =>
    rw [mem_runs_cons]
    cases taken with
    | nil =>
      simp only [Way.stay, Way.mk.injEq, Way.after, reads_run_nil, List.nil_append]
      grind
    | cons d taken =>
      have inner (v : Way) : v.after c = ⟨d :: taken, left, gs⟩ ↔
          c = d ∧ v = ⟨taken, left, gs⟩ := by
        obtain ⟨taken', left', gs'⟩ := v
        simp [Way.after, and_assoc]
      simp only [inner, reads_run_cons]
      constructor
      · rintro (⟨_, same⟩ | ⟨more, v, mem, rfl, rfl⟩)
        · cases same
        · exact ⟨by rw [(ih.mp mem).1]; rfl, more, (ih.mp mem).2⟩
      · rintro ⟨same, more, rest⟩
        obtain ⟨rfl, rfl⟩ := List.cons.inj same
        exact Or.inr ⟨more, _, ih.mpr ⟨rfl, rest⟩, rfl, rfl⟩

/-- The ways of a pattern are the ways to cut off a text that it reads. -/
theorem mem_ways {taken left : List Char} :
    ⟨taken, left, gs⟩ ∈ p.ways cs ↔ cs = taken ++ left ∧ p.Reads taken gs := by
  induction p generalizing cs taken left gs with
  | run accepts least most longest => exact mem_runs
  | seq p q ihp ihq =>
    simp only [ways, Reads, List.mem_flatMap, List.mem_map]
    constructor
    · rintro ⟨⟨taken₁, left₁, gs₁⟩, first, ⟨taken₂, left₂, gs₂⟩, second, same⟩
      obtain ⟨rfl, readsFirst⟩ := ihp.mp first
      obtain ⟨rfl, readsSecond⟩ := ihq.mp second
      obtain ⟨rfl, rfl, rfl⟩ := Way.mk.inj same
      exact ⟨(List.append_assoc ..).symm, taken₁, taken₂, gs₁, gs₂, readsFirst, readsSecond, rfl,
        rfl⟩
    · rintro ⟨rfl, taken₁, taken₂, gs₁, gs₂, readsFirst, readsSecond, rfl, rfl⟩
      exact ⟨⟨taken₁, taken₂ ++ left, gs₁⟩, ihp.mpr ⟨List.append_assoc .., readsFirst⟩,
        ⟨taken₂, left, gs₂⟩, ihq.mpr ⟨rfl, readsSecond⟩, rfl⟩
  | maybe p ih =>
    simp only [ways, Reads, List.mem_append, List.mem_singleton, ih, Way.stay, Way.mk.injEq]
    grind
  | group p ih =>
    simp only [ways, Reads, List.mem_map]
    constructor
    · rintro ⟨⟨taken', left', inner⟩, mem, same⟩
      obtain ⟨rfl, reads⟩ := ih.mp mem
      obtain ⟨rfl, rfl, rfl⟩ := Way.mk.inj same
      exact ⟨rfl, inner, reads, rfl⟩
    · rintro ⟨rfl, inner, reads, rfl⟩
      exact ⟨⟨taken, left, inner⟩, ih.mpr ⟨rfl, reads⟩, rfl⟩

theorem reads_of_captures? (captured : p.captures? cs = some gs) : p.Reads cs gs := by
  obtain ⟨⟨taken, left, groups⟩, found, rfl⟩ := Option.map_eq_some_iff.mp captured
  have done := List.find?_some found
  obtain ⟨rfl, reads⟩ := mem_ways.mp (List.mem_of_find?_eq_some found)
  obtain rfl : left = [] := List.isEmpty_iff.mp done
  rwa [List.append_nil]

/-- A text that a pattern reads is captured, in one of the ways in which it can be read. -/
theorem exists_captures? (reads : p.Reads cs gs) : ∃ gs', p.captures? cs = some gs' := by
  have mem : ⟨cs, [], gs⟩ ∈ p.ways cs := mem_ways.mpr ⟨(List.append_nil cs).symm, reads⟩
  have found : ((p.ways cs).find? fun w => w.left.isEmpty).isSome = true :=
    List.find?_isSome.mpr ⟨_, mem, rfl⟩
  obtain ⟨w, first⟩ := Option.isSome_iff_exists.mp found
  exact ⟨w.groups, by rw [captures?, first]; rfl⟩

theorem captures?_of_unique (reads : p.Reads cs gs) (unique : ∀ gs', p.Reads cs gs' → gs' = gs) :
    p.captures? cs = some gs := by
  obtain ⟨gs', captured⟩ := exists_captures? reads
  rw [captured, unique gs' (reads_of_captures? captured)]

theorem captures?_eq_none_iff : p.captures? cs = none ↔ ∀ gs, ¬ p.Reads cs gs := by
  constructor
  · intro none gs reads
    obtain ⟨gs', captured⟩ := exists_captures? reads
    rw [none] at captured
    cases captured
  · intro unread
    cases captured : p.captures? cs with
    | none => rfl
    | some gs => exact absurd (reads_of_captures? captured) (unread gs)

/-- The second of two patterns takes the rest of a text, behind the first way of the first pattern
that leaves it something that it can take. -/
theorem captures?_seq : (seq p q).captures? cs =
    (p.ways cs).findSome? fun w => (q.captures? w.left).map (w.groups ++ ·) := by
  rw [captures?, ways, List.find?_flatMap, List.map_findSome?]
  refine congrArg (List.findSome? · (p.ways cs)) (funext fun w => ?_)
  rw [Function.comp_apply, List.find?_map, captures?, Option.map_map, Option.map_map]
  rfl

/-! ## Preference -/

variable {α : Type} {take : Way → Option α} {taken left : List Char} {a : α}

theorem runs_longest_cons (head : accepts c = true) : runs accepts true (c :: cs) least none =
    (runs accepts true cs (least - 1) none).map (.after c) ++
      if least = 0 then [.stay (c :: cs)] else [] := by
  simp [runs, head]

theorem runs_shortest_cons (head : accepts c = true) : runs accepts false (c :: cs) least none =
    (if least = 0 then [.stay (c :: cs)] else []) ++
      (runs accepts false cs (least - 1) none).map (.after c) := by
  simp [runs, head]

/-- Of the runs that can be taken the first to be tried is one that no longer run stands in for. -/
theorem findSome?_longest (accepted : ∀ c ∈ taken, accepts c = true) (enough : least ≤ taken.length)
    (here : take ⟨taken, left, []⟩ = some a)
    (longer : ∀ more left', left = more ++ left' → more ≠ [] → (∀ c ∈ more, accepts c = true) →
      take ⟨taken ++ more, left', []⟩ = none) :
    (runs accepts true (taken ++ left) least none).findSome? take = some a := by
  induction taken generalizing least take with
  | nil =>
    obtain rfl : least = 0 := Nat.le_zero.mp enough
    cases left with
    | nil => simpa [runs, Way.stay] using here
    | cons c left =>
      by_cases head : accepts c = true
      · have refused : ((runs accepts true left 0 none).map (.after c)).findSome? take = none := by
          refine List.findSome?_eq_none_iff.mpr fun w mem => ?_
          obtain ⟨⟨more, left', gs⟩, inner, rfl⟩ := List.mem_map.mp mem
          obtain ⟨rfl, rest, _, _, rfl⟩ := mem_runs.mp inner
          exact longer (c :: more) left' rfl (List.cons_ne_nil c more)
            (List.forall_mem_cons.mpr ⟨head, rest⟩)
        rw [List.nil_append, runs_longest_cons head, List.findSome?_append, Nat.zero_sub, refused,
          Option.none_or, if_pos rfl, List.findSome?_singleton]
        exact here
      · simpa [runs, head, Way.stay] using here
  | cons c taken ih =>
    obtain ⟨head, rest⟩ := List.forall_mem_cons.mp accepted
    have more := @ih (least - 1) (take ∘ .after c) rest (Nat.sub_le_of_le_add enough) here longer
    rw [List.cons_append, runs_longest_cons head, List.findSome?_append, List.findSome?_map, more,
      Option.some_or]

theorem findSome?_shortest (accepted : ∀ c ∈ taken, accepts c = true)
    (enough : least ≤ taken.length) (here : take ⟨taken, left, []⟩ = some a)
    (shorter : ∀ less more, taken = less ++ more → more ≠ [] → least ≤ less.length →
      take ⟨less, more ++ left, []⟩ = none) :
    (runs accepts false (taken ++ left) least none).findSome? take = some a := by
  induction taken generalizing least take with
  | nil =>
    obtain rfl : least = 0 := Nat.le_zero.mp enough
    cases left with
    | nil => simpa [runs, Way.stay] using here
    | cons c left => simp [runs, Way.stay, here]
  | cons c taken ih =>
    obtain ⟨head, rest⟩ := List.forall_mem_cons.mp accepted
    have later := @ih (least - 1) (take ∘ .after c) rest (Nat.sub_le_of_le_add enough) here
      fun less more cut left enough => shorter (c :: less) more (by rw [cut]; rfl) left
        (Nat.le_add_of_sub_le enough)
    rw [List.cons_append, runs_shortest_cons head, List.findSome?_append, List.findSome?_map, later]
    split
    next zero =>
      have now : take (.stay (c :: (taken ++ left))) = none :=
        shorter [] (c :: taken) rfl (List.cons_ne_nil c taken) (Nat.le_of_eq zero)
      rw [List.findSome?_singleton, now, Option.none_or]
    next => rfl

end Movesets.Pattern
