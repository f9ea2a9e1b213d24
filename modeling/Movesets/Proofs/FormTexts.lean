import Mathlib.Data.Nat.Digits.Lemmas
import Movesets.Proofs.Spelling

set_option autoImplicit false

/-!
# Texts that name forms

A text names a form exactly when it has one bar with a plugin before it and a local id behind it,
and the printed text of a form names that form exactly when its plugin stands for itself: it has no
bar, is not empty, and has no blanks around it unless it is one blank.
-/

namespace Movesets

namespace Text

/-- The text is `core` with blanks around it. -/
def Surrounds (cs core : List Char) : Prop :=
  BareEnds core ∧ ∃ front back, cs = front ++ core ++ back ∧
    (∀ c ∈ front, isBlank c = true) ∧ ∀ c ∈ back, isBlank c = true

theorem trim_eq_iff {cs core : List Char} : trim cs = core ↔ Surrounds cs core := by
  constructor
  · rintro rfl
    refine ⟨bareEnds_trim cs, cs.takeWhile isBlank, (cs.dropWhile isBlank).rtakeWhile isBlank, ?_,
      fun c mem => List.mem_takeWhile_imp mem, fun c mem => List.mem_rtakeWhile_imp mem⟩
    have back : trim cs ++ (cs.dropWhile isBlank).rtakeWhile isBlank = cs.dropWhile isBlank :=
      List.rdropWhile_append_rtakeWhile
    rw [List.append_assoc, back, List.takeWhile_append_dropWhile]
  · rintro ⟨bare, front, back, rfl, before, behind⟩
    rw [trim_append_blank behind, trim_blank_append before, trim_of_bareEnds bare]

/-- The characters are hexadecimal digits with these values. -/
def HasDigits (cs : List Char) (ds : List Nat) : Prop :=
  List.Forall₂ (fun c d => hexDigit? c = some d) cs ds

/-- The number that digits of these values spell; the first digit weighs most. -/
def hexValue (ds : List Nat) : Nat := Nat.ofDigits 16 ds.reverse

theorem hexValue_cons (d : Nat) (ds : List Nat) :
    hexValue (d :: ds) = d * 16 ^ ds.length + hexValue ds := by
  rw [hexValue, List.reverse_cons, Nat.ofDigits_append, List.length_reverse, Nat.ofDigits_singleton,
    hexValue, Nat.add_comm, Nat.mul_comm]

theorem readHexFrom_eq_some_iff {acc n : Nat} {cs : List Char} : readHexFrom acc cs = some n ↔
    ∃ ds, HasDigits cs ds ∧ n = acc * 16 ^ ds.length + hexValue ds := by
  induction cs generalizing acc with
  | nil => simp [readHexFrom, HasDigits, hexValue, eq_comm]
  | cons c cs ih =>
    have pushed (d : Nat) (ds : List Nat) : acc * 16 ^ (d :: ds).length + hexValue (d :: ds) =
        (16 * acc + d) * 16 ^ ds.length + hexValue ds := by
      rw [hexValue_cons, List.length_cons, Nat.pow_succ]
      ring
    rw [readHexFrom, Option.bind_eq_some_iff]
    constructor
    · rintro ⟨d, digit, read⟩
      obtain ⟨ds, rest, rfl⟩ := ih.mp read
      exact ⟨d :: ds, .cons digit rest, (pushed d ds).symm⟩
    · rintro ⟨ds, digits, rfl⟩
      obtain ⟨d, ds, digit, rest, rfl⟩ := List.forall₂_cons_left_iff.mp digits
      exact ⟨d, digit, ih.mpr ⟨ds, rest, pushed d ds⟩⟩

theorem readHex_eq_some_iff {n : Nat} {cs : List Char} :
    readHex cs = some n ↔ cs ≠ [] ∧ ∃ ds, HasDigits cs ds ∧ n = hexValue ds := by
  by_cases empty : cs = []
  · subst empty
    simp [readHex]
  · rw [readHex_of_ne_nil empty, readHexFrom_eq_some_iff]
    simp [empty]

theorem hexDigit?_lt {c : Char} {d : Nat} (digit : hexDigit? c = some d) : d < 16 := by
  simp only [hexDigit?] at digit
  split_ifs at digit <;> cases digit <;> omega

theorem isBlank_of_hexDigit? {c : Char} {d : Nat} (digit : hexDigit? c = some d) :
    isBlank c = false := by
  simp only [hexDigit?] at digit
  rw [Bool.eq_false_iff]
  intro blank
  simp only [isBlank, Bool.or_eq_true, Bool.and_eq_true, decide_eq_true_eq, beq_iff_eq] at blank
  split_ifs at digit <;> omega

theorem hexValue_lt {cs : List Char} {ds : List Nat} (digits : HasDigits cs ds) :
    hexValue ds < 16 ^ cs.length := by
  induction digits with
  | nil => decide
  | @cons c d cs ds digit rest ih =>
    have small := hexDigit?_lt digit
    rw [hexValue_cons, List.length_cons, ← rest.length_eq]
    calc d * 16 ^ cs.length + hexValue ds
        < d * 16 ^ cs.length + 16 ^ cs.length := Nat.add_lt_add_left ih _
      _ = (d + 1) * 16 ^ cs.length := (Nat.succ_mul ..).symm
      _ ≤ 16 * 16 ^ cs.length := Nat.mul_le_mul_right _ small
      _ = 16 ^ (cs.length + 1) := by rw [Nat.pow_succ, Nat.mul_comm]

end Text

namespace Form
open Text

/-- The plugin is what stands before the bar, without blanks around it, and of blanks alone the last
one. -/
def SpellsPlugin (before plugin : List Char) : Prop :=
  plugin ≠ [] ∧ Surrounds before plugin ∨
    (∀ c ∈ before, isBlank c = true) ∧ ∃ c, before.getLast? = some c ∧ plugin = [c]

/-- What may stand before the digits of a local id. -/
def marks : List (List Char) := [[], ['0', 'x'], ['0', 'X']]

/-- Behind the bar stand one to eight digits of these values, perhaps with a mark before them, and
nothing else but blanks around them. -/
structure IdDigits (after digits : List Char) (ds : List Nat) : Prop where
  surrounds : ∃ mark ∈ marks, Surrounds after (mark ++ digits)
  nonempty : digits ≠ []
  length_le : digits.length ≤ 8
  values : HasDigits digits ds

/-- The text has one bar, with the plugin before it and the local id behind it. -/
def Spells (cs plugin : List Char) (localId : Nat) : Prop :=
  ∃ before after digits ds, cs = before ++ '|' :: after ∧ '|' ∉ before ∧ '|' ∉ after ∧
    SpellsPlugin before plugin ∧ IdDigits after digits ds ∧ localId = hexValue ds

theorem readPlugin?_eq_some_iff {before plugin : List Char} :
    readPlugin? before = some plugin ↔ SpellsPlugin before plugin := by
  rw [readPlugin?, SpellsPlugin, ← trim_eq_iff]
  cases trimmed : trim before with
  | nil =>
    constructor
    · intro read
      obtain ⟨c, last, rfl⟩ := Option.map_eq_some_iff.mp read
      exact Or.inr ⟨isBlank_of_trim_eq_nil trimmed, c, last, rfl⟩
    · rintro (⟨nonempty, rfl⟩ | ⟨_, c, last, rfl⟩)
      · exact absurd rfl nonempty
      · exact Option.map_eq_some_iff.mpr ⟨c, last, rfl⟩
  | cons c rest =>
    constructor
    · rintro ⟨⟩
      exact Or.inl ⟨List.cons_ne_nil c rest, rfl⟩
    · rintro (⟨_, rfl⟩ | ⟨blank, _⟩)
      · rfl
      · rw [trim, List.dropWhile_eq_nil_iff.mpr blank] at trimmed
        cases trimmed

theorem exists_spellsPlugin_iff {before : List Char} :
    (∃ plugin, SpellsPlugin before plugin) ↔ before ≠ [] := by
  simp only [← readPlugin?_eq_some_iff]
  constructor
  · rintro ⟨plugin, read⟩ rfl
    cases read
  · intro nonempty
    unfold readPlugin?
    split
    next => exact ⟨_, by rw [List.getLast?_eq_some_getLast nonempty]; rfl⟩
    next => exact ⟨trim before, rfl⟩

theorem exists_mark (cs : List Char) : ∃ mark ∈ marks, cs = mark ++ dropMark cs := by
  unfold dropMark
  split
  next cs => exact ⟨['0', 'x'], by simp [marks], rfl⟩
  next cs => exact ⟨['0', 'X'], by simp [marks], rfl⟩
  next => exact ⟨[], by simp [marks], rfl⟩

theorem bar_not_mem_mark : ∀ mark ∈ marks, '|' ∉ mark := by decide

theorem isBlank_of_mem_mark {mark : List Char} (mem : mark ∈ marks) {c : Char} (inside : c ∈ mark) :
    isBlank c = false := by
  have all : (marks.all fun mark => mark.all fun c => !isBlank c) = true := by decide
  simpa using List.all_eq_true.mp (List.all_eq_true.mp all mark mem) c inside

theorem exists_value {digits : List Char} {ds : List Nat} (values : HasDigits digits ds) {c : Char}
    (mem : c ∈ digits) : ∃ d, hexDigit? c = some d := by
  induction values with
  | nil => cases mem
  | cons digit _ ih =>
    rcases List.mem_cons.mp mem with rfl | later
    · exact ⟨_, digit⟩
    · exact ih later

theorem dropMark_of_hasDigits {digits : List Char} {ds : List Nat} (values : HasDigits digits ds) :
    dropMark digits = digits := by
  unfold dropMark
  split
  next =>
    obtain ⟨d, digit⟩ := exists_value values (c := 'x') (by simp)
    cases digit
  next =>
    obtain ⟨d, digit⟩ := exists_value values (c := 'X') (by simp)
    cases digit
  next => rfl

section

variable {after digits : List Char} {ds : List Nat}

theorem IdDigits.dropMark_trim (spelled : IdDigits after digits ds) :
    dropMark (trim after) = digits := by
  obtain ⟨mark, mem, around⟩ := spelled.surrounds
  rw [trim_eq_iff.mpr around]
  simp only [marks, List.mem_cons, List.not_mem_nil, or_false] at mem
  rcases mem with rfl | rfl | rfl
  · exact dropMark_of_hasDigits spelled.values
  · rfl
  · rfl

theorem IdDigits.value_lt (spelled : IdDigits after digits ds) : hexValue ds < UInt32.size :=
  calc hexValue ds < 16 ^ digits.length := hexValue_lt spelled.values
    _ ≤ 16 ^ 8 := Nat.pow_le_pow_right (by decide) spelled.length_le
    _ = UInt32.size := by decide

theorem IdDigits.bar_not_mem (spelled : IdDigits after digits ds) : '|' ∉ after := by
  obtain ⟨mark, mem, _, front, back, rfl, before, behind⟩ := spelled.surrounds
  simp only [List.mem_append, not_or]
  refine ⟨⟨fun bar => ?_, fun bar => ?_, fun bar => ?_⟩, fun bar => ?_⟩
  · exact absurd (before '|' bar) (by decide)
  · exact absurd bar (bar_not_mem_mark mark mem)
  · obtain ⟨d, digit⟩ := exists_value spelled.values bar
    cases digit
  · exact absurd (behind '|' bar) (by decide)

theorem readId?_eq_some_iff {id : UInt32} :
    readId? after = some id ↔ ∃ digits ds, IdDigits after digits ds ∧ id.toNat = hexValue ds := by
  constructor
  · intro read
    simp only [readId?] at read
    split_ifs at read with short
    obtain ⟨n, hex, rfl⟩ := Option.map_eq_some_iff.mp read
    obtain ⟨nonempty, ds, values, rfl⟩ := readHex_eq_some_iff.mp hex
    obtain ⟨mark, mem, cut⟩ := exists_mark (trim after)
    have spelled : IdDigits after (dropMark (trim after)) ds :=
      ⟨⟨mark, mem, trim_eq_iff.mp cut⟩, nonempty, short, values⟩
    exact ⟨_, ds, spelled, UInt32.toNat_ofNat_of_lt' spelled.value_lt⟩
  · rintro ⟨digits, ds, spelled, value⟩
    have hex : readHex digits = some id.toNat :=
      readHex_eq_some_iff.mpr ⟨spelled.nonempty, ds, spelled.values, value⟩
    simp only [readId?, spelled.dropMark_trim, spelled.length_le, if_true, hex, Option.map_some,
      UInt32.ofNat_toNat]

end

/-- A text is read as the form that it spells, and as no form if it spells none. -/
theorem parse?_eq_some_iff {s : String} {f : Form} :
    parse? s = some f ↔ Spells s.toList f.plugin.toList f.localId.toNat := by
  constructor
  · intro read
    by_cases bar : '|' ∈ s.toList
    · obtain ⟨before, after, cut, without⟩ := List.eq_append_cons_of_mem bar
      rw [← String.ofList_toList (s := s), cut, parse?_append without] at read
      obtain ⟨plugin, named, read⟩ := Option.bind_eq_some_iff.mp read
      obtain ⟨id, numbered, rfl⟩ := Option.map_eq_some_iff.mp read
      obtain ⟨digits, ds, spelled, value⟩ := readId?_eq_some_iff.mp numbered
      refine ⟨before, after, digits, ds, cut, without, spelled.bar_not_mem, ?_, spelled, value⟩
      rw [String.toList_ofList]
      exact readPlugin?_eq_some_iff.mp named
    · have none : s.toList.dropWhile (· != '|') = [] :=
        List.dropWhile_eq_nil_iff.mpr fun c mem => bne_iff_ne.mpr fun same => bar (same ▸ mem)
      simp only [parse?, none] at read
      cases read
  · rintro ⟨before, after, digits, ds, cut, without, _, plugin, spelled, value⟩
    rw [← String.ofList_toList (s := s), cut, parse?_append without,
      readPlugin?_eq_some_iff.mpr plugin, readId?_eq_some_iff.mpr ⟨digits, ds, spelled, value⟩,
      Option.bind_some, Option.map_some, String.ofList_toList]

/-- A form is named by its own text exactly when its plugin is what is read before a bar.  Whatever
names a form, its own text does too. -/
theorem print_names_form (f : Form) :
    (parse? f.print = some f ↔ f.plugin ≠ "" ∧ '|' ∉ f.plugin.toList ∧
      (BareEnds f.plugin.toList ∨ ∃ c, f.plugin.toList = [c] ∧ isBlank c = true)) ∧
    ∀ s, parse? s = some f → parse? f.print = some f := by
  refine ⟨⟨fun read => ?_, ?_⟩, fun s read => parse?_print ⟨s, read⟩⟩
  · obtain ⟨before, after, _, _, cut, without, without', plugin, _, _⟩ :=
      parse?_eq_some_iff.mp read
    rw [toList_print, eq_comm, List.append_cons_inj_of_notMem without without'] at cut
    obtain ⟨rfl, -, -⟩ := cut
    rcases plugin with ⟨nonempty, bare, _⟩ | ⟨blank, c, last, alone⟩
    · exact ⟨fun empty => nonempty (by rw [empty]; rfl), without, Or.inl bare⟩
    · refine ⟨fun empty => ?_, without, Or.inr ⟨c, alone, ?_⟩⟩
      · rw [empty] at alone
        cases alone
      · exact blank c (List.mem_of_getLast? last)
  · rintro ⟨nonempty, without, kept⟩
    have plugin : SpellsPlugin f.plugin.toList f.plugin.toList := by
      rcases kept with bare | ⟨c, alone, blank⟩
      · refine Or.inl ⟨fun empty => nonempty (String.toList_eq_nil_iff.mp empty), bare, [], [], ?_⟩
        simp
      · rw [alone]
        exact Or.inr ⟨by simpa using blank, c, rfl, rfl⟩
    rw [← String.ofList_toList (s := f.print), toList_print, parse?_append without,
      readPlugin?_eq_some_iff.mpr plugin, readId?_writeHex, Option.bind_some, Option.map_some,
      String.ofList_toList]

theorem print_names_form_blank : parse? " \t |0X00000a" = some ⟨" ", 10⟩ ∧
    parse? (print ⟨" ", 10⟩) = some ⟨" ", 10⟩ :=
  ⟨by decide, (print_names_form ⟨" ", 10⟩).2 " \t |0X00000a" (by decide)⟩

end Form

end Movesets
