import Movesets.Proofs.FormTexts
import Movesets.Proofs.Patterns

set_option autoImplicit false

/-!
# The pattern of forms

Forms are written by the pattern `\s*([^|]+?)\s*\|\s*(?:0[xX])?([0-9A-Fa-f]{1,8})\s*`, whose groups
are the plugin and the digits of the local id.  The blanks in front are taken first, all of them;
the plugin is then as short as it can be, and where nothing is left for it, it gets the last blank
back.  What is read is what the groups take, and eight digits always fit.
-/

namespace Movesets.Form
open Text Pattern

def isHexDigit (c : Char) : Bool := (hexDigit? c).isSome

/-- What stands behind the bar. -/
def idPattern : Pattern :=
  .seq (.many isBlank) <|
  .seq (.maybe (.seq (.one (· == '0')) (.one fun c => c == 'x' || c == 'X'))) <|
  .seq (.group (.run isHexDigit 1 (some 8) true)) (.many isBlank)

/-- What stands behind the plugin. -/
def barPattern : Pattern := .seq (.many isBlank) (.seq (.one (· == '|')) idPattern)

/-- What stands behind the blanks in front. -/
def pluginPattern : Pattern := .seq (.group (.run (· != '|') 1 none false)) barPattern

def pattern : Pattern := .seq (.many isBlank) pluginPattern

/-- The word of 32 bits that digits spell, if it is not too large for one. -/
def word? (digits : List Char) : Option UInt32 :=
  (readHex digits).bind fun n => if n < UInt32.size then some (.ofNat n) else none

/-- The form of a plugin and digits that were captured. -/
def ofGroups? : List (List Char) → Option Form
  | [plugin, digits] => (word? digits).map fun localId => ⟨.ofList plugin, localId⟩
  | _ => none

variable {before after plugin digits : List Char} {ds : List Nat} {gs : List (List Char)}

theorem IdDigits.word? (spelled : IdDigits after digits ds) :
    Form.word? digits = some (.ofNat (hexValue ds)) := by
  have hex : readHex digits = some (hexValue ds) :=
    readHex_eq_some_iff.mpr ⟨spelled.nonempty, ds, spelled.values, rfl⟩
  rw [Form.word?, hex, Option.bind_some, if_pos spelled.value_lt]

theorem IdDigits.digits_eq {digits' : List Char} {ds' : List Nat}
    (spelled : IdDigits after digits ds) (spelled' : IdDigits after digits' ds') :
    digits = digits' := by
  rw [← spelled.dropMark_trim, spelled'.dropMark_trim]

theorem reads_mark {mark : List Char} :
    (maybe (seq (one (· == '0')) (one fun c => c == 'x' || c == 'X'))).Reads mark gs ↔
      mark ∈ marks ∧ gs = [] := by
  simp only [Reads, reads_one]
  constructor
  · rintro (⟨_, _, _, _, ⟨c, zero, rfl, rfl⟩, ⟨d, letter, rfl, rfl⟩, rfl, rfl⟩ | ⟨rfl, rfl⟩)
    · rw [beq_iff_eq] at zero
      rw [Bool.or_eq_true, beq_iff_eq, beq_iff_eq] at letter
      rcases letter with rfl | rfl <;> simp [marks, zero]
    · simp [marks]
  · rintro ⟨mem, rfl⟩
    simp only [marks, List.mem_cons, List.not_mem_nil, or_false] at mem
    rcases mem with rfl | rfl | rfl
    · exact Or.inr ⟨rfl, rfl⟩
    · exact Or.inl ⟨['0'], ['x'], [], [], ⟨'0', rfl, rfl, rfl⟩, ⟨'x', rfl, rfl, rfl⟩, rfl, rfl⟩
    · exact Or.inl ⟨['0'], ['X'], [], [], ⟨'0', rfl, rfl, rfl⟩, ⟨'X', rfl, rfl, rfl⟩, rfl, rfl⟩

theorem exists_hasDigits_iff : (∃ ds, HasDigits digits ds) ↔ ∀ c ∈ digits, isHexDigit c = true := by
  constructor
  · rintro ⟨ds, values⟩ c mem
    exact Option.isSome_iff_exists.mpr (exists_value values mem)
  · intro hex
    induction digits with
    | nil => exact ⟨[], .nil⟩
    | cons c digits ih =>
      obtain ⟨head, rest⟩ := List.forall_mem_cons.mp hex
      obtain ⟨d, digit⟩ := Option.isSome_iff_exists.mp head
      obtain ⟨ds, values⟩ := ih rest
      exact ⟨d :: ds, .cons digit values⟩

theorem bareEnds_of_marked {mark : List Char} (mem : mark ∈ marks) (values : HasDigits digits ds) :
    BareEnds (mark ++ digits) := by
  refine bareEnds_of_nonblank fun c inside => ?_
  rcases List.mem_append.mp inside with front | back
  · exact isBlank_of_mem_mark mem front
  · obtain ⟨d, digit⟩ := exists_value values back
    exact isBlank_of_hexDigit? digit

theorem reads_idPattern :
    idPattern.Reads after gs ↔ ∃ digits ds, IdDigits after digits ds ∧ gs = [digits] := by
  constructor
  · rintro ⟨front, _, _, _, blanks, rest, rfl, rfl⟩
    obtain ⟨mark, _, _, _, marked, rest, rfl, rfl⟩ := rest
    obtain ⟨digits, back, _, _, ⟨_, run, rfl⟩, blanks', rfl, rfl⟩ := rest
    obtain ⟨before, rfl⟩ := reads_many.mp blanks
    obtain ⟨mem, rfl⟩ := reads_mark.mp marked
    obtain ⟨hex, lower, upper, rfl⟩ := run
    obtain ⟨behind, rfl⟩ := reads_many.mp blanks'
    obtain ⟨ds, values⟩ := exists_hasDigits_iff.mpr hex
    have around : Surrounds (front ++ (mark ++ (digits ++ back))) (mark ++ digits) :=
      ⟨bareEnds_of_marked mem values, front, back, by simp, before, behind⟩
    exact ⟨digits, ds, ⟨⟨mark, mem, around⟩, List.ne_nil_of_length_pos lower, upper 8 rfl, values⟩,
      rfl⟩
  · rintro ⟨digits, ds, spelled, rfl⟩
    obtain ⟨⟨mark, mem, _, front, back, rfl, before, behind⟩, nonempty, short, values⟩ := spelled
    have hex : (Pattern.run isHexDigit 1 (some 8) true).Reads digits [] :=
      ⟨exists_hasDigits_iff.mp ⟨ds, values⟩, List.length_pos_iff.mpr nonempty,
        by simpa using short, rfl⟩
    exact ⟨front, mark ++ (digits ++ back), [], [digits], reads_many.mpr ⟨before, rfl⟩,
      ⟨mark, digits ++ back, [], [digits], reads_mark.mpr ⟨mem, rfl⟩,
        ⟨digits, back, [digits], [], ⟨[], hex, rfl⟩, reads_many.mpr ⟨behind, rfl⟩, rfl, rfl⟩,
        rfl, rfl⟩, by simp, rfl⟩

theorem reads_barPattern {cs : List Char} : barPattern.Reads cs gs ↔
    ∃ back after, cs = back ++ '|' :: after ∧ (∀ c ∈ back, isBlank c = true) ∧
      idPattern.Reads after gs := by
  constructor
  · rintro ⟨back, _, _, _, blanks, rest, rfl, rfl⟩
    obtain ⟨_, after, _, _, bar, spelled, rfl, rfl⟩ := rest
    obtain ⟨blank, rfl⟩ := reads_many.mp blanks
    obtain ⟨c, same, rfl, rfl⟩ := reads_one.mp bar
    rw [beq_iff_eq] at same
    exact ⟨back, after, by rw [same]; rfl, blank, spelled⟩
  · rintro ⟨back, after, rfl, blank, spelled⟩
    exact ⟨back, '|' :: after, [], gs, reads_many.mpr ⟨blank, rfl⟩,
      ⟨['|'], after, [], gs, reads_one.mpr ⟨'|', rfl, rfl, rfl⟩, spelled, rfl, rfl⟩, rfl, rfl⟩

theorem bar_not_mem_of_blank {cs : List Char} (blank : ∀ c ∈ cs, isBlank c = true) : '|' ∉ cs :=
  fun bar => absurd (blank '|' bar) (by decide)

theorem captures?_pluginPattern_bar (cs : List Char) :
    pluginPattern.captures? ('|' :: cs) = none := by
  refine captures?_eq_none_iff.mpr fun gs reads => ?_
  obtain ⟨run, _, _, _, ⟨_, ⟨others, enough, _, _⟩, _⟩, _, cut, _⟩ := reads
  cases run with
  | nil => exact absurd enough (by decide)
  | cons c run =>
    obtain ⟨rfl, -⟩ := List.cons.inj cut
    exact absurd (others '|' List.mem_cons_self) (by decide)

/-- No part that the plugin starts with leaves blanks alone behind it. -/
def IsShortest (plugin : List Char) : Prop :=
  ∀ less more, plugin = less ++ more → less ≠ [] → more ≠ [] → ∃ c ∈ more, isBlank c = false

theorem isShortest_of_bareEnds (bare : BareEnds plugin) : IsShortest plugin := by
  rintro less more rfl _ left
  refine ⟨more.getLast left, List.getLast_mem left, bare.2 _ ?_⟩
  rw [List.getLast?_append_of_ne_nil _ left, List.getLast?_eq_some_getLast left]
  rfl

theorem isShortest_singleton (c : Char) : IsShortest [c] := by
  intro less more cut start left
  rcases List.append_eq_singleton_iff.mp cut.symm with ⟨empty, _⟩ | ⟨_, empty⟩
  · exact absurd empty start
  · exact absurd empty left

section

variable {back : List Char} (spelled : IdDigits after digits ds)
include spelled

/-- Behind the plugin blanks are passed over and the digits captured. -/
theorem captures?_barPattern (blank : ∀ c ∈ back, isBlank c = true) :
    barPattern.captures? (back ++ '|' :: after) = some [digits] := by
  have reads : idPattern.Reads after [digits] := reads_idPattern.mpr ⟨digits, ds, spelled, rfl⟩
  refine captures?_of_unique (reads_barPattern.mpr ⟨back, after, rfl, blank, reads⟩) ?_
  intro gs reads'
  obtain ⟨back', after', cut, blank', rest⟩ := reads_barPattern.mp reads'
  rw [List.append_cons_inj_of_notMem (bar_not_mem_of_blank blank) spelled.bar_not_mem] at cut
  obtain ⟨-, -, rfl⟩ := cut
  obtain ⟨digits', ds', spelled', rfl⟩ := reads_idPattern.mp rest
  rw [spelled.digits_eq spelled']

theorem captures?_barPattern_eq_none {more : List Char} (without : '|' ∉ more) {c : Char}
    (mem : c ∈ more) (visible : isBlank c = false) :
    barPattern.captures? (more ++ '|' :: after) = none := by
  refine captures?_eq_none_iff.mpr fun gs reads => ?_
  obtain ⟨back, after', cut, blank, _⟩ := reads_barPattern.mp reads
  rw [List.append_cons_inj_of_notMem without spelled.bar_not_mem] at cut
  obtain ⟨rfl, -, -⟩ := cut
  rw [blank c mem] at visible
  cases visible

/-- The plugin ends where nothing but blanks stand before the bar; it is not empty. -/
theorem captures?_pluginPattern (nonempty : plugin ≠ []) (shortest : IsShortest plugin)
    (without : '|' ∉ plugin) (blank : ∀ c ∈ back, isBlank c = true) :
    pluginPattern.captures? (plugin ++ (back ++ '|' :: after)) = some [plugin, digits] := by
  have others : ∀ c ∈ plugin, (c != '|') = true :=
    fun c mem => bne_iff_ne.mpr fun same => without (same ▸ mem)
  rw [pluginPattern, captures?_seq, ways, List.findSome?_map]
  apply findSome?_shortest others (List.length_pos_iff.mpr nonempty)
  · simp [Way.captured, captures?_barPattern spelled blank]
  · intro less more cut left enough
    obtain ⟨c, mem, visible⟩ := shortest less more cut (List.ne_nil_of_length_pos enough) left
    have without' : '|' ∉ more ++ back := by
      rw [List.mem_append, not_or]
      exact ⟨fun bar => without (cut ▸ List.mem_append_right less bar), bar_not_mem_of_blank blank⟩
    have refused :=
      captures?_barPattern_eq_none spelled without' (List.mem_append_left back mem) visible
    rw [List.append_assoc] at refused
    simp [Way.captured, refused]

/-- The blanks in front are all passed over, because a plugin does not start with one. -/
theorem captures?_pattern_of_surrounds (nonempty : plugin ≠ []) (around : Surrounds before plugin)
    (without : '|' ∉ before) :
    pattern.captures? (before ++ '|' :: after) = some [plugin, digits] := by
  obtain ⟨bare, front, back, rfl, blank, blank'⟩ := around
  have without' : '|' ∉ plugin := fun bar => without (by simp [bar])
  have text : front ++ plugin ++ back ++ '|' :: after =
      front ++ (plugin ++ (back ++ '|' :: after)) := by simp
  rw [pattern, captures?_seq, text]
  apply findSome?_longest blank (Nat.zero_le _)
  · rw [captures?_pluginPattern spelled nonempty (isShortest_of_bareEnds bare) without' blank']
    rfl
  · intro more left cut some blanks
    obtain ⟨c, plugin, rfl⟩ := List.exists_cons_of_ne_nil nonempty
    obtain ⟨d, more, rfl⟩ := List.exists_cons_of_ne_nil some
    obtain ⟨rfl, -⟩ := List.cons.inj cut
    have visible := bare.1 c rfl
    rw [blanks c List.mem_cons_self] at visible
    cases visible

/-- Of blanks alone all but the last one are passed over, which is left for the plugin. -/
theorem captures?_pattern_of_blank {front : List Char} {c : Char}
    (blank : ∀ d ∈ front ++ [c], isBlank d = true) :
    pattern.captures? (front ++ [c] ++ '|' :: after) = some [[c], digits] := by
  have without : '|' ∉ [c] := fun bar =>
    bar_not_mem_of_blank blank (List.mem_append_right front bar)
  have text : front ++ [c] ++ '|' :: after = front ++ ([c] ++ ([] ++ '|' :: after)) := by simp
  rw [pattern, captures?_seq, text]
  apply findSome?_longest (fun d mem => blank d (List.mem_append_left _ mem)) (Nat.zero_le _)
  · rw [captures?_pluginPattern spelled (List.cons_ne_nil c []) (isShortest_singleton c) without
      (by simp)]
    rfl
  · intro more left cut some blanks
    -- One blank more leaves the bar to the plugin, and a run does not go on behind the bar.
    obtain ⟨d, more, rfl⟩ := List.exists_cons_of_ne_nil some
    obtain ⟨rfl, rest⟩ := List.cons.inj cut
    cases more with
    | nil =>
      obtain rfl : '|' :: after = left := rest
      exact congrArg (Option.map _) (captures?_pluginPattern_bar after)
    | cons d more =>
      obtain ⟨rfl, -⟩ := List.cons.inj rest
      exact absurd (blanks '|' (by simp)) (by decide)

theorem captures?_pattern (without : '|' ∉ before) (named : SpellsPlugin before plugin) :
    pattern.captures? (before ++ '|' :: after) = some [plugin, digits] := by
  rcases named with ⟨nonempty, around⟩ | ⟨blank, c, last, rfl⟩
  · exact captures?_pattern_of_surrounds spelled nonempty around without
  · obtain ⟨front, rfl⟩ := List.getLast?_eq_some_iff.mp last
    exact captures?_pattern_of_blank spelled blank

end

example : pattern.captures? [' ', '\t', '|', '0', 'x', '1', 'F'] = some [['\t'], ['1', 'F']] := by
  decide

theorem exists_bar_of_reads {cs : List Char} (reads : pattern.Reads cs gs) :
    ∃ before after digits ds, cs = before ++ '|' :: after ∧ '|' ∉ before ∧ before ≠ [] ∧
      IdDigits after digits ds := by
  obtain ⟨front, _, _, _, blanks, rest, rfl, _⟩ := reads
  obtain ⟨plugin, _, _, _, ⟨_, ⟨others, enough, _, _⟩, _⟩, rest, rfl, _⟩ := rest
  obtain ⟨blank, _⟩ := reads_many.mp blanks
  obtain ⟨back, after, rfl, blank', reads⟩ := reads_barPattern.mp rest
  obtain ⟨digits, ds, spelled, _⟩ := reads_idPattern.mp reads
  refine ⟨front ++ plugin ++ back, after, digits, ds, by simp, ?_, ?_, spelled⟩
  · simp only [List.mem_append, not_or]
    exact ⟨⟨bar_not_mem_of_blank blank, fun bar => absurd (others '|' bar) (by decide)⟩,
      bar_not_mem_of_blank blank'⟩
  · have nonempty := List.ne_nil_of_length_pos enough
    simp [nonempty]

/-- What the groups take is the plugin and the digits that the text spells. -/
theorem captures?_pattern_eq_some_iff {cs : List Char} : pattern.captures? cs = some gs ↔
    ∃ before after plugin digits ds, cs = before ++ '|' :: after ∧ '|' ∉ before ∧
      SpellsPlugin before plugin ∧ IdDigits after digits ds ∧ gs = [plugin, digits] := by
  constructor
  · intro captured
    obtain ⟨before, after, digits, ds, rfl, without, nonempty, spelled⟩ :=
      exists_bar_of_reads (reads_of_captures? captured)
    obtain ⟨plugin, named⟩ := exists_spellsPlugin_iff.mpr nonempty
    rw [captures?_pattern spelled without named] at captured
    exact ⟨before, after, plugin, digits, ds, rfl, without, named, spelled,
      (Option.some.inj captured).symm⟩
  · rintro ⟨before, after, plugin, digits, ds, rfl, without, named, spelled, rfl⟩
    exact captures?_pattern spelled without named

theorem captured_eq_some_iff {cs : List Char} {f : Form} :
    (pattern.captures? cs).bind ofGroups? = some f ↔
      Spells cs f.plugin.toList f.localId.toNat := by
  constructor
  · intro captured
    obtain ⟨gs, groups, made⟩ := Option.bind_eq_some_iff.mp captured
    obtain ⟨before, after, plugin, digits, ds, cut, without, named, spelled, rfl⟩ :=
      captures?_pattern_eq_some_iff.mp groups
    rw [ofGroups?, spelled.word?, Option.map_some, Option.some.injEq] at made
    subst made
    refine ⟨before, after, digits, ds, cut, without, spelled.bar_not_mem, ?_, spelled, ?_⟩
    · rwa [String.toList_ofList]
    · exact UInt32.toNat_ofNat_of_lt' spelled.value_lt
  · rintro ⟨before, after, digits, ds, rfl, without, _, named, spelled, value⟩
    rw [captures?_pattern spelled without named, Option.bind_some, ofGroups?, spelled.word?,
      ← value, Option.map_some, UInt32.ofNat_toNat, String.ofList_toList]

theorem isSome_ofGroups? {cs : List Char} (captured : pattern.captures? cs = some gs) :
    (ofGroups? gs).isSome = true := by
  obtain ⟨_, _, plugin, digits, ds, _, _, _, spelled, rfl⟩ :=
    captures?_pattern_eq_some_iff.mp captured
  rw [ofGroups?, spelled.word?]
  rfl

theorem isSome_captures?_pattern_iff {cs : List Char} : (pattern.captures? cs).isSome = true ↔
    ∃ before after digits ds, cs = before ++ '|' :: after ∧ '|' ∉ before ∧ '|' ∉ after ∧
      before ≠ [] ∧ IdDigits after digits ds := by
  rw [Option.isSome_iff_exists]
  constructor
  · rintro ⟨gs, captured⟩
    obtain ⟨before, after, digits, ds, cut, without, nonempty, spelled⟩ :=
      exists_bar_of_reads (reads_of_captures? captured)
    exact ⟨before, after, digits, ds, cut, without, spelled.bar_not_mem, nonempty, spelled⟩
  · rintro ⟨before, after, digits, ds, rfl, without, _, nonempty, spelled⟩
    obtain ⟨plugin, named⟩ := exists_spellsPlugin_iff.mpr nonempty
    exact ⟨_, captures?_pattern spelled without named⟩

/-- A text is read as the form of what the groups of the pattern take, which always is a form.  It
is read exactly if it has one bar, something before the bar, and behind the bar a local id; and what
it is read as is the form that it spells. -/
theorem texts_name_forms (s : String) :
    parse? s = (pattern.captures? s.toList).bind ofGroups? ∧
    (parse? s).isSome = (pattern.captures? s.toList).isSome ∧
    ((parse? s).isSome = true ↔ ∃ before after digits ds, s.toList = before ++ '|' :: after ∧
      '|' ∉ before ∧ '|' ∉ after ∧ before ≠ [] ∧ IdDigits after digits ds) ∧
    ∀ f, parse? s = some f ↔ Spells s.toList f.plugin.toList f.localId.toNat := by
  have same : parse? s = (pattern.captures? s.toList).bind ofGroups? :=
    Option.ext fun f => parse?_eq_some_iff.trans captured_eq_some_iff.symm
  have fits : (parse? s).isSome = (pattern.captures? s.toList).isSome := by
    rw [same]
    cases captured : pattern.captures? s.toList with
    | none => rfl
    | some gs => exact isSome_ofGroups? captured
  exact ⟨same, fits, by rw [fits, isSome_captures?_pattern_iff], fun f => parse?_eq_some_iff⟩

end Movesets.Form
