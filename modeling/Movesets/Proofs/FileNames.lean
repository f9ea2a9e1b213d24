import Movesets.Document
import Movesets.Proofs.Spelling
import Movesets.Storage.Path

set_option autoImplicit false

/-!
# Names of document files

The file of a document is named by the numbers of its source, an underscore behind each.  Numerals
have no underscore and read back, so different sources have different files; and a name has no
slash, so it is the last part of the path to the file.
-/

namespace Movesets

namespace Number

theorem digit?_ofNat {n : Nat} (small : n < 10) : digit? (Char.ofNat (48 + n)) = some n := by
  have cases : ∀ k : Fin 10, digit? (Char.ofNat (48 + k.val)) = some k.val := by decide
  exact cases ⟨n, small⟩

theorem isDigit_ofNat {n : Nat} (small : n < 10) : (Char.ofNat (48 + n)).isDigit = true := by
  have cases : ∀ k : Fin 10, (Char.ofNat (48 + k.val)).isDigit = true := by decide
  exact cases ⟨n, small⟩

theorem isDigit_of_mem_decimalDigits {n : Nat} {c : Char} (mem : c ∈ decimalDigits n) :
    c.isDigit = true := by
  fun_induction decimalDigits n with
  | case1 n small =>
    obtain rfl := List.mem_singleton.mp mem
    exact isDigit_ofNat small
  | case2 n large ih =>
    rcases List.mem_append.mp mem with front | last
    · exact ih front
    · obtain rfl := List.mem_singleton.mp last
      exact isDigit_ofNat (Nat.mod_lt n (by decide))

theorem readDigits_concat (cs : List Char) {n : Nat} (small : n < 10) :
    readDigits (cs ++ [Char.ofNat (48 + n)]) = 10 * readDigits cs + n := by
  rw [readDigits, List.foldl_append, List.foldl_cons, List.foldl_nil, digit?_ofNat small]
  rfl

theorem readDigits_decimalDigits (n : Nat) : readDigits (decimalDigits n) = n := by
  fun_induction decimalDigits n with
  | case1 n small =>
    have alone := readDigits_concat [] small
    rw [List.nil_append] at alone
    rw [alone, readDigits, List.foldl_nil]
    omega
  | case2 n large ih =>
    rw [readDigits_concat _ (Nat.mod_lt n (by decide)), ih]
    omega

theorem readDigits_zeros (k : Nat) (cs : List Char) :
    readDigits (List.replicate k '0' ++ cs) = readDigits cs := by
  induction k with
  | zero => rfl
  | succ k ih => exact ih

end Number

namespace Text

theorem splitOn_append_cons (separator : Char) (cs ds : List Char) :
    splitOn separator (cs ++ separator :: ds) = splitOn separator cs ++ splitOn separator ds := by
  induction cs with
  | nil => simp [splitOn]
  | cons c cs ih =>
    rw [List.cons_append, splitOn, splitOn, ih]
    by_cases here : c = separator
    · rw [if_pos here, if_pos here, List.cons_append]
    · rw [if_neg here, if_neg here]
      cases split : splitOn separator cs with
      | nil => exact absurd split (splitOn_ne_nil separator cs)
      | cons part parts => rfl

end Text

namespace Document
open Number

theorem readDigits_threeDigits (n : Nat) : readDigits (threeDigits n) = n := by
  rw [threeDigits, readDigits_zeros, readDigits_decimalDigits]

theorem isDigit_of_mem_threeDigits {n : Nat} {c : Char} (mem : c ∈ threeDigits n) :
    c.isDigit = true := by
  rcases List.mem_append.mp mem with zero | digit
  · rw [List.eq_of_mem_replicate zero]
    rfl
  · exact isDigit_of_mem_decimalDigits digit

theorem not_mem_threeDigits {n : Nat} {c : Char} (other : c.isDigit = false) :
    c ∉ threeDigits n := by
  intro mem
  rw [isDigit_of_mem_threeDigits mem] at other
  cases other

/-- Numerals with an underscore behind them are compared apart from what follows. -/
theorem threeDigits_append_inj {a b : Nat} {cs ds : List Char}
    (same : threeDigits a ++ '_' :: cs = threeDigits b ++ '_' :: ds) : a = b ∧ cs = ds := by
  have parts := congrArg (Text.splitOn '_') same
  rw [Text.splitOn_append (not_mem_threeDigits rfl), Text.splitOn_append (not_mem_threeDigits rfl),
    List.cons.injEq] at parts
  have numbers : a = b := by
    rw [← readDigits_threeDigits a, parts.1, readDigits_threeDigits]
  subst numbers
  exact ⟨rfl, List.cons.inj (List.append_cancel_left same) |>.2⟩

theorem toList_fileName (d : Document) : d.fileName.toList =
    threeDigits d.source.modIndex.toNat ++ '_' :: (threeDigits d.source.subIndex.toNat ++ '_' ::
      (fileNameChars false (Text.trim d.name.toList) ++ ['.', 'j', 's', 'o', 'n'])) := by
  simp [fileName]

/-- Documents with the same file are of the same source. -/
theorem source_eq_of_fileName_eq {d e : Document} (same : d.fileName = e.fileName) :
    d.source = e.source := by
  have chars := congrArg String.toList same
  rw [toList_fileName, toList_fileName] at chars
  obtain ⟨mods, rest⟩ := threeDigits_append_inj chars
  obtain ⟨subs, _⟩ := threeDigits_append_inj rest
  exact Source.rank_injective (by rw [Source.rank, Source.rank, mods, subs])

theorem isFileNameChar_of_mem_fileNameChars {inRun : Bool} {cs : List Char} {c : Char}
    (mem : c ∈ fileNameChars inRun cs) : isFileNameChar c = true := by
  fun_induction fileNameChars inRun cs with
  | case1 => cases mem
  | case2 inRun c cs kept ih =>
    rcases List.mem_cons.mp mem with rfl | later
    · exact kept
    · exact ih later
  | case3 c cs replaced ih => exact ih mem
  | case4 inRun c cs replaced start ih =>
    rcases List.mem_cons.mp mem with rfl | later
    · rfl
    · exact ih later

theorem isFileNameChar_of_mem_fileName {d : Document} {c : Char} (mem : c ∈ d.fileName.toList) :
    isFileNameChar c = true := by
  have digits {n : Nat} (mem : c ∈ threeDigits n) : isFileNameChar c = true := by
    simp [isFileNameChar, Char.isAlphanum, isDigit_of_mem_threeDigits mem]
  rw [toList_fileName] at mem
  simp only [List.mem_append, List.mem_cons] at mem
  rcases mem with mods | rfl | subs | rfl | chars | ending
  · exact digits mods
  · rfl
  · exact digits subs
  · rfl
  · exact isFileNameChar_of_mem_fileNameChars chars
  · revert ending
    simp only [List.not_mem_nil, or_false]
    rintro (rfl | rfl | rfl | rfl | rfl) <;> rfl

theorem isFileNameChar_iff {c : Char} : isFileNameChar c = true ↔
    'A' ≤ c ∧ c ≤ 'Z' ∨ 'a' ≤ c ∧ c ≤ 'z' ∨ '0' ≤ c ∧ c ≤ '9' ∨
      c = ' ' ∨ c = '_' ∨ c = '.' ∨ c = '-' := by
  have upper : c.isUpper = true ↔ 'A' ≤ c ∧ c ≤ 'Z' := decide_eq_true_iff
  have lower : c.isLower = true ↔ 'a' ≤ c ∧ c ≤ 'z' :=
    Bool.and_eq_true_iff.trans (and_congr decide_eq_true_iff decide_eq_true_iff)
  have digit : c.isDigit = true ↔ '0' ≤ c ∧ c ≤ '9' := Char.isDigit_iff_toNat
  have alphanum : c.isAlphanum = (c.isUpper || c.isLower || c.isDigit) := rfl
  simp only [isFileNameChar, alphanum, Bool.or_eq_true, upper, lower, digit, beq_iff_eq, or_assoc]

/-- Documents of different sources have different files, whatever they are called, and the names of
files are made of letters, digits and four other characters. -/
theorem fileNames_apart (d e : Document) :
    (d.source ≠ e.source → d.fileName ≠ e.fileName) ∧
    ∀ c ∈ d.fileName.toList, 'A' ≤ c ∧ c ≤ 'Z' ∨ 'a' ≤ c ∧ c ≤ 'z' ∨ '0' ≤ c ∧ c ≤ '9' ∨
      c = ' ' ∨ c = '_' ∨ c = '.' ∨ c = '-' := by
  constructor
  · intro other same
    exact other (source_eq_of_fileName_eq same)
  · intro c mem
    exact isFileNameChar_iff.mp (isFileNameChar_of_mem_fileName mem)

theorem fileNames_apart_numbered :
    (⟨0, 1⟩ : Source) ≠ ⟨0, 1000⟩ ∧
    fileName ⟨⟨0, 1⟩, "000_x", 0, .empty, .killSwitch⟩ ≠
      fileName ⟨⟨0, 1000⟩, "x", 0, .empty, .killSwitch⟩ ∧
    '_' ∈ (fileName ⟨⟨0, 1⟩, "000_x", 0, .empty, .killSwitch⟩).toList ∧
    ('A' ≤ '_' ∧ '_' ≤ 'Z' ∨ 'a' ≤ '_' ∧ '_' ≤ 'z' ∨ '0' ≤ '_' ∧ '_' ≤ '9' ∨
      '_' = ' ' ∨ '_' = '_' ∨ '_' = '.' ∨ '_' = '-') := by
  obtain ⟨apart, safe⟩ := fileNames_apart ⟨⟨0, 1⟩, "000_x", 0, .empty, .killSwitch⟩
    ⟨⟨0, 1000⟩, "x", 0, .empty, .killSwitch⟩
  have underscore : '_' ∈ (fileName ⟨⟨0, 1⟩, "000_x", 0, .empty, .killSwitch⟩).toList := by
    simp [toList_fileName]
  exact ⟨by decide, apart (by decide), underscore, safe '_' underscore⟩

theorem slash_not_mem_fileName (d : Document) : '/' ∉ d.fileName.toList := by
  intro mem
  exact absurd (isFileNameChar_of_mem_fileName mem) (by decide)

/-- A file name has more letters than the parts that lead elsewhere. -/
theorem four_lt_length_fileName (d : Document) : 4 < d.fileName.toList.length := by
  rw [toList_fileName]
  simp only [List.length_append, List.length_cons]
  omega

theorem fileName_ne (d : Document) {part : String} (short : part.toList.length ≤ 4) :
    d.fileName ≠ part := by
  have long := d.four_lt_length_fileName
  rintro rfl
  omega

end Document

namespace Path

theorem parts_append_slash (directory path : String) :
    parts (directory ++ "/" ++ path) = parts directory ++ parts path := by
  have chars : (directory ++ "/" ++ path).toList = directory.toList ++ '/' :: path.toList := by simp
  rw [parts, chars, Text.splitOn_append_cons, List.map_append, List.filter_append]
  rfl

theorem parts_of_not_mem {name : String} (bare : '/' ∉ name.toList) (named : name ≠ "") :
    parts name = [name] := by
  rw [parts, Text.splitOn_of_not_mem bare]
  simp [named]

theorem endsWith_slash_iff {path : String} :
    path.endsWith "/" = true ↔ ∃ front, path = front ++ "/" := by
  rw [String.endsWith_eq_endsWith_toSlice, String.Slice.endsWith_string_iff]
  constructor
  · rintro ⟨front, same⟩
    refine ⟨.ofList front, String.toList_inj.mp ?_⟩
    simpa using same.symm
  · rintro ⟨front, rfl⟩
    simp

/-- A path to a name without slashes does not ask for a directory. -/
theorem endsWith_slash_append (front : String) {name : String} (bare : '/' ∉ name.toList)
    (named : name ≠ "") : (front ++ name).endsWith "/" = false := by
  rw [Bool.eq_false_iff]
  intro slash
  obtain ⟨before, same⟩ := endsWith_slash_iff.mp slash
  have last := congrArg (fun path => path.toList.getLast?) same
  have slashLast : (before ++ "/").toList.getLast? = some '/' := by simp
  cases chars : name.toList.getLast? with
  | none => exact named (String.toList_eq_nil_iff.mp (List.getLast?_eq_none_iff.mp chars))
  | some c =>
    rw [String.toList_append, List.getLast?_append, chars, Option.some_or, slashLast] at last
    cases last
    exact bare (List.mem_of_getLast? chars)

/-- A name in a directory stands at the end of its path, with the parts of the directory before. -/
theorem join_eq_append (directory : String) {name : String} (bare : '/' ∉ name.toList)
    (named : name ≠ "") :
    ∃ front, join directory name = front ++ name ∧
      parts (join directory name) = parts directory ++ [name] := by
  have alone := parts_of_not_mem bare named
  have relative : isAbsolute name = false := by
    rw [isAbsolute, Bool.eq_false_iff]
    intro slash
    have front := String.startsWith_string_iff.mp slash
    exact bare (front.subset (by simp))
  rw [join, relative, Bool.false_or]
  split
  next here =>
    rw [decide_eq_true_eq] at here
    refine ⟨"", String.empty_append.symm, ?_⟩
    rw [here, alone]
    rfl
  next =>
    split
    next slash =>
      obtain ⟨front, rfl⟩ := endsWith_slash_iff.mp slash
      have empty := parts_append_slash front ""
      rw [String.append_empty, show parts "" = [] from rfl, List.append_nil] at empty
      exact ⟨_, rfl, by rw [parts_append_slash, empty, alone]⟩
    next => exact ⟨_, rfl, by rw [parts_append_slash, alone]⟩

/-- The last step to a file of a directory is its name. -/
theorem steps_join {directory name : String} (bare : '/' ∉ name.toList) (named : name ≠ "") :
    steps (join directory name) = parts directory ++ [name] := by
  obtain ⟨front, path, parts⟩ := join_eq_append directory bare named
  have file := endsWith_slash_append front bare named
  rw [← path] at file
  rw [steps, file, parts]
  rfl

end Path

end Movesets
