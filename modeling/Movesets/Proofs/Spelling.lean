import Mathlib.Algebra.Group.Nat.Defs
import Mathlib.Data.List.DropRight
import Mathlib.Data.List.Nodup
import Movesets.Form
import Movesets.Playlist.Variant

set_option autoImplicit false

/-!
# Texts that read back

Hexadecimal digits, forms and sets of flags are read back from the text they are printed as.  A form
that some text names prints to a text that names it: its plugin has no bar and, unless it is a
single blank, no blanks around it.
-/

namespace Movesets

theorem mapM_map_of_some {α β γ : Type} {decode : β → Option γ} {f : α → β} {g : α → γ}
    {xs : List α} (each : ∀ x ∈ xs, decode (f x) = some (g x)) :
    (xs.map f).mapM decode = some (xs.map g) := by
  induction xs with
  | nil => rfl
  | cons x rest ih =>
    rw [List.map_cons, List.mapM_cons, each x List.mem_cons_self,
      ih fun y mem => each y (List.mem_cons_of_mem x mem)]
    rfl

namespace Text

theorem hexDigit?_hexChar {d : Nat} (small : d < 16) : hexDigit? (hexChar d) = some d := by
  have all : ∀ d : Fin 16, hexDigit? (hexChar d) = some d.val := by decide
  exact all ⟨d, small⟩

theorem isBlank_hexChar {d : Nat} (small : d < 16) : isBlank (hexChar d) = false := by
  have all : ∀ d : Fin 16, isBlank (hexChar d) = false := by decide
  exact all ⟨d, small⟩

theorem readHexFrom_append (acc : Nat) (xs ys : List Char) :
    readHexFrom acc (xs ++ ys) = (readHexFrom acc xs).bind fun n => readHexFrom n ys := by
  induction xs generalizing acc with
  | nil => rfl
  | cons c rest ih =>
    simp only [List.cons_append, readHexFrom]
    cases hexDigit? c with
    | none => rfl
    | some d => exact ih _

theorem readHexFrom_writeHex (acc : Nat) {width n : Nat} (small : n < 16 ^ width) :
    readHexFrom acc (writeHex width n) = some (acc * 16 ^ width + n) := by
  induction width generalizing acc n with
  | zero =>
    have zero : n = 0 := by simpa using small
    subst zero
    simp [writeHex, readHexFrom]
  | succ width ih =>
    have high : n / 16 < 16 ^ width := by
      rw [Nat.pow_succ] at small
      omega
    have low : n % 16 < 16 := Nat.mod_lt n (by decide)
    rw [writeHex, readHexFrom_append, ih acc high]
    simp only [Option.bind_some, readHexFrom, hexDigit?_hexChar low, Nat.pow_succ]
    congr 1
    have shifted : 16 * (acc * 16 ^ width) = acc * (16 ^ width * 16) := by
      rw [Nat.mul_comm 16, Nat.mul_assoc]
    omega

theorem readHex_of_ne_nil {cs : List Char} (digits : cs ≠ []) :
    readHex cs = readHexFrom 0 cs := by
  cases cs with
  | nil => exact absurd rfl digits
  | cons c cs => rfl

theorem readHex_writeHex {width n : Nat} (small : n < 16 ^ (width + 1)) :
    readHex (writeHex (width + 1) n) = some n := by
  have digits : writeHex (width + 1) n ≠ [] := List.ne_nil_of_length_pos (by simp)
  rw [readHex_of_ne_nil digits, readHexFrom_writeHex 0 small, Nat.zero_mul, Nat.zero_add]

theorem isBlank_of_mem_writeHex {width n : Nat} {c : Char} (mem : c ∈ writeHex width n) :
    isBlank c = false := by
  induction width generalizing n with
  | zero => cases mem
  | succ width ih =>
    rw [writeHex, List.mem_append, List.mem_singleton] at mem
    rcases mem with before | rfl
    · exact ih before
    · exact isBlank_hexChar (Nat.mod_lt n (by decide))

theorem dropWhile_isBlank_of_head {cs : List Char}
    (head : ∀ c ∈ cs.head?, isBlank c = false) : cs.dropWhile isBlank = cs := by
  cases cs with
  | nil => rfl
  | cons c rest => exact List.dropWhile_cons_of_neg (by simp [head c rfl])

theorem dropWhile_isBlank_append {front : List Char} (blank : ∀ c ∈ front, isBlank c = true)
    (cs : List Char) : (front ++ cs).dropWhile isBlank = cs.dropWhile isBlank := by
  rw [List.dropWhile_append, List.dropWhile_eq_nil_iff.mpr blank, List.isEmpty_nil, if_pos rfl]

theorem trim_blank_append {front : List Char} (blank : ∀ c ∈ front, isBlank c = true)
    (cs : List Char) : trim (front ++ cs) = trim cs := by
  rw [trim, dropWhile_isBlank_append blank, trim]

theorem trim_append_blank {back : List Char} (blank : ∀ c ∈ back, isBlank c = true)
    (cs : List Char) : trim (cs ++ back) = trim cs := by
  have reversed : ∀ c ∈ back.reverse, isBlank c = true :=
    fun c mem => blank c (List.mem_reverse.mp mem)
  rw [trim, trim, List.dropWhile_append]
  cases front : cs.dropWhile isBlank with
  | nil => rw [List.isEmpty_nil, if_pos rfl, List.dropWhile_eq_nil_iff.mpr blank]
  | cons c rest =>
    rw [List.isEmpty_cons, if_neg (by simp), trimEnd, List.reverse_append,
      dropWhile_isBlank_append reversed, trimEnd]

/-- Neither the first nor the last character is a blank. -/
def BareEnds (cs : List Char) : Prop :=
  (∀ c ∈ cs.head?, isBlank c = false) ∧ ∀ c ∈ cs.getLast?, isBlank c = false

theorem bareEnds_of_nonblank {cs : List Char} (nonblank : ∀ c ∈ cs, isBlank c = false) :
    BareEnds cs :=
  ⟨fun c head => nonblank c (List.mem_of_mem_head? head),
    fun c last => nonblank c (List.mem_of_getLast? last)⟩

theorem trim_of_bareEnds {cs : List Char} (bare : BareEnds cs) : trim cs = cs := by
  have front := dropWhile_isBlank_of_head bare.1
  have back : cs.reverse.dropWhile isBlank = cs.reverse :=
    dropWhile_isBlank_of_head (by rw [List.head?_reverse]; exact bare.2)
  rw [trim, front, trimEnd, back, List.reverse_reverse]

theorem trim_of_nonblank {cs : List Char} (nonblank : ∀ c ∈ cs, isBlank c = false) :
    trim cs = cs :=
  trim_of_bareEnds (bareEnds_of_nonblank nonblank)

theorem bareEnds_trim (cs : List Char) : BareEnds (trim cs) := by
  constructor
  · -- What is left starts where the text without its leading blanks does, unless nothing is left.
    intro c mem
    have starts : trim cs <+: cs.dropWhile isBlank := List.rdropWhile_prefix isBlank _
    have head : (cs.dropWhile isBlank).head? = some c := by
      obtain ⟨behind, eq⟩ := starts
      rw [← eq, List.head?_append, mem]
      rfl
    have first := List.head?_dropWhile_not isBlank cs
    rw [head] at first
    exact first
  · intro c mem
    obtain ⟨nonempty, rfl⟩ := List.mem_getLast?_eq_getLast mem
    exact Bool.eq_false_iff.mpr (List.rdropWhile_last_not isBlank _ nonempty)

@[simp] theorem trim_trim (cs : List Char) : trim (trim cs) = trim cs :=
  trim_of_bareEnds (bareEnds_trim cs)

theorem isBlank_of_trim_eq_nil {cs : List Char} (empty : trim cs = []) :
    ∀ c ∈ cs, isBlank c = true := by
  have rest : ∀ c ∈ cs.dropWhile isBlank, isBlank c = true :=
    List.rdropWhile_eq_nil_iff.mp empty
  have none : cs.dropWhile isBlank = [] := by
    have first := List.head?_dropWhile_not isBlank cs
    cases left : cs.dropWhile isBlank with
    | nil => rfl
    | cons c behind =>
      rw [left] at first rest
      have first : isBlank c = false := first
      rw [rest c List.mem_cons_self] at first
      cases first
  exact List.dropWhile_eq_nil_iff.mp none

theorem splitOn_append {separator : Char} {cs : List Char} (without : separator ∉ cs)
    (rest : List Char) :
    splitOn separator (cs ++ separator :: rest) = cs :: splitOn separator rest := by
  induction cs with
  | nil => simp [splitOn]
  | cons c cs ih =>
    rw [List.mem_cons, not_or] at without
    obtain ⟨other, without⟩ := without
    rw [List.cons_append, splitOn, if_neg (Ne.symm other), ih without]

theorem splitOn_of_not_mem {separator : Char} {cs : List Char} (without : separator ∉ cs) :
    splitOn separator cs = [cs] := by
  induction cs with
  | nil => rfl
  | cons c cs ih =>
    rw [List.mem_cons, not_or] at without
    obtain ⟨other, without⟩ := without
    rw [splitOn, if_neg (Ne.symm other), ih without]

end Text

namespace Form
open Text

/-- Some text names the form. -/
def Readable (f : Form) : Prop := ∃ s, parse? s = some f

theorem not_mem_takeWhile_bar (cs : List Char) : '|' ∉ cs.takeWhile (· != '|') := by
  intro mem
  simpa using List.mem_takeWhile_imp mem

/-- The plugin that a text names is what it names itself. -/
theorem readPlugin?_idem {before plugin : List Char} (read : readPlugin? before = some plugin) :
    readPlugin? plugin = some plugin := by
  cases trimmed : trim before with
  | nil =>
    simp only [readPlugin?, trimmed] at read
    obtain ⟨c, _, rfl⟩ := Option.map_eq_some_iff.mp read
    unfold readPlugin?
    cases blank : isBlank c <;> simp [trim, trimEnd, blank]
  | cons c rest =>
    simp only [readPlugin?, trimmed, Option.some.injEq] at read
    have again : trim plugin = plugin := by rw [← read, ← trimmed, trim_trim]
    rw [readPlugin?, again, ← read]

theorem mem_of_readPlugin? {before plugin : List Char} (read : readPlugin? before = some plugin)
    {c : Char} (mem : c ∈ plugin) : c ∈ before := by
  unfold readPlugin? at read
  split at read
  next =>
    obtain ⟨last, at_end, rfl⟩ := Option.map_eq_some_iff.mp read
    rw [List.mem_singleton.mp mem]
    exact List.mem_of_getLast? at_end
  next =>
    cases read
    have part : trim before <:+: before :=
      (List.rdropWhile_prefix isBlank _).isInfix.trans (List.dropWhile_suffix isBlank).isInfix
    exact part.subset mem

theorem readId?_writeHex (id : UInt32) :
    readId? ('0' :: 'x' :: writeHex 8 id.toNat) = some id := by
  have nonblank : ∀ c ∈ '0' :: 'x' :: writeHex 8 id.toNat, isBlank c = false := by
    intro c mem
    rcases List.mem_cons.mp mem with rfl | mem
    · decide
    · rcases List.mem_cons.mp mem with rfl | mem
      · decide
      · exact isBlank_of_mem_writeHex mem
  have digits : dropMark ('0' :: 'x' :: writeHex 8 id.toNat) = writeHex 8 id.toNat := rfl
  have read : readHex (writeHex 8 id.toNat) = some id.toNat := readHex_writeHex id.toNat_lt
  simp only [readId?, trim_of_nonblank nonblank, digits, length_writeHex, Nat.le_refl, if_true,
    read, Option.map_some, UInt32.ofNat_toNat]

theorem toList_print (f : Form) : f.print.toList =
    f.plugin.toList ++ '|' :: '0' :: 'x' :: writeHex 8 f.localId.toNat := by
  simp [print]

theorem parse?_append {plugin : List Char} (without : '|' ∉ plugin) (after : List Char) :
    parse? (.ofList (plugin ++ '|' :: after)) = (readPlugin? plugin).bind fun plugin =>
      (readId? after).map fun localId => ⟨.ofList plugin, localId⟩ := by
  have others : ∀ c ∈ plugin, (c != '|') = true := by
    intro c mem
    simp only [bne_iff_ne]
    rintro rfl
    exact without mem
  have before : (plugin ++ '|' :: after).takeWhile (· != '|') = plugin := by
    rw [List.takeWhile_append_of_pos others]
    simp
  have behind : (plugin ++ '|' :: after).dropWhile (· != '|') = '|' :: after := by
    rw [List.dropWhile_append_of_pos others]
    rfl
  simp only [parse?, String.toList_ofList, before, behind]

theorem parse?_print {f : Form} (readable : f.Readable) : parse? f.print = some f := by
  obtain ⟨s, named⟩ := readable
  simp only [parse?] at named
  split at named
  next => cases named
  next =>
    obtain ⟨plugin, read, named⟩ := Option.bind_eq_some_iff.mp named
    obtain ⟨id, _, rfl⟩ := Option.map_eq_some_iff.mp named
    have without : '|' ∉ plugin := fun mem =>
      not_mem_takeWhile_bar s.toList (mem_of_readPlugin? read mem)
    have spelled : print ⟨.ofList plugin, id⟩ =
        .ofList (plugin ++ '|' :: '0' :: 'x' :: writeHex 8 id.toNat) := by
      rw [← String.toList_inj, toList_print, String.toList_ofList, String.toList_ofList]
    rw [spelled, parse?_append without, readPlugin?_idem read, readId?_writeHex]
    rfl

end Form

namespace FlagSet
open Text

/-- Names for all bits of a byte, which no part of a printed set can be mistaken for. -/
structure Names (names : List String) : Prop where
  length : names.length = 8
  nodup : names.Nodup
  nonblank : ∀ n ∈ names, ∀ c ∈ n.toList, isBlank c = false
  bare : ∀ n ∈ names, '|' ∉ n.toList
  worded : ∀ n ∈ names, n.toList.head?.all (· != '0') = true ∧ n.toList ≠ []

def places (bits : UInt8) : List Nat := (List.range 8).filter (hasBit bits)

theorem foldl_places (bits : UInt8) :
    ((places bits).map fun i => UInt8.ofNat (1 <<< i)).foldl (· ||| ·) 0 = bits := by
  have all : ∀ n < 256, ((places (.ofNat n)).map fun i => UInt8.ofNat (1 <<< i)).foldl (· ||| ·) 0 =
      UInt8.ofNat n := by
    decide +kernel
  simpa using all bits.toNat bits.toNat_lt

/-- A blank before a text goes to its first part, which is trimmed. -/
theorem map_trim_splitOn_space (cs : List Char) :
    (splitOn '|' (' ' :: cs)).map trim = (splitOn '|' cs).map trim := by
  have parts := splitOn_ne_nil '|' cs
  rw [splitOn, if_neg (by decide)]
  cases split : splitOn '|' cs with
  | nil => exact absurd split parts
  | cons part rest => rfl

theorem exists_joined_eq_append (p : List Char) (ps : List (List Char)) :
    ∃ tail, [' ', '|', ' '].intercalate (p :: ps) = p ++ tail := by
  cases ps with
  | nil => exact ⟨[], by simp [List.intercalate]⟩
  | cons q rest => exact ⟨[' ', '|', ' '] ++ [' ', '|', ' '].intercalate (q :: rest), by
      simp [List.intercalate]⟩

theorem map_trim_splitOn_joined {p : List Char} {ps : List (List Char)}
    (nonblank : ∀ q ∈ p :: ps, ∀ c ∈ q, isBlank c = false) (bare : ∀ q ∈ p :: ps, '|' ∉ q) :
    (splitOn '|' ([' ', '|', ' '].intercalate (p :: ps))).map trim = p :: ps := by
  induction ps generalizing p with
  | nil =>
    rw [List.intercalate_singleton, splitOn_of_not_mem (bare p (by simp)), List.map_singleton,
      trim_of_nonblank (nonblank p (by simp))]
  | cons q rest ih =>
    have joined : [' ', '|', ' '].intercalate (p :: q :: rest) =
        (p ++ [' ']) ++ '|' :: ' ' :: [' ', '|', ' '].intercalate (q :: rest) := by
      simp [List.intercalate]
    have without : '|' ∉ p ++ [' '] := by
      rw [List.mem_append, not_or]
      exact ⟨bare p (by simp), by decide⟩
    have space : ∀ c ∈ [' '], isBlank c = true := by simp [isBlank]
    rw [joined, splitOn_append without, List.map_cons, map_trim_splitOn_space,
      trim_append_blank space, trim_of_nonblank (nonblank p (by simp)),
      ih (fun r mem => nonblank r (by simp [List.mem_cons.mp mem]))
        (fun r mem => bare r (by simp [List.mem_cons.mp mem]))]

variable {names : List String}

theorem readPart?_name (fit : Names names) {n : String} {i : Nat} (at_i : names[i]? = some n) :
    readPart? names n.toList = some (.ofNat (1 <<< i)) := by
  obtain ⟨bound, here⟩ := List.getElem?_eq_some_iff.mp at_i
  have mem : n ∈ names := List.mem_of_getElem? at_i
  obtain ⟨start, nonempty⟩ := fit.worded n mem
  have found : names.findIdx? (fun m => m.toList == n.toList) = some i := by
    refine List.findIdx?_eq_some_iff_getElem.mpr ⟨bound, by simp [here], fun j before same => ?_⟩
    have same : names[j] = names[i] := by
      rw [here]
      exact String.toList_inj.mp (beq_iff_eq.mp same)
    have := (fit.nodup.getElem_inj_iff).mp same
    omega
  cases chars : n.toList with
  | nil => exact absurd chars nonempty
  | cons c rest =>
    rw [chars] at found start
    have other : c ≠ '0' := by simpa using start
    unfold readPart?
    split
    next eq => exact absurd (List.cons.inj eq).1 other
    next eq => cases eq
    next => rw [found]; rfl

/-- The names of the set bits, each with its place. -/
def named (names : List String) (bits : UInt8) : List (String × Nat) :=
  names.zipIdx.filter fun n => hasBit bits n.2

theorem print_eq (fit : Names names) (bits : UInt8) :
    print names bits = " | ".intercalate ((named names bits).map (·.1)) := by
  have unnamed : bits.toNat >>> names.length <<< names.length = 0 := by
    rw [fit.length, Nat.shiftRight_eq_zero bits.toNat 8 bits.toNat_lt, Nat.zero_shiftLeft]
  simp only [print, unnamed, if_true, List.append_nil]
  rfl

theorem map_named (fit : Names names) (bits : UInt8) :
    (named names bits).map (·.2) = places bits := by
  have all : names.zipIdx.map (·.2) = List.range 8 := by
    rw [List.zipIdx_map_snd, fit.length, List.range_eq_range']
  rw [places, ← all, List.filter_map]
  rfl

theorem mapM_readPart?_named (fit : Names names) (bits : UInt8) :
    ((named names bits).map fun n => n.1.toList).mapM (readPart? names) =
      some ((places bits).map fun i => .ofNat (1 <<< i)) := by
  have read : ∀ n ∈ named names bits, readPart? names n.1.toList = some (.ofNat (1 <<< n.2)) := by
    intro n mem
    have place := List.mem_zipIdx_iff_getElem?.mp (List.mem_filter.mp mem).1
    exact readPart?_name fit place
  rw [mapM_map_of_some read, ← map_named fit, List.map_map]
  rfl

theorem parse?_print (fit : Names names) (bits : UInt8) :
    parse? names (print names bits) = some bits := by
  have spelled : (print names bits).toList =
      [' ', '|', ' '].intercalate ((named names bits).map fun n => n.1.toList) := by
    rw [print_eq fit, String.toList_intercalate, List.map_map]
    rfl
  have parts := mapM_readPart?_named fit bits
  have sum := foldl_places bits
  simp only [parse?, spelled]
  cases chosen : (named names bits).map fun n => n.1.toList with
  | nil =>
    rw [chosen, List.mapM_nil] at parts
    rw [← Option.some.inj parts] at sum
    simp [List.intercalate, ← sum]
  | cons p ps =>
    have from_names : ∀ q ∈ p :: ps, ∃ n ∈ names, q = n.toList := by
      intro q mem
      rw [← chosen] at mem
      obtain ⟨n, inNamed, rfl⟩ := List.mem_map.mp mem
      have place := List.mem_zipIdx_iff_getElem?.mp (List.mem_filter.mp inNamed).1
      exact ⟨n.1, List.mem_of_getElem? place, rfl⟩
    have split : (splitOn '|' ([' ', '|', ' '].intercalate (p :: ps))).map trim = p :: ps := by
      refine map_trim_splitOn_joined (fun q mem => ?_) fun q mem => ?_
      · obtain ⟨n, inNames, rfl⟩ := from_names q mem
        exact fit.nonblank n inNames
      · obtain ⟨n, inNames, rfl⟩ := from_names q mem
        exact fit.bare n inNames
    have visible : (trim ([' ', '|', ' '].intercalate (p :: ps))).isEmpty = false := by
      obtain ⟨n, inNames, rfl⟩ := from_names p List.mem_cons_self
      obtain ⟨c, mem⟩ := List.exists_mem_of_ne_nil _ (fit.worded n inNames).2
      obtain ⟨tail, joined⟩ := exists_joined_eq_append n.toList ps
      refine List.isEmpty_eq_false_iff.mpr fun empty => ?_
      have blank := isBlank_of_trim_eq_nil empty c (by simp [joined, mem])
      rw [fit.nonblank n inNames c mem] at blank
      cases blank
    have read : (splitOn '|' ([' ', '|', ' '].intercalate (p :: ps))).mapM
        (fun part => readPart? names (trim part)) = (p :: ps).mapM (readPart? names) := by
      conv => rhs; rw [← split, List.mapM_map]
      rfl
    rw [visible, if_neg (by decide), read, ← chosen, parts, Option.map_some, sum]

end FlagSet

theorem Directions.fit_names : FlagSet.Names names := by
  have nonblank : (names.all fun n => n.toList.all fun c => !Text.isBlank c) = true := by decide
  refine ⟨rfl, by decide, fun n mem c inName => ?_, by decide, by decide⟩
  simpa using List.all_eq_true.mp (List.all_eq_true.mp nonblank n mem) c inName

theorem Directions.parse?_print (d : Directions) : parse? d.print = some d := by
  rw [parse?, print, FlagSet.parse?_print fit_names]
  rfl

end Movesets
