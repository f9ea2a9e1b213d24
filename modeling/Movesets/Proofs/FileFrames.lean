import Movesets.Storage.Disk

set_option autoImplicit false

/-!
# What files are left alone

Writing a text changes the file it is written to and no other, and making directories changes no
file at all.  Neither takes a directory away, so a path that leads somewhere goes on to do so.
-/

namespace Movesets

namespace FileNode

theorem at?_append (n : FileNode) (p q : List String) :
    n.at? (p ++ q) = (n.at? p).bind (·.at? q) := by
  induction p generalizing n with
  | nil => rfl
  | cons name names ih =>
    cases n with
    | file text => rfl
    | directory entries =>
      rw [List.cons_append, at?, at?]
      cases entries.lookup name with
      | none => rfl
      | some child => exact ih child

/-- A directory above a place is below the entry that leads to the place. -/
theorem exists_child {n : FileNode} {name second : String} {names : List String}
    (parent : (n.at? (name :: second :: names).dropLast).any isDirectory = true) :
    ∃ entries child, n = directory entries ∧ entries.lookup name = some child ∧
      (child.at? (second :: names).dropLast).any isDirectory = true := by
  rw [List.dropLast_cons_of_ne_nil (List.cons_ne_nil second names)] at parent
  cases n with
  | file text => cases parent
  | directory entries =>
    rw [at?] at parent
    cases there : entries.lookup name with
    | none =>
      rw [there] at parent
      cases parent
    | some child =>
      rw [there] at parent
      exact ⟨entries, child, rfl, there, parent⟩

theorem any_at?_file (text : String) (place : List String) :
    ((file text).at? place).any isDirectory = false := by
  cases place <;> rfl

/-- In a directory a node is found at the place where it was set, and what it holds below. -/
theorem at?_set_append {n : FileNode} {place : List String}
    (parent : (n.at? place.dropLast).any isDirectory = true) (new : FileNode)
    (rest : List String) : (n.set place new).at? (place ++ rest) = new.at? rest := by
  fun_induction set n place new with
  | case1 => rfl
  | case2 entries name names new ih =>
    rw [List.cons_append, at?, Table.lookup_setEntry, if_pos rfl, Option.bind_some]
    cases names with
    | nil => rw [set, List.nil_append]
    | cons second names =>
      obtain ⟨_, child, same, there, parent⟩ := exists_child parent
      cases same
      rw [there] at ih ⊢
      exact ih parent
  | case3 text name names new =>
    rw [any_at?_file] at parent
    cases parent

/-- Setting a node changes nothing but what is at its place or below. -/
theorem map_text?_set {n : FileNode} {place p : List String}
    (parent : (n.at? place.dropLast).any isDirectory = true) (new : FileNode)
    (apart : ¬ place <+: p) : ((n.set place new).at? p).map text? = (n.at? p).map text? := by
  fun_induction set n place new generalizing p with
  | case1 => exact absurd List.nil_prefix apart
  | case2 entries name names new ih =>
    cases p with
    | nil => rfl
    | cons other rest =>
      rw [at?, at?, Table.lookup_setEntry]
      by_cases here : name = other
      · subst here
        rw [List.cons_prefix_cons, not_and] at apart
        rw [if_pos rfl, Option.bind_some]
        cases names with
        | nil => exact absurd List.nil_prefix (apart rfl)
        | cons second names =>
          obtain ⟨_, child, same, there, parent⟩ := exists_child parent
          cases same
          rw [there] at ih ⊢
          exact ih parent (apart rfl)
      · rw [if_neg here]
  | case3 text name names new => rfl

end FileNode

namespace FileTree

/-- What is at a place, if anything is: a file with its text, or a directory without one. -/
def content? (t : FileTree) (place : List String) : Option (Option String) :=
  (t.node? place).map FileNode.text?

/-- The text of the file at a place. -/
def textAt? (t : FileTree) (place : List String) : Option String :=
  (t.node? place).bind FileNode.text?

theorem textAt?_eq (t : FileTree) (place : List String) :
    t.textAt? place = (t.content? place).join := by
  rw [textAt?, content?]
  cases t.node? place <;> rfl

theorem isDirectory_iff {t : FileTree} {place : List String} :
    t.isDirectory place = true ↔ t.content? place = some none := by
  rw [isDirectory, content?]
  cases t.node? place with
  | none => simp
  | some n => cases n <;> simp [FileNode.isDirectory, FileNode.text?]

/-- A directory stays a directory, and relative paths start where they did. -/
structure Grows (t t' : FileTree) : Prop where
  working : t'.working = t.working
  directory : ∀ place, t.isDirectory place = true → t'.isDirectory place = true

theorem Grows.refl (t : FileTree) : t.Grows t := ⟨rfl, fun _ there => there⟩

theorem Grows.trans {t u v : FileTree} (first : t.Grows u) (second : u.Grows v) : t.Grows v :=
  ⟨second.working.trans first.working,
    fun place there => second.directory place (first.directory place there)⟩

/-- The place that a part leads to from a directory. -/
def stepFrom (place : List String) (part : String) : List String :=
  if part = "." then place else if part = ".." then place.dropLast else place ++ [part]

theorem walk?_cons_eq_some_iff {t : FileTree} {place rest found : List String} {part : String} :
    t.walk? place (part :: rest) = some found ↔
      t.isDirectory place = true ∧ t.walk? (stepFrom place part) rest = some found := by
  rw [walk?, stepFrom]
  cases t.isDirectory place with
  | false => simp
  | true =>
    by_cases stay : part = "."
    · simp [stay]
    · by_cases out : part = ".."
      · simp [out]
      · simp [stay, out]

theorem Grows.walk? {t t' : FileTree} (grows : t.Grows t') {place parts found : List String}
    (leads : t.walk? place parts = some found) : t'.walk? place parts = some found := by
  induction parts generalizing place with
  | nil => exact leads
  | cons part rest ih =>
    rw [walk?_cons_eq_some_iff] at leads ⊢
    exact ⟨grows.directory place leads.1, ih leads.2⟩

theorem Grows.place? {t t' : FileTree} (grows : t.Grows t') {path : String} {place : List String}
    (leads : t.place? path = some place) : t'.place? path = some place := by
  rw [FileTree.place?, origin] at leads ⊢
  rw [grows.working]
  split at leads
  next usable =>
    rw [if_pos usable]
    exact grows.walk? leads
  next => cases leads

/-- A walk that ends with a name ends at an entry of that name. -/
theorem walk?_concat {t : FileTree} {place parts found : List String} {name : String}
    (leads : t.walk? place (parts ++ [name]) = some found) (here : name ≠ ".") (out : name ≠ "..") :
    ∃ directory, found = directory ++ [name] := by
  induction parts generalizing place with
  | nil =>
    obtain ⟨_, last⟩ := walk?_cons_eq_some_iff.mp leads
    rw [FileTree.walk?, stepFrom, if_neg here, if_neg out] at last
    exact ⟨place, (Option.some.inj last).symm⟩
  | cons part rest ih => exact ih (walk?_cons_eq_some_iff.mp leads).2

/-- A text can be written where there is no directory, but one around. -/
theorem exists_place_of_writeText? {t t' : FileTree} {path text : String}
    (written : t.writeText? path text = some t') : ∃ place, t.place? path = some place ∧
      t.isDirectory place = false ∧ t.isDirectory place.dropLast = true ∧
      t' = t.set place (.file text) := by
  obtain ⟨place, leads, written⟩ := Option.bind_eq_some_iff.mp written
  split at written
  next => cases written
  next inDirectory =>
    rw [Bool.or_eq_true, Bool.not_eq_true', not_or, Bool.not_eq_true, Bool.not_eq_false]
      at inDirectory
    split at written
    next => exact ⟨place, leads, inDirectory.1, inDirectory.2, (Option.some.inj written).symm⟩
    next => cases written

theorem content?_set_self {t : FileTree} {place : List String}
    (parent : t.isDirectory place.dropLast = true) (new : FileNode) :
    (t.set place new).content? place = some new.text? := by
  have found := FileNode.at?_set_append parent new []
  rw [List.append_nil] at found
  rw [content?, node?, set, found]
  cases new <;> rfl

/-- Setting a node with nothing below it where no directory is changes nothing elsewhere. -/
theorem content?_set {t : FileTree} {place p : List String} {new : FileNode}
    (free : t.isDirectory place = false) (parent : t.isDirectory place.dropLast = true)
    (bare : ∀ name names, new.at? (name :: names) = none) (ne : p ≠ place) :
    (t.set place new).content? p = t.content? p := by
  by_cases below : place <+: p
  · obtain ⟨rest, rfl⟩ := below
    cases rest with
    | nil =>
      rw [List.append_nil] at ne
      exact absurd rfl ne
    | cons name names =>
      have after : (t.set place new).node? (place ++ name :: names) = none :=
        (FileNode.at?_set_append parent new _).trans (bare name names)
      have before : t.node? (place ++ name :: names) = none := by
        rw [node?, FileNode.at?_append]
        rw [isDirectory, node?] at free
        cases there : t.root.at? place with
        | none => rfl
        | some n =>
          rw [there] at free
          cases n with
          | file text => rfl
          | directory entries => cases free
      rw [content?, content?, after, before]
  · exact FileNode.map_text?_set parent new below

theorem grows_set {t : FileTree} {place : List String} {new : FileNode}
    (free : t.isDirectory place = false) (parent : t.isDirectory place.dropLast = true)
    (bare : ∀ name names, new.at? (name :: names) = none) : t.Grows (t.set place new) := by
  refine ⟨rfl, fun p there => ?_⟩
  by_cases here : p = place
  · rw [here, free] at there
    cases there
  · rw [isDirectory_iff] at there ⊢
    rw [content?_set free parent bare here, there]

theorem at?_file_cons (text name : String) (names : List String) :
    (FileNode.file text).at? (name :: names) = none := rfl

theorem at?_empty_cons (name : String) (names : List String) :
    FileNode.empty.at? (name :: names) = none := rfl

/-- A text that is written to a path is at its place then, and everything else is as it was. -/
theorem content?_of_writeText? {t t' : FileTree} {path text : String}
    (written : t.writeText? path text = some t') : ∃ place, t.place? path = some place ∧
      t.Grows t' ∧ t'.textAt? place = some text ∧
      ∀ p, p ≠ place → t'.textAt? p = t.textAt? p := by
  obtain ⟨place, leads, free, parent, rfl⟩ := exists_place_of_writeText? written
  refine ⟨place, leads, grows_set free parent (at?_file_cons text), ?_, fun p ne => ?_⟩
  · rw [textAt?_eq, content?_set_self parent]
    rfl
  · rw [textAt?_eq, textAt?_eq, content?_set free parent (at?_file_cons text) ne]

/-- All files stay with their texts, and all directories. -/
structure Keeps (t t' : FileTree) : Prop extends t.Grows t' where
  text : ∀ place, t'.textAt? place = t.textAt? place

theorem Keeps.refl (t : FileTree) : t.Keeps t := ⟨.refl t, fun _ => rfl⟩

theorem Keeps.trans {t u v : FileTree} (first : t.Keeps u) (second : u.Keeps v) : t.Keeps v :=
  ⟨first.toGrows.trans second.toGrows,
    fun place => (second.text place).trans (first.text place)⟩

/-- A directory is made only where nothing is. -/
theorem keeps_set_empty {t : FileTree} {place : List String} (nothing : t.node? place = none)
    (parent : t.isDirectory place.dropLast = true) : t.Keeps (t.set place .empty) := by
  have free : t.isDirectory place = false := by
    rw [isDirectory, nothing]
    rfl
  refine ⟨grows_set free parent at?_empty_cons, fun p => ?_⟩
  rw [textAt?_eq, textAt?_eq]
  by_cases here : p = place
  · rw [here, content?_set_self parent, content?, nothing]
    rfl
  · rw [content?_set free parent at?_empty_cons here]

theorem keeps_of_enter? {t t' : FileTree} {place next : List String} {part : String}
    (entered : t.enter? place part = some (t', next)) : t.Keeps t' := by
  rw [enter?] at entered
  split at entered
  next => cases entered
  next inside =>
    rw [Bool.not_eq_true, Bool.not_eq_false'] at inside
    split at entered
    next =>
      cases entered
      exact .refl t
    next =>
      split at entered
      next =>
        cases entered
        exact .refl t
      next =>
        dsimp only at entered
        split at entered
        next nothing =>
          split at entered
          next =>
            cases entered
            refine keeps_set_empty nothing ?_
            rwa [List.dropLast_concat]
          next => cases entered
        next =>
          split at entered
          next =>
            cases entered
            exact .refl t
          next => cases entered

theorem keeps_enterAll (t : FileTree) (place parts : List String) :
    t.Keeps (t.enterAll place parts).1 := by
  fun_induction enterAll t place parts with
  | case1 t place => exact .refl t
  | case2 t place part rest entered => exact .refl t
  | case3 t place part rest u next entered ih => exact (keeps_of_enter? entered).trans ih

theorem keeps_makeLast (t : FileTree) (place parts : List String) :
    t.Keeps (t.makeLast place parts).1 := by
  fun_cases makeLast t place parts with
  | case1 part entered => exact .refl t
  | case2 part u next entered => exact keeps_of_enter? entered
  | case3 parts several => exact .refl t

/-- Making a directory changes no file, whether or not it succeeds. -/
theorem keeps_makeDirectory (t : FileTree) (path : String) :
    t.Keeps (t.makeDirectory path).1 := by
  have leading := t.keeps_enterAll (t.origin path) (Path.leading (Path.parts path))
  rw [makeDirectory]
  split
  next => exact .refl t
  next =>
    split
    next => exact .refl t
    next =>
      dsimp only
      split
      next u entered =>
        rw [entered] at leading
        exact leading
      next u place entered =>
        rw [entered] at leading
        exact leading.trans (u.keeps_makeLast place _)

end FileTree

end Movesets
