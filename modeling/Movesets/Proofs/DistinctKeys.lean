import Movesets.Data.Reader

set_option autoImplicit false

/-!
# Keys that come once

A map of data may name a key twice, but the reader of configuration files refuses to add a field
under a key that is there.  So no map in a value that is read from a configuration file has a key
twice, at whatever depth.
-/

namespace Movesets.Data

mutual

/-- No map in the value has a key twice. -/
def keysDistinct : Data → Bool
  | .list items => itemsDistinct items
  | .map fields => decide (fields.map (·.1)).Nodup && fieldsDistinct fields
  | _ => true

def itemsDistinct : List Data → Bool
  | [] => true
  | d :: ds => keysDistinct d && itemsDistinct ds

def fieldsDistinct : List (Key × Data) → Bool
  | [] => true
  | f :: fs => keysDistinct f.2 && fieldsDistinct fs

end

theorem itemsDistinct_iff {items : List Data} :
    itemsDistinct items = true ↔ ∀ d ∈ items, d.keysDistinct = true := by
  induction items with
  | nil => simp [itemsDistinct]
  | cons d ds ih => simp [itemsDistinct, ih]

theorem fieldsDistinct_iff {fields : List (Key × Data)} :
    fieldsDistinct fields = true ↔ ∀ f ∈ fields, f.2.keysDistinct = true := by
  induction fields with
  | nil => simp [fieldsDistinct]
  | cons f fs ih => rw [fieldsDistinct, Bool.and_eq_true, ih, List.forall_mem_cons]

theorem keysDistinct_list_iff {items : List Data} :
    (list items).keysDistinct = true ↔ ∀ d ∈ items, d.keysDistinct = true := by
  rw [keysDistinct, itemsDistinct_iff]

theorem keysDistinct_map_iff {fields : List (Key × Data)} :
    (map fields).keysDistinct = true ↔
      (fields.map (·.1)).Nodup ∧ ∀ f ∈ fields, f.2.keysDistinct = true := by
  rw [keysDistinct, Bool.and_eq_true, decide_eq_true_iff, fieldsDistinct_iff]

theorem keysDistinct_of_get? {d x : Data} {key : String} (distinct : d.keysDistinct = true)
    (found : d.get? key = some x) : x.keysDistinct = true := by
  cases d with
  | map fields =>
    obtain ⟨f, hit, rfl⟩ := Option.map_eq_some_iff.mp found
    exact (keysDistinct_map_iff.mp distinct).2 f (List.mem_of_find?_eq_some hit)
  | _ => cases found

theorem keysDistinct_of_fileNumber? {n : NumberParts} {spelling : String} {d : Data}
    (read : fileNumber? n spelling = some d) : d.keysDistinct = true := by
  unfold fileNumber? at read
  split at read
  · cases read
    rfl
  · split at read
    · cases read
    · split at read <;> cases read <;> rfl

theorem keysDistinct_of_readBare {cs rest : List Char} {s : String} {d : Data}
    (read : readBare .configuration cs = some (s, d, rest)) : d.keysDistinct = true := by
  have bare : (readWord .configuration cs <|> readNumber .configuration cs) = some (s, d, rest) :=
    read
  rw [Option.orElse_eq_orElse, Option.orElse_eq_or] at bare
  rcases Option.or_eq_some_iff.mp bare with word | ⟨_, number⟩
  · have scalars : ∀ w ∈ Dialect.configuration.words, w.2.keysDistinct = true := by decide
    obtain ⟨w, mem, hit⟩ := List.exists_of_findSome?_eq_some word
    split at hit
    · cases hit
      exact scalars w mem
    · cases hit
  · obtain ⟨n, _, read⟩ := Option.bind_eq_some_iff.mp number
    obtain ⟨value, valued, same⟩ := Option.bind_eq_some_iff.mp read
    cases same
    exact keysDistinct_of_fileNumber? valued

theorem keysDistinct_of_addField {fields fields' : List (Key × Data)} {key : Key} {d : Data}
    (old : (map fields).keysDistinct = true) (value : d.keysDistinct = true)
    (added : Dialect.configuration.addField fields key d = some fields') :
    (map fields').keysDistinct = true := by
  have added : (if fields.any (·.1 == key) then none else some (fields ++ [(key, d)])) =
      some fields' := added
  split at added
  · cases added
  next fresh =>
    cases added
    obtain ⟨nodup, values⟩ := keysDistinct_map_iff.mp old
    refine keysDistinct_map_iff.mpr ⟨?_, fun f mem => ?_⟩
    · rw [List.map_append, List.nodup_append]
      refine ⟨nodup, by simp, fun k inOld k' new same => fresh ?_⟩
      obtain ⟨f, mem, rfl⟩ := List.mem_map.mp inOld
      have here : f.1 = key := same.trans (List.mem_singleton.mp new)
      exact List.any_eq_true.mpr ⟨f, mem, beq_iff_eq.mpr here⟩
    · rcases List.mem_append.mp mem with inOld | new
      · exact values f inOld
      · rw [List.mem_singleton.mp new]
        exact value

/-- What the four readers give with some fuel. -/
structure ReadsDistinct (fuel : Nat) : Prop where
  value : ∀ {depth cs rest} {d : Data},
    readValue .configuration fuel depth cs = some (d, rest) → d.keysDistinct = true
  items : ∀ {depth cs rest} {ds : List Data},
    readItems .configuration fuel depth cs = some (ds, rest) → (list ds).keysDistinct = true
  fields : ∀ {depth cs rest} {fs fs' : List (Key × Data)}, (map fs).keysDistinct = true →
    readFields .configuration fuel depth fs cs = some (fs', rest) → (map fs').keysDistinct = true
  held : ∀ {depth cs rest} {d : Data},
    readHeld .configuration fuel depth cs = some (d, rest) → d.keysDistinct = true

namespace ReadsDistinct

variable {fuel depth : Nat} {cs rest : List Char}

theorem value_succ (ih : ReadsDistinct fuel) {d : Data}
    (read : readValue .configuration (fuel + 1) depth cs = some (d, rest)) :
    d.keysDistinct = true := by
  unfold readValue at read
  split at read
  · obtain ⟨_, _, same⟩ := Option.map_eq_some_iff.mp read
    cases same
    rfl
  · cases read
  · cases read
  · split at read
    · cases read
      rfl
    · obtain ⟨_, items, same⟩ := Option.map_eq_some_iff.mp read
      cases same
      exact ih.items items
  · split at read
    · cases read
      rfl
    · obtain ⟨_, fields, same⟩ := Option.map_eq_some_iff.mp read
      cases same
      exact ih.fields rfl fields
  · obtain ⟨⟨spelling, value, rest⟩, bare, same⟩ := Option.map_eq_some_iff.mp read
    cases same
    exact keysDistinct_of_readBare bare

theorem items_succ (ih : ReadsDistinct fuel) {ds : List Data}
    (read : readItems .configuration (fuel + 1) depth cs = some (ds, rest)) :
    (list ds).keysDistinct = true := by
  unfold readItems at read
  split at read
  · cases read
  next first =>
    split at read
    · obtain ⟨_, more, same⟩ := Option.map_eq_some_iff.mp read
      cases same
      exact keysDistinct_list_iff.mpr
        (List.forall_mem_cons.mpr ⟨ih.value first, keysDistinct_list_iff.mp (ih.items more)⟩)
    · cases read
      exact keysDistinct_list_iff.mpr (List.forall_mem_singleton.mpr (ih.value first))
    · cases read

theorem fields_succ (ih : ReadsDistinct fuel) {fs fs' : List (Key × Data)}
    (old : (map fs).keysDistinct = true)
    (read : readFields .configuration (fuel + 1) depth fs cs = some (fs', rest)) :
    (map fs').keysDistinct = true := by
  unfold readFields at read
  split at read
  · cases read
  split at read
  · cases read
  next held =>
    split at read
    · cases read
    next added =>
      have new := keysDistinct_of_addField old (ih.held held) added
      split at read
      · exact ih.fields new read
      · cases read
        exact new
      · cases read

theorem held_succ (ih : ReadsDistinct fuel) {d : Data}
    (read : readHeld .configuration (fuel + 1) depth cs = some (d, rest)) :
    d.keysDistinct = true := by
  unfold readHeld at read
  split at read
  · exact ih.value read
  · cases read
    rfl

end ReadsDistinct

theorem readsDistinct (fuel : Nat) : ReadsDistinct fuel := by
  induction fuel with
  | zero =>
    refine ⟨fun read => ?_, fun read => ?_, fun _ read => ?_, fun read => ?_⟩ <;>
      simp [readValue, readItems, readFields, readHeld] at read
  | succ fuel ih => exact ⟨ih.value_succ, ih.items_succ, ih.fields_succ, ih.held_succ⟩

/-- No map in a value that is read from a configuration file has a key twice. -/
theorem keysDistinct_of_read? {text : String} {d : Data}
    (read : read? .configuration text = some d) : d.keysDistinct = true := by
  dsimp only [read?] at read
  split at read
  · cases read
  next value =>
    split at read
    · cases read
    · split at read
      · cases read
      · cases read
        exact (readsDistinct _).value value

end Movesets.Data
