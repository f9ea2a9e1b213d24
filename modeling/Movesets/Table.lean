set_option autoImplicit false

/-!
# Tables in order of insertion

A table maps distinct keys to values and keeps them in the order in which the keys came in.
Setting a key that is there changes its value in place; a new key goes to the end.  As values tables
are compared without regard to order.
-/

namespace Movesets

/-- A finite map, in order of insertion. -/
structure Table (κ α : Type) where
  entries : List (κ × α)
  nodup : (entries.map (·.1)).Nodup
  deriving Repr

namespace Table

variable {κ α β : Type}

def empty : Table κ α := ⟨[], .nil⟩

def keys (t : Table κ α) : List κ := t.entries.map (·.1)

def values (t : Table κ α) : List α := t.entries.map (·.2)

def size (t : Table κ α) : Nat := t.entries.length

def toList (t : Table κ α) : List (κ × α) := t.entries

def map (f : α → β) (t : Table κ α) : Table κ β :=
  ⟨t.entries.map fun e => (e.1, f e.2), by
    simpa [List.map_map, Function.comp_def] using t.nodup⟩

/-- The table of the entries whose value passes a test. -/
def filter (p : α → Bool) (t : Table κ α) : Table κ α :=
  ⟨t.entries.filter fun e => p e.2,
    List.Nodup.sublist (List.Sublist.map _ List.filter_sublist) t.nodup⟩

@[simp] theorem toList_empty : (empty : Table κ α).toList = [] := rfl

theorem ext_toList {t u : Table κ α} (h : t.toList = u.toList) : t = u := by
  obtain ⟨xs, _⟩ := t
  obtain ⟨ys, _⟩ := u
  cases h
  rfl

@[simp] theorem values_map (f : α → β) (t : Table κ α) : (t.map f).values = t.values.map f := by
  simp [values, map]

@[simp] theorem keys_map (f : α → β) (t : Table κ α) : (t.map f).keys = t.keys := by
  simp [keys, map]

theorem map_map {γ : Type} (g : β → γ) (f : α → β) (t : Table κ α) :
    (t.map f).map g = t.map fun x => g (f x) :=
  ext_toList (List.map_map ..)

theorem map_eq_self {f : α → α} {t : Table κ α} (fixed : ∀ v ∈ t.values, f v = v) :
    t.map f = t := by
  refine ext_toList ((List.map_congr_left fun e mem => ?_).trans (List.map_id _))
  rw [fixed e.2 (List.mem_map_of_mem mem)]
  rfl

variable [DecidableEq κ]

def get? (t : Table κ α) (key : κ) : Option α :=
  (t.entries.find? fun e => e.1 == key).map (·.2)

def contains (t : Table κ α) (key : κ) : Bool :=
  t.entries.any fun e => e.1 == key

/-- The entries with the value of `key` set, in place or at the end. -/
def setEntry (key : κ) (value : α) : List (κ × α) → List (κ × α)
  | [] => [(key, value)]
  | e :: rest => if e.1 = key then (key, value) :: rest else e :: setEntry key value rest

theorem keys_setEntry (key : κ) (value : α) (es : List (κ × α)) :
    (setEntry key value es).map (·.1) =
      if key ∈ es.map (·.1) then es.map (·.1) else es.map (·.1) ++ [key] := by
  induction es with
  | nil => simp [setEntry]
  | cons e rest ih =>
    by_cases h : e.1 = key
    · simp [setEntry, h]
    · have h' : ¬ key = e.1 := fun h' => h h'.symm
      simp only [setEntry, h, if_false, List.map_cons, ih, List.mem_cons, h', false_or]
      split <;> simp

theorem lookup_cons (e : κ × α) (rest : List (κ × α)) (k : κ) :
    (e :: rest).lookup k = if e.1 = k then some e.2 else rest.lookup k := by
  obtain ⟨key, value⟩ := e
  by_cases here : key = k
  · simp [here]
  · simp [List.lookup_cons, here, beq_eq_false_iff_ne.mpr (Ne.symm here)]

theorem lookup_setEntry (key k : κ) (value : α) (es : List (κ × α)) :
    (setEntry key value es).lookup k = if key = k then some value else es.lookup k := by
  induction es with
  | nil => exact lookup_cons (key, value) [] k
  | cons e rest ih =>
    rw [setEntry]
    split
    next here =>
      rw [lookup_cons, lookup_cons, here]
      split <;> rfl
    next other =>
      rw [lookup_cons, lookup_cons, ih]
      by_cases found : e.1 = k
      · have ne : key ≠ k := fun same => other (found.trans same.symm)
        rw [if_pos found, if_neg ne, if_pos found]
      · rw [if_neg found, if_neg found]

theorem setEntry_of_not_mem {key : κ} {es : List (κ × α)}
    (fresh : key ∉ es.map (·.1)) (value : α) : setEntry key value es = es ++ [(key, value)] := by
  induction es with
  | nil => rfl
  | cons e rest ih =>
    rw [List.map_cons, List.mem_cons, not_or] at fresh
    rw [setEntry, if_neg (Ne.symm fresh.1), ih fresh.2, List.cons_append]

theorem nodup_setEntry (key : κ) (value : α) {es : List (κ × α)}
    (h : (es.map (·.1)).Nodup) : ((setEntry key value es).map (·.1)).Nodup := by
  rw [keys_setEntry]
  split
  next => exact h
  next hk =>
    refine List.nodup_append.mpr ⟨h, by simp, ?_⟩
    intro a ha b hb
    rw [List.mem_singleton] at hb
    intro hab
    exact hk (hb ▸ hab ▸ ha)

def insert (t : Table κ α) (key : κ) (value : α) : Table κ α :=
  ⟨setEntry key value t.entries, nodup_setEntry key value t.nodup⟩

/-- The table with a key added unless it is there. -/
def insertNew (t : Table κ α) (key : κ) (value : α) : Table κ α :=
  if t.contains key then t else t.insert key value

/-- The table of a list; a repeated key keeps its first place and its last value. -/
def ofList (entries : List (κ × α)) : Table κ α :=
  entries.foldl (fun t e => t.insert e.1 e.2) empty

def modify (t : Table κ α) (key : κ) (f : α → α) : Table κ α :=
  ⟨t.entries.map fun e => (e.1, if e.1 = key then f e.2 else e.2), by
    simpa [List.map_map, Function.comp_def] using t.nodup⟩

def erase (t : Table κ α) (key : κ) : Table κ α :=
  ⟨t.entries.filter fun e => e.1 != key,
    List.Nodup.sublist (List.Sublist.map _ List.filter_sublist) t.nodup⟩

/-- Tables are equal as maps: the same keys with equal values. -/
instance [BEq α] : BEq (Table κ α) :=
  ⟨fun t u => t.size == u.size && t.entries.all fun e => u.get? e.1 == some e.2⟩

@[simp] theorem get?_map (f : α → β) (t : Table κ α) (key : κ) :
    (t.map f).get? key = (t.get? key).map f := by
  simp only [get?, map, List.find?_map, Option.map_map]
  rfl

theorem mem_toList_of_get? {t : Table κ α} {key : κ} {value : α}
    (found : t.get? key = some value) : (key, value) ∈ t.toList := by
  obtain ⟨e, hit, rfl⟩ := Option.map_eq_some_iff.mp found
  have here : e.1 = key := by simpa using List.find?_some hit
  rw [← here]
  exact List.mem_of_find?_eq_some hit

theorem mem_values_of_get? {t : Table κ α} {key : κ} {value : α} (h : t.get? key = some value) :
    value ∈ t.values :=
  List.mem_map_of_mem (mem_toList_of_get? h)

theorem get?_eq_some_iff {t : Table κ α} {key : κ} {value : α} :
    t.get? key = some value ↔ (key, value) ∈ t.toList := by
  refine ⟨mem_toList_of_get?, fun mem => ?_⟩
  have first {es : List (κ × α)} (nodup : (es.map (·.1)).Nodup) (mem : (key, value) ∈ es) :
      es.find? (fun e => e.1 == key) = some (key, value) := by
    induction es with
    | nil => cases mem
    | cons e rest ih =>
      rw [List.map_cons, List.nodup_cons] at nodup
      rcases List.mem_cons.mp mem with rfl | mem
      · exact List.find?_cons_of_pos (beq_self_eq_true key)
      · have other : e.1 ≠ key := fun same => nodup.1 (List.mem_map.mpr ⟨_, mem, same.symm⟩)
        rw [List.find?_cons, beq_eq_false_iff_ne.mpr other]
        exact ih nodup.2 mem
  rw [get?, first t.nodup mem]
  rfl

theorem get?_eq_lookup (t : Table κ α) (key : κ) : t.get? key = t.entries.lookup key := by
  rw [get?]
  induction t.entries with
  | nil => rfl
  | cons e rest ih =>
    rw [lookup_cons, ← ih]
    by_cases here : e.1 = key <;> simp [here]

theorem get?_insert (t : Table κ α) (key k : κ) (value : α) :
    (t.insert key value).get? k = if key = k then some value else t.get? k := by
  rw [get?_eq_lookup, get?_eq_lookup]
  exact lookup_setEntry key k value t.entries

theorem get?_modify (t : Table κ α) (key k : κ) (f : α → α) :
    (t.modify key f).get? k = if key = k then (t.get? k).map f else t.get? k := by
  have entry : (t.modify key f).get? k =
      (t.entries.find? fun e => e.1 == k).map fun e => if e.1 = key then f e.2 else e.2 := by
    rw [get?, modify, List.find?_map, Option.map_map]
    rfl
  rw [entry, get?]
  cases hit : t.entries.find? fun e => e.1 == k with
  | none => simp
  | some e =>
    have here : e.1 = k := by simpa using List.find?_some hit
    by_cases same : key = k
    · simp [here, same]
    · simp [here, same, Ne.symm same]

theorem get?_erase (t : Table κ α) (key k : κ) :
    (t.erase key).get? k = if key = k then none else t.get? k := by
  refine Option.ext fun value => ?_
  have entry : (k, value) ∈ (t.erase key).toList ↔ (k, value) ∈ t.toList ∧ k ≠ key := by
    simp [erase, toList]
  rw [get?_eq_some_iff, entry]
  by_cases same : key = k
  · simp [same]
  · rw [if_neg same, get?_eq_some_iff]
    exact and_iff_left (Ne.symm same)

theorem get?_filter (p : α → Bool) (t : Table κ α) (key : κ) :
    (t.filter p).get? key = (t.get? key).filter p := by
  refine Option.ext fun value => ?_
  rw [get?_eq_some_iff, Option.filter_eq_some_iff, get?_eq_some_iff]
  exact List.mem_filter

theorem contains_iff {t : Table κ α} {key : κ} : t.contains key = true ↔ key ∈ t.keys := by
  simp [contains, keys]

@[simp] theorem keys_modify (t : Table κ α) (key : κ) (f : α → α) :
    (t.modify key f).keys = t.keys := by
  simp [keys, modify]

theorem mem_keys_insert {t : Table κ α} {key k : κ} {value : α} :
    k ∈ (t.insert key value).keys ↔ k ∈ t.keys ∨ k = key := by
  rw [keys, insert, keys_setEntry]
  split
  next there =>
    refine ⟨Or.inl, fun either => ?_⟩
    rcases either with mem | rfl
    · exact mem
    · exact there
  next =>
    rw [List.mem_append, List.mem_singleton]
    rfl

theorem mem_keys_insertNew {t : Table κ α} {key k : κ} {value : α} :
    k ∈ (t.insertNew key value).keys ↔ k ∈ t.keys ∨ k = key := by
  unfold insertNew
  split
  next there =>
    refine ⟨Or.inl, fun either => ?_⟩
    rcases either with mem | rfl
    · exact mem
    · exact contains_iff.mp there
  next => exact mem_keys_insert

theorem mem_values_insert {t : Table κ α} {key : κ} {value v : α}
    (mem : v ∈ (t.insert key value).values) : v ∈ t.values ∨ v = value := by
  have entry {es : List (κ × α)} (mem : v ∈ (setEntry key value es).map (·.2)) :
      v ∈ es.map (·.2) ∨ v = value := by
    induction es with
    | nil => exact Or.inr (List.mem_singleton.mp mem)
    | cons e rest ih =>
      rw [setEntry] at mem
      rw [List.map_cons, List.mem_cons]
      split at mem <;> rcases List.mem_cons.mp mem with rfl | mem
      · exact Or.inr rfl
      · exact Or.inl (Or.inr mem)
      · exact Or.inl (Or.inl rfl)
      · exact (ih mem).imp_left Or.inr
  exact entry mem

theorem mem_values_insertNew {t : Table κ α} {key : κ} {value v : α}
    (mem : v ∈ (t.insertNew key value).values) : v ∈ t.values ∨ v = value := by
  unfold insertNew at mem
  split at mem
  next => exact Or.inl mem
  next => exact mem_values_insert mem

theorem mem_values_modify {t : Table κ α} {key : κ} {f : α → α} {v : α}
    (mem : v ∈ (t.modify key f).values) : ∃ w ∈ t.values, v = w ∨ v = f w := by
  obtain ⟨e, inModified, rfl⟩ := List.mem_map.mp mem
  obtain ⟨e, inTable, rfl⟩ := List.mem_map.mp inModified
  refine ⟨e.2, List.mem_map_of_mem inTable, ?_⟩
  dsimp only
  split
  · exact Or.inr rfl
  · exact Or.inl rfl

/-- Adding keys that are there changes nothing. -/
theorem insertNew_of_mem {t : Table κ α} {key : κ} (there : key ∈ t.keys) (value : α) :
    t.insertNew key value = t := if_pos (contains_iff.mpr there)

/-- Without repeated keys a list is its table. -/
theorem toList_ofList {entries : List (κ × α)} (nodup : (entries.map (·.1)).Nodup) :
    (ofList entries).toList = entries := by
  have fold (t : Table κ α) (rest : List (κ × α))
      (nodup : ((t.toList ++ rest).map (·.1)).Nodup) :
      (rest.foldl (fun t e => t.insert e.1 e.2) t).toList = t.toList ++ rest := by
    induction rest generalizing t with
    | nil => simp
    | cons e rest ih =>
      have fresh : e.1 ∉ t.toList.map (·.1) := by
        rw [List.map_append, List.map_cons, List.nodup_append] at nodup
        exact fun mem => nodup.2.2 _ mem _ List.mem_cons_self rfl
      have added : (t.insert e.1 e.2).toList = t.toList ++ [e] := setEntry_of_not_mem fresh e.2
      rw [List.foldl_cons, ih _ (by rwa [added, List.append_assoc]), added, List.append_assoc]
      rfl
  exact fold empty entries nodup

end Table

end Movesets
