import Movesets.Proofs.Spelling
import Movesets.Proofs.Widening
import Movesets.Rule

set_option autoImplicit false

/-!
# Parts of a model as data

A part of a model is decoded from its data as itself.  Two things would be lost on the way: a form
that no text names, and a threshold that is a NaN, of which only one kind is written.
-/

namespace Movesets

theorem bind_of_eq_some {α β : Type} {x : Option α} {a : α} {f : α → Option β} {y : Option β}
    (first : x = some a) (next : f a = y) : (x >>= f) = y := by
  rw [first]
  exact next

namespace Data

def texts (fields : List (String × Data)) : List (Key × Data) :=
  fields.map fun f => (.text f.1, f.2)

theorem asFields?_record (R : Reading) (fields : List (String × Data)) :
    (record fields).asFields? R = some (texts fields) := by
  have areTexts : (texts fields).all (·.1.isText) = true := by simp [texts, Key.isText]
  change (if R.keysAreTexts && !(texts fields).all (·.1.isText) then none
    else some (texts fields)) = _
  rw [areTexts, Bool.not_true, Bool.and_false, if_neg (by decide)]

section Field

variable {fields : List (String × Data)} {key : String} {d : Data}

theorem field?_of_mem (nodup : (fields.map (·.1)).Nodup) (mem : (key, d) ∈ fields) :
    field? (texts fields) key = some (some d) := by
  have found : (texts fields).filter (fun f => f.1 == .text key) = [(.text key, d)] := by
    induction fields with
    | nil => cases mem
    | cons f rest ih =>
      obtain ⟨fresh, nodup⟩ := List.nodup_cons.mp nodup
      rw [texts, List.map_cons]
      rcases List.mem_cons.mp mem with rfl | inRest
      · have others : (texts rest).filter (fun f => f.1 == .text key) = [] := by
          refine List.filter_eq_nil_iff.mpr fun g inTexts same => ?_
          obtain ⟨g, inRest, rfl⟩ := List.mem_map.mp inTexts
          have same : g.1 = key := by simpa using same
          exact fresh (List.mem_map.mpr ⟨g, inRest, same⟩)
        rw [List.filter_cons_of_pos (by simp)]
        exact congrArg _ others
      · have other : f.1 ≠ key := fun same =>
          fresh (List.mem_map.mpr ⟨(key, d), inRest, same.symm⟩)
        rw [List.filter_cons_of_neg (by simpa using other)]
        exact ih nodup inRest
  rw [field?, found]

variable {α : Type} {decode : Data → Option α} {x : α}

theorem required?_of_mem (read : decode d = some x) (nodup : (fields.map (·.1)).Nodup)
    (mem : (key, d) ∈ fields) : required? (texts fields) key decode = some x := by
  rw [required?, field?_of_mem nodup mem]
  exact read

theorem optional?_of_mem (read : decode d = some x) (nodup : (fields.map (·.1)).Nodup)
    (mem : (key, d) ∈ fields) (fallback : α) :
    optional? (texts fields) key fallback decode = some x := by
  rw [optional?, field?_of_mem nodup mem]
  exact read

end Field

theorem asNatBelow?_ofNat {n bound : Nat} (below : n < bound) :
    (ofNat n).asNatBelow? bound = some n := by
  have inside : 0 ≤ (n : Int) ∧ (n : Int) < bound := by omega
  rw [ofNat, asNatBelow?, if_pos inside, Int.toNat_natCast]

theorem asUInt32?_ofNat (n : UInt32) : (ofNat n.toNat).asUInt32? = some n := by
  rw [asUInt32?, asNatBelow?_ofNat n.toNat_lt, Option.map_some, UInt32.ofNat_toNat]

theorem asUInt16?_ofNat (n : UInt16) : (ofNat n.toNat).asUInt16? = some n := by
  rw [asUInt16?, asNatBelow?_ofNat n.toNat_lt, Option.map_some, UInt16.ofNat_toNat]

theorem asInt32?_ofInt32 (i : Int32) : (ofInt32 i).asInt32? = some i := by
  have inside : Int32.minValue.toInt ≤ i.toInt ∧ i.toInt ≤ Int32.maxValue.toInt :=
    ⟨i.minValue_le_toInt, i.toInt_le⟩
  rw [ofInt32, asInt32?, asInt?, Option.bind_some, if_pos inside, Int32.ofInt_toInt]

theorem asBinary32?_ofBinary32 {x : Number.Binary32} (number : x.isNaN = false) :
    (ofBinary32 x).asBinary32? = some x := by
  rw [ofBinary32, asBinary32?, Number.Binary.convert_convert number]

theorem asListOf?_list {α : Type} (R : Reading) {item : Data → Option α} {toData : α → Data}
    {xs : List α} (each : ∀ x ∈ xs, item (toData x) = some x) :
    (Data.list (xs.map toData)).asListOf? R item = some xs := by
  rw [asListOf?, mapM_map_of_some (g := id) each, List.map_id]

theorem asListOf?_ofTexts (R : Reading) (ss : List String) :
    (ofTexts ss).asListOf? R asText? = some ss :=
  asListOf?_list R fun _ _ => rfl

end Data

open Data

theorem Source.ofData?_toData (R : Reading) (s : Source) : ofData? R s.toData = some s := by
  unfold ofData? toData
  refine bind_of_eq_some (asFields?_record R _) ?_
  refine bind_of_eq_some (required?_of_mem (asUInt32?_ofNat s.modIndex) (by simp) (by simp)) ?_
  refine bind_of_eq_some (required?_of_mem (asUInt32?_ofNat s.subIndex) (by simp) (by simp)) ?_
  rfl

theorem Role.ofData?_toData (R : Reading) (r : Role) : ofData? R r.toData = some r := by
  have directions : (Data.text r.directions.print).asText?.bind Directions.parse? =
      some r.directions := r.directions.parse?_print
  have random : (Data.bool r.random).asBool? = some r.random := rfl
  have movement : (Data.bool r.movement).asBool? = some r.movement := rfl
  unfold ofData? toData
  refine bind_of_eq_some (asFields?_record R _) ?_
  refine bind_of_eq_some (optional?_of_mem directions (by simp) (by simp) _) ?_
  refine bind_of_eq_some (optional?_of_mem random (by simp) (by simp) _) ?_
  refine bind_of_eq_some (optional?_of_mem movement (by simp) (by simp) _) ?_
  exact congrArg some r.ofFlags_flags

theorem Variant.ofData?_toData (R : Reading) (v : Variant) : ofData? R v.toData = some v := by
  have displayName : (Data.text v.displayName).asText? = some v.displayName := rfl
  have selected : (Data.bool v.selected).asBool? = some v.selected := rfl
  unfold ofData? toData
  refine bind_of_eq_some (asFields?_record R _) ?_
  refine bind_of_eq_some (required?_of_mem (v.source.ofData?_toData R) (by simp) (by simp)) ?_
  refine bind_of_eq_some (optional?_of_mem displayName (by simp) (by simp) _) ?_
  refine bind_of_eq_some (optional?_of_mem selected (by simp) (by simp) _) ?_
  refine bind_of_eq_some (optional?_of_mem (v.role.ofData?_toData R) (by simp) (by simp) _) ?_
  rfl

structure Thresholds.Numeric (t : Thresholds) : Prop where
  health : t.healthCeiling.isNaN = false
  stamina : t.staminaCeiling.isNaN = false
  magicka : t.magickaCeiling.isNaN = false

instance (t : Thresholds) : Decidable t.Numeric :=
  decidable_of_iff (t.healthCeiling.isNaN = false ∧ t.staminaCeiling.isNaN = false ∧
    t.magickaCeiling.isNaN = false) ⟨fun h => ⟨h.1, h.2.1, h.2.2⟩, fun h => ⟨h.1, h.2, h.3⟩⟩

theorem Thresholds.ofData?_toData (R : Reading) {t : Thresholds} (numeric : t.Numeric) :
    ofData? R t.toData = some t := by
  have health := asBinary32?_ofBinary32 numeric.health
  have stamina := asBinary32?_ofBinary32 numeric.stamina
  have magicka := asBinary32?_ofBinary32 numeric.magicka
  have level := asUInt16?_ofNat t.minLevel
  unfold ofData? toData
  refine bind_of_eq_some (asFields?_record R _) ?_
  refine bind_of_eq_some (optional?_of_mem health (by simp) (by simp) _) ?_
  refine bind_of_eq_some (optional?_of_mem stamina (by simp) (by simp) _) ?_
  refine bind_of_eq_some (optional?_of_mem magicka (by simp) (by simp) _) ?_
  refine bind_of_eq_some (optional?_of_mem level (by simp) (by simp) _) ?_
  rfl

theorem Entry.ofData?_toData (R : Reading) {e : Entry} (numeric : e.thresholds.Numeric) :
    ofData? R e.toData = some e := by
  have name : (Data.text e.name).asText? = some e.name := rfl
  have selected : (Data.bool e.selected).asBool? = some e.selected := rfl
  have variants := asListOf?_list R fun v (_ : v ∈ e.variants) => v.ofData?_toData R
  have thresholds := Thresholds.ofData?_toData R numeric
  unfold ofData? toData
  refine bind_of_eq_some (asFields?_record R _) ?_
  refine bind_of_eq_some (required?_of_mem name (by simp) (by simp)) ?_
  refine bind_of_eq_some (optional?_of_mem selected (by simp) (by simp) _) ?_
  refine bind_of_eq_some (optional?_of_mem variants (by simp) (by simp) _) ?_
  refine bind_of_eq_some (optional?_of_mem thresholds (by simp) (by simp) _) ?_
  rfl

/-- No threshold of an entry is a NaN. -/
def Category.Numeric (c : Category) : Prop :=
  ∀ p ∈ c.stances, ∀ e ∈ p, e.thresholds.Numeric

instance (c : Category) : Decidable c.Numeric :=
  inferInstanceAs (Decidable (∀ p ∈ c.stances, ∀ e ∈ p, e.thresholds.Numeric))

theorem Category.ofData?_toData (R : Reading) {c : Category} (numeric : c.Numeric) :
    ofData? R c.toData = some c := by
  have name : (Data.text c.name).asText? = some c.name := rfl
  have dualWield : (Data.bool c.dualWield).asBool? = some c.dualWield := rfl
  have shield : (Data.bool c.shield).asBool? = some c.shield := rfl
  have custom : (Data.bool c.custom).asBool? = some c.custom := rfl
  have stances := asListOf?_list R fun p (inCategory : p ∈ c.stances) =>
    asListOf?_list R fun e inPlaylist => Entry.ofData?_toData R (numeric p inCategory e inPlaylist)
  unfold ofData? toData
  refine bind_of_eq_some (asFields?_record R _) ?_
  refine bind_of_eq_some (required?_of_mem name (by simp) (by simp)) ?_
  refine bind_of_eq_some (optional?_of_mem (asInt32?_ofInt32 c.rightType) (by simp) (by simp) _) ?_
  refine bind_of_eq_some (optional?_of_mem (asInt32?_ofInt32 c.leftType) (by simp) (by simp) _) ?_
  refine bind_of_eq_some (optional?_of_mem dualWield (by simp) (by simp) _) ?_
  refine bind_of_eq_some (optional?_of_mem shield (by simp) (by simp) _) ?_
  refine bind_of_eq_some (optional?_of_mem custom (by simp) (by simp) _) ?_
  refine bind_of_eq_some
    (optional?_of_mem (asListOf?_ofTexts R c.rightKeywords) (by simp) (by simp) _) ?_
  refine bind_of_eq_some
    (optional?_of_mem (asListOf?_ofTexts R c.leftKeywords) (by simp) (by simp) _) ?_
  refine bind_of_eq_some (optional?_of_mem stances (by simp) (by simp) _) ?_
  rfl

/-- Some text names the form of the matcher, if it has one. -/
def Matcher.Readable : Matcher → Prop
  | .unique f => f.Readable
  | .faction f => f.Readable
  | .race f => f.Readable
  | _ => True

theorem Matcher.ofData?_toData (R : Reading) {m : Matcher} (readable : m.Readable) :
    ofData? R m.toData = some m := by
  cases m <;> unfold ofData? toData <;> refine bind_of_eq_some (asFields?_record R _) ?_
  case player => rfl
  case general => rfl
  case unique f => exact congrArg (Option.map unique) (Form.parse?_print readable)
  case faction f => exact congrArg (Option.map faction) (Form.parse?_print readable)
  case keyword k => rfl
  case race f => exact congrArg (Option.map race) (Form.parse?_print readable)

end Movesets
