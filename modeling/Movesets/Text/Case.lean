set_option autoImplicit false

/-!
# Texts compared without regard to ASCII case

Editor identifiers of keywords are compared this way: the letters `A` to `Z` equal `a` to `z`, every
other character equals only itself.
-/

namespace Movesets.Text

/-- The text with `A` to `Z` lowered; two texts are the same name exactly when these agree. -/
def caseKey (s : String) : List Char :=
  s.toList.map Char.toLower

/-- `a` and `b` agree up to ASCII case. -/
def sameName (a b : String) : Bool :=
  caseKey a == caseKey b

theorem sameName_iff {a b : String} : sameName a b = true ↔ caseKey a = caseKey b := by
  simp [sameName]

@[simp] theorem sameName_refl (a : String) : sameName a a = true := by
  simp [sameName]

theorem sameName_comm (a b : String) : sameName a b = sameName b a := by
  simp [sameName, eq_comm, Bool.beq_eq_decide_eq]

end Movesets.Text
