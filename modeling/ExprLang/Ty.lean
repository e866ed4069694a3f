/-
  TYPES: integers, Booleans, unit, and functions of any number of arguments.

  Equality of types is decided by walking both (`Ty.same`, `Ty.same_iff`).  The text of a type
  is the one that signatures and messages show, such as `(Int, Int) => Bool`.
-/
namespace ExprLang

/-- The types of the language. -/
inductive Ty where
  | int
  | bool
  | unit
  | func (params : List Ty) (result : Ty)

namespace Ty

/-! ## Equality -/

mutual

/-- Whether two types are equal. -/
def same : Ty → Ty → Bool
  | .int, .int => true
  | .bool, .bool => true
  | .unit, .unit => true
  | .func ps r, .func qs s => sameAll ps qs && r.same s
  | _, _ => false

/-- Whether two lists of types are equal. -/
def sameAll : List Ty → List Ty → Bool
  | [], [] => true
  | p :: ps, q :: qs => p.same q && sameAll ps qs
  | _, _ => false

end

mutual

theorem same_refl : (a : Ty) → a.same a = true
  | .int => rfl
  | .bool => rfl
  | .unit => rfl
  | .func ps r => by simp [same, sameAll_refl ps, same_refl r]

theorem sameAll_refl : (ps : List Ty) → sameAll ps ps = true
  | [] => rfl
  | p :: ps => by simp [sameAll, same_refl p, sameAll_refl ps]

end

mutual

theorem eq_of_same : (a b : Ty) → a.same b = true → a = b
  | .int, b, h => by cases b <;> simp_all [same]
  | .bool, b, h => by cases b <;> simp_all [same]
  | .unit, b, h => by cases b <;> simp_all [same]
  | .func ps r, b, h => by
    cases b with
    | func qs s =>
      simp only [same, Bool.and_eq_true] at h
      rw [eq_of_sameAll ps qs h.1, eq_of_same r s h.2]
    | _ => simp [same] at h

theorem eq_of_sameAll : (ps qs : List Ty) → sameAll ps qs = true → ps = qs
  | [], qs, h => by cases qs <;> simp_all [sameAll]
  | p :: ps, qs, h => by
    cases qs with
    | nil => simp [sameAll] at h
    | cons q qs =>
      simp only [sameAll, Bool.and_eq_true] at h
      rw [eq_of_same p q h.1, eq_of_sameAll ps qs h.2]

end

theorem same_iff (a b : Ty) : a.same b = true ↔ a = b :=
  ⟨eq_of_same a b, fun h => h ▸ same_refl a⟩

instance : DecidableEq Ty := fun a b => decidable_of_iff _ (same_iff a b)

/-! ## Text -/

mutual

/-- The text of a type. -/
def text : Ty → String
  | .int => "Int"
  | .bool => "Bool"
  | .unit => "Unit"
  | .func params result => "(" ++ textAll params ++ ") => " ++ result.text

/-- The texts of some types, separated by commas. -/
def textAll : List Ty → String
  | [] => ""
  | [p] => p.text
  | p :: q :: ps => p.text ++ ", " ++ textAll (q :: ps)

end

end Ty
end ExprLang
