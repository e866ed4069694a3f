/-
  DRAFTS: code while it is being written.

  A draft holds the instructions so far and mints variables and labels that nothing else uses.
  Variables are numbered `x1`, `x2`, … and skip the reserved names; labels are numbered behind a
  stem that says what they are for.

  MINTING ends because every skipped number uses up a reserved name (`firstFree`).  The number
  that it finds is free, and it skips no other free one (`firstFree_spec`).
-/
import ExprLang.Code
import ExprLang.Expr
import ExprLang.Scopes
import ExprLang.Error.Lowering

namespace ExprLang

/-- The variable of a number. -/
def Var.numbered (k : Nat) : Var := ⟨"x" ++ toString k⟩

theorem Var.numbered_injective {j k : Nat} (h : Var.numbered j = Var.numbered k) : j = k := by
  simp only [Var.numbered, Var.mk.injEq, String.append_right_inj] at h
  have digits := congrArg (fun s => Nat.ofDigitChars 10 s.toList 0) h
  simpa [Nat.toString_eq_ofList_toDigits] using digits

/-! ## The first free number -/

/-- The first number from `k` on whose variable is not reserved. -/
def firstFree (reserved : List String) (k : Nat) : Nat :=
  if (Var.numbered k).name ∈ reserved then
    firstFree (reserved.erase (Var.numbered k).name) (k + 1)
  else k
termination_by reserved.length
decreasing_by
  rename_i taken
  have := List.length_pos_of_mem taken
  rw [List.length_erase_of_mem taken]
  omega

theorem le_firstFree (reserved : List String) (k : Nat) : k ≤ firstFree reserved k := by
  fun_induction firstFree reserved k with
  | case1 reserved k _ ih => omega
  | case2 => exact Nat.le_refl _

/-- The number found is not reserved, and every one that was skipped is. -/
theorem firstFree_spec (reserved : List String) (k : Nat) :
    (Var.numbered (firstFree reserved k)).name ∉ reserved ∧
      ∀ j, k ≤ j → j < firstFree reserved k → (Var.numbered j).name ∈ reserved := by
  fun_induction firstFree reserved k with
  | case1 reserved k taken ih =>
    obtain ⟨free, skipped⟩ := ih
    refine ⟨fun h => free ((List.mem_erase_of_ne fun same => ?_).2 h), fun j low high => ?_⟩
    · -- the number found lies behind `k`, so its name is another one
      have := le_firstFree (reserved.erase (Var.numbered k).name) (k + 1)
      have := Var.numbered_injective (congrArg Var.mk same)
      omega
    · -- `k` itself is taken, and what lies behind it was skipped later
      by_cases here : j = k
      · exact here ▸ taken
      · exact List.mem_of_mem_erase (skipped j (by omega) high)
  | case2 reserved k free => exact ⟨free, fun j low high => by omega⟩

/-! ## Drafts -/

/-- Code being written, with the variables of the names in scope. -/
structure Draft where
  /-- The variables of the names in scope. -/
  scopes : Scopes Var
  /-- The instructions so far. -/
  code : Array Instr := #[]
  /-- The names that no minted variable may have. -/
  reserved : List String
  /-- The number of the last variable that was minted. -/
  minted : Nat := 0
  /-- The number of labels that were minted. -/
  labels : Nat := 0
  /-- The variables that hold a declared variable of the program. -/
  declared : List Var := []

namespace Draft

/-- Nothing written yet; every reserved name is bound to the variable of that name. -/
def start (reserved : List String) : Draft where
  scopes := .ofList (reserved.map fun n => (n, ⟨n⟩))
  reserved := unitName :: reserved

/-- Open a scope. -/
def push (d : Draft) : Draft := { d with scopes := d.scopes.push }

/-- Close a scope. -/
def pop (d : Draft) : Draft := { d with scopes := d.scopes.pop }

/-- A variable that no reserved name and no earlier variable has taken. -/
def mint (d : Draft) : Var × Draft :=
  let k := firstFree d.reserved (d.minted + 1)
  (Var.numbered k, { d with minted := k })

/-- A label that nothing else defines. -/
def mintLabel (stem : String) (d : Draft) : Label × Draft :=
  (⟨stem ++ toString (d.labels + 1)⟩, { d with labels := d.labels + 1 })

/-- Write an instruction. -/
def emit (action : Action) (location : Location) (d : Draft) : Draft :=
  { d with code := d.code.push ⟨action, location⟩ }

end Draft
end ExprLang
