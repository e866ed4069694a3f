/-
  PATHS: the ways through code, whatever its variables hold.

  The machine decides at a branch by the value of the condition.  Here somebody else decides: a
  path is what is executed when `choose` says at every branch which of its two labels control
  goes to, knowing the instructions executed so far.  So the paths of some code are all the
  ways that any values could lead through it, and more.

  `path?` gives the positions along a path up to where it runs off the end of the code.  There is
  none when control goes to a label that is not there, or when the path takes more steps than it
  is allowed.
-/
import ExprLang.Code.Machine

namespace ExprLang.Machine

/-- Where control goes from an instruction; a branch goes to its first label or to its second. -/
def follow? (code : List Instr) (first : Bool) (i : Instr) (position : Nat) : Option Nat :=
  match i.action with
  | .jump target => labelPosition? code target
  | .branch _ thenTarget elseTarget =>
    labelPosition? code (if first then thenTarget else elseTarget)
  | _ => some (position + 1)

/-- The positions along a path that has come to `position` by way of `visited`. -/
def path? (code : List Instr) (choose : List Nat → Bool) :
    Nat → List Nat → Nat → Option (List Nat)
  | steps, visited, position =>
    match code[position]?, steps with
    | none, _ => some visited
    | some _, 0 => none
    | some i, steps + 1 =>
      (follow? code (choose visited) i position).bind
        (path? code choose steps (visited ++ [position]))

/-- The instructions at some positions. -/
def instructionsAt (code : List Instr) (positions : List Nat) : List Instr :=
  positions.filterMap (code[·]?)

/-- Whether instructions that are executed one after the other read only what is reserved or was
    written by an earlier one. -/
def Supplied (reserved : List String) (executed : List Instr) : Prop :=
  ∀ k i, executed[k]? = some i →
    ∀ x ∈ i.reads, x.name ∈ reserved ∨ x ∈ (executed.take k).filterMap Instr.writes

theorem instructionsAt_append (code : List Instr) (front back : List Nat) :
    instructionsAt code (front ++ back) = instructionsAt code front ++ instructionsAt code back :=
  List.filterMap_append

theorem instructionsAt_singleton {code : List Instr} {position : Nat} {i : Instr}
    (h : code[position]? = some i) : instructionsAt code [position] = [i] := by
  rw [instructionsAt, List.filterMap_cons_some h, List.filterMap_nil]

theorem supplied_nil (reserved : List String) : Supplied reserved [] := by
  intro k i hi
  simp at hi

/-- One more instruction may be executed when what it reads is there. -/
theorem Supplied.append {reserved : List String} {executed : List Instr} {i : Instr}
    (h : Supplied reserved executed)
    (hreads : ∀ x ∈ i.reads, x.name ∈ reserved ∨ x ∈ executed.filterMap Instr.writes) :
    Supplied reserved (executed ++ [i]) := by
  intro k j hj
  rcases Nat.lt_trichotomy k executed.length with hlt | rfl | hgt
  · rw [List.getElem?_append_left hlt] at hj
    rw [List.take_append_of_le_length (Nat.le_of_lt hlt)]
    exact h k j hj
  · simp only [List.getElem?_concat_length, Option.some.injEq] at hj
    subst hj
    rw [List.take_left]
    exact hreads
  · have hlength : (executed ++ [i]).length ≤ k := by
      rw [List.length_append, List.length_singleton]
      exact hgt
    rw [List.getElem?_eq_none hlength] at hj
    contradiction

end ExprLang.Machine
