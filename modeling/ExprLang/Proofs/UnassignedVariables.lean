/-
  UNASSIGNED VARIABLES: what a tree without assignments leaves as it is.

  `assigns` looks for an assignment anywhere in a tree.  A tree without one has no target, so that
  evaluating it overwrites no name of the scopes that it is given.  Its code writes only variables
  that are minted for it, so that executing that code, from anywhere and however far, overwrites no
  variable that was known before.

  That is what operands rely on.  An operand that is a declared variable is copied out only if one
  behind it assigns; otherwise the variable still holds what it held, when the call reads it.
-/
import ExprLang.Proofs.DraftSteps
import ExprLang.Proofs.Execution
import ExprLang.Proofs.KeptScopes

namespace ExprLang

/-! ## Trees without assignments -/

namespace Lowering

theorem assignsAny_eq_false_iff {es : List Expr} :
    assignsAny es = false ↔ ∀ e ∈ es, assigns e = false := by
  induction es with
  | nil => simp [assignsAny]
  | cons e es ih => simp [assignsAny, ih]

/-- Without an assignment in a tree there is none in its children. -/
theorem assigns_child {e : Expr} (h : assigns e = false) :
    ∀ child ∈ e.children, assigns child = false := by
  cases e <;> simp_all [assigns, Expr.children, assignsAny_eq_false_iff]

theorem targets_eq_nil {e : Expr} (h : assigns e = false) : e.targets = [] := by
  have hnodes : ∀ node ∈ e.nodes, assigns node = false :=
    Expr.inherit (fun node => assigns node = false) (fun _ hnode => assigns_child hnode) h
  rw [Expr.targets, List.filterMap_eq_nil_iff]
  intro node hmem
  have hnode := hnodes node hmem
  unfold Expr.target?
  split
  · split
    · rename_i hop
      simp [assigns, hop] at hnode
    · rfl
  · rfl

/-! ## Their code -/

/-- Everything that the code of such a tree writes is minted for it, also when lowering fails on
    the way. -/
theorem writes_minted {e : Expr} (h : assigns e = false) (d : Draft) :
    ∃ added, (stateBehind (lower e) d).code.toList = d.code.toList ++ added ∧
      ∀ i ∈ added, ∀ x, i.writes = some x → d.MintedSince (stateBehind (lower e) d) x := by
  obtain ⟨xs, ls, hwrote⟩ : Draft.Reaches false d (stateBehind (lower e) d) :=
    leads_alike.1 (writes_lower e (fun hassigns => by rw [h] at hassigns; contradiction) d)
  obtain ⟨added, hcode, hadded⟩ := hwrote.code
  refine ⟨added, hcode, fun i hi x hx => ?_⟩
  rcases (hadded i hi).1 x hx with hmem | hassigning
  · exact hwrote.mintedSince.2 x hmem
  · contradiction

end Lowering

/-- What was minted since was not known before. -/
theorem Draft.MintedSince.not_known {d d' : Draft} {x : Var} (h : d.MintedSince d' x) :
    ¬d.Known x := by
  obtain ⟨k, hk, -, rfl, hname⟩ := h
  rintro (hreserved | ⟨j, hj, heq⟩)
  · exact hname hreserved
  · obtain rfl := Var.numbered_injective heq
    omega

/-! ## Executing it -/

namespace Machine

variable {code : List Instr} {s t : State} {x : Var}

/-- The next instruction stands between two positions, and is executed. -/
def StepBetween (code : List Instr) (first last : Nat) (s t : State) : Prop :=
  first ≤ s.position ∧ s.position < last ∧ Step code s t

/-- An instruction overwrites no variable but the one that it writes. -/
theorem store_of_step {i : Instr} (h : step code i.action s = .ok t) (hx : i.writes ≠ some x) :
    t.store x = s.store x := by
  rcases step_cases h with ⟨dest, v, out, hwrites, rfl⟩ | ⟨-, p, -, rfl⟩
  · exact Store.set_of_ne _ _ _ fun heq => hx (heq ▸ hwrites)
  · rfl

/-- Nor do many instructions between two positions, if none of them writes it. -/
theorem store_of_stepsBetween {first last : Nat}
    (hwrites : ∀ k i, first ≤ k → k < last → code[k]? = some i → i.writes ≠ some x)
    (h : Relation.ReflTransGen (StepBetween code first last) s t) : t.store x = s.store x := by
  induction h with
  | refl => rfl
  | tail _ hstep ih =>
    obtain ⟨hfirst, hlast, i, hi, hok⟩ := hstep
    exact (store_of_step hok (hwrites _ i hfirst hlast hi)).trans ih

end Machine

/-! ## Operands need no copy -/

/-- The code of such a tree overwrites no variable that was known before it was written. -/
theorem store_of_unassigned {e : Expr} (h : Lowering.assigns e = false) {d : Draft}
    {code : List Instr} (hcode : (stateBehind (Lowering.lower e) d).code.toList <+: code)
    {s t : Machine.State} (hsteps : Relation.ReflTransGen (Machine.StepBetween code d.code.size
      (stateBehind (Lowering.lower e) d).code.size) s t) {x : Var} (hx : d.Known x) :
    t.store x = s.store x := by
  obtain ⟨added, hadded, hminted⟩ := Lowering.writes_minted h d
  refine Machine.store_of_stepsBetween (fun k i hfirst hlast hi hwrites => ?_) hsteps
  refine (hminted i ?_ x hwrites).not_known hx
  obtain ⟨behind, rfl⟩ := hcode
  rw [List.getElem?_append_left hlast, hadded, List.getElem?_append_right hfirst] at hi
  exact List.mem_of_getElem? hi

/-- The test for assignments is sound.  A draft knows the variables that are reserved or minted, so
    these are the ones that exist before a tree is lowered; a tidy draft binds no others.  If a
    parsed tree has no assignment, lowering it appends code that writes none of them, whether it
    succeeds or fails, but only variables that it mints; evaluating it, whether it succeeds or
    fails, changes no binding of the scopes that it is given; and executing the code appended, for
    any number of steps, leaves the variables that existed before with their values. -/
theorem unassigned_operands_need_no_copy {tokens : List Token} {e : Expr}
    (hparse : Grammar.parse tokens = .ok (some e)) (hassigns : Lowering.assigns e = false) :
    (∀ d : Draft, ∃ added,
      (stateBehind (Lowering.lower e) d).code.toList = d.code.toList ++ added ∧
      ∀ i ∈ added, ∀ x, i.writes = some x →
        d.MintedSince (stateBehind (Lowering.lower e) d) x ∧ ¬d.Known x ∧
        (d.Tidy → ∀ level n, d.scopes.binding level n ≠ some x)) ∧
    (∀ s, s.scopes.SameNames (stateBehind (Eval.eval e) s).scopes ∧
      ∀ level n, (stateBehind (Eval.eval e) s).scopes.binding level n = s.scopes.binding level n) ∧
    ∀ (d : Draft) (code : List Instr) (s t : Machine.State),
      (stateBehind (Lowering.lower e) d).code.toList <+: code →
      Relation.ReflTransGen (Machine.StepBetween code d.code.size
        (stateBehind (Lowering.lower e) d).code.size) s t →
      ∀ x, d.Known x → t.store x = s.store x := by
  refine ⟨fun d => ?_, fun s => ?_, fun d code s t hcode hsteps x hx =>
    store_of_unassigned hassigns hcode hsteps hx⟩
  · obtain ⟨added, hadded, hminted⟩ := Lowering.writes_minted hassigns d
    refine ⟨added, hadded, fun i hi x hx => ?_⟩
    have hnew := (hminted i hi x hx).not_known
    exact ⟨hminted i hi x hx, hnew, fun htidy level n hbound =>
      hnew (htidy.known_of_available (htidy.bound level n x hbound))⟩
  · have hformed : e.WellFormed :=
      Expr.wellFormed_of_fits (fun _ hn => hn.2) (Grammar.fits_of_parse_any hparse)
    have hsame := (Eval.keeps_eval hformed).behind s
    refine ⟨hsame.toSameNames, fun level n => hsame.kept level n ?_⟩
    rw [Lowering.targets_eq_nil hassigns]
    exact List.not_mem_nil

/-- `print_int(7)` reads `print_int` and does not write it. -/
theorem unassigned_operands_need_no_copy_print : ∃ e, Grammar.parse
      [⟨.identifier, "print_int", .of 1 1⟩, ⟨.punctuation, "(", .of 1 10⟩,
       ⟨.integer, "7", .of 1 11⟩, ⟨.punctuation, ")", .of 1 12⟩] = .ok (some e) ∧
    Lowering.assigns e = false ∧
    (∀ i ∈ (stateBehind (Lowering.lower e) (Draft.start ["print_int"])).code.toList,
      i.writes ≠ some ⟨"print_int"⟩) ∧
    ∀ s level n, (stateBehind (Eval.eval e) s).scopes.binding level n
      = s.scopes.binding level n := by
  have hparse : Grammar.parse
      [⟨.identifier, "print_int", .of 1 1⟩, ⟨.punctuation, "(", .of 1 10⟩,
       ⟨.integer, "7", .of 1 11⟩, ⟨.punctuation, ")", .of 1 12⟩] = .ok (some
      (.call (.of 1 1) (.name (.of 1 1) "print_int") [.int (.of 1 11) 7])) := by
    with_unfolding_all rfl
  obtain ⟨hlower, heval, -⟩ := unassigned_operands_need_no_copy hparse rfl
  refine ⟨_, hparse, rfl, ?_, fun s level n => (heval s).2 level n⟩
  obtain ⟨added, hcode, hadded⟩ := hlower (Draft.start ["print_int"])
  intro i hi hwrites
  rw [hcode] at hi
  exact (hadded i hi ⟨"print_int"⟩ hwrites).2.1 (.inl (by decide))

end ExprLang
