/-
  UNUSED DECLARATIONS: a variable that nothing uses changes nothing.

  In `{ var n = v; e }` the declaration of `n` hides what `n` has meant before.  When `e` has no
  free use of the name, the block has the type of `e` and runs as `e` does, behind what `v` has
  printed.  That `v` itself leaves everything as it was is a matter of types: it may assign to a
  builtin, but nothing of the type of a builtin is anything else than that builtin.

  Operators are uses too, since they are looked up by name.  Of all operators only `not` has a name
  that a program can declare, so this one operator is at the mercy of the program
  (`typeOf_declared_not`).
-/
import Mathlib
import ExprLang.Proofs.AskedNames
import ExprLang.Proofs.HiddenNames
import ExprLang.Proofs.TypeSoundness

namespace ExprLang

open Scopes (SameInside SameBehind)

/-! ## Operators that a program can declare -/

namespace Expr

/-- The names under which operators are looked up. -/
def operatorNames : List String :=
  Grammar.unaryOperators.map unaryName ++ Grammar.binaryLevels.flatten

theorem mem_of_mem_outside {declared : List String} {u use : Use}
    (h : u ∈ use.outside declared) : u = use := by
  unfold Use.outside at h
  split at h
  · contradiction
  · exact List.mem_singleton.1 h

variable {names : String → Prop} {n : String}

mutual

/-- The operators of a parsed tree are those of the grammar. -/
theorem operator_of_mem_freeUses : (e : Expr) → {pos : Place} → e.Fits names pos →
    {declared : List String} → .operator n ∈ e.freeUses declared → n ∈ operatorNames
  | .int _ _, _, _, _, hmem => by simp [freeUses] at hmem
  | .bool _ _, _, _, _, hmem => by simp [freeUses] at hmem
  | .unit _, _, _, _, hmem => by simp [freeUses] at hmem
  | .name _ m, _, _, _, hmem => by
    rw [freeUses] at hmem
    exact absurd (mem_of_mem_outside hmem) (by simp)
  | .unary _ op operand, _, h, _, hmem => by
    rw [freeUses, List.mem_append] at hmem
    rcases hmem with hmem | hmem
    · obtain rfl := Use.operator.inj (mem_of_mem_outside hmem)
      exact List.mem_append_left _ (List.mem_map_of_mem h.1)
    · exact operator_of_mem_freeUses operand h.2 hmem
  | .binary _ op left right, _, h, _, hmem => by
    rcases h.binary_cases with ⟨rfl, nameLoc, m, rfl⟩ | ⟨hassign, hop⟩
    · rw [freeUses_assign, List.mem_append] at hmem
      rcases hmem with hmem | hmem
      · exact absurd (mem_of_mem_outside hmem) (by simp)
      · exact operator_of_mem_freeUses right h.2.2 hmem
    · by_cases hlogic : op = "and" ∨ op = "or"
      -- `and` and `or` are no uses, so only their sides are asked
      · rw [freeUses_logic hlogic, List.mem_append] at hmem
        rcases hmem with hmem | hmem
        · exact operator_of_mem_freeUses left h.2.1 hmem
        · exact operator_of_mem_freeUses right h.2.2 hmem
      · rw [freeUses_operation hassign hlogic, List.mem_append, List.mem_append] at hmem
        rcases hmem with hmem | hmem | hmem
        · obtain rfl := Use.operator.inj (mem_of_mem_outside hmem)
          exact List.mem_append_right _ hop
        · exact operator_of_mem_freeUses left h.2.1 hmem
        · exact operator_of_mem_freeUses right h.2.2 hmem
  | .ifThen _ condition thenBranch, _, h, _, hmem => by
    rw [freeUses, List.mem_append] at hmem
    rcases hmem with hmem | hmem
    · exact operator_of_mem_freeUses condition h.1 hmem
    · exact operator_of_mem_freeUses thenBranch h.2 hmem
  | .ifElse _ condition thenBranch elseBranch, _, h, _, hmem => by
    rw [freeUses, List.mem_append, List.mem_append] at hmem
    rcases hmem with (hmem | hmem) | hmem
    · exact operator_of_mem_freeUses condition h.1 hmem
    · exact operator_of_mem_freeUses thenBranch h.2.1 hmem
    · exact operator_of_mem_freeUses elseBranch h.2.2 hmem
  | .call _ function arguments, _, h, _, hmem => by
    rw [freeUses, List.mem_append] at hmem
    rcases hmem with hmem | hmem
    · exact operator_of_mem_freeUses function h.2.1 hmem
    · exact operator_of_mem_freeUsesAll arguments h.2.2 hmem
  | .var _ _ value, _, h, _, hmem => by
    rw [freeUses] at hmem
    exact operator_of_mem_freeUses value h.2.2 hmem
  | .block _ statements, _, h, _, hmem => by
    rw [freeUses] at hmem
    exact operator_of_mem_freeUsesBody statements h hmem

theorem operator_of_mem_freeUsesAll : (es : List Expr) → FitAll names es →
    {declared : List String} → .operator n ∈ freeUsesAll declared es → n ∈ operatorNames
  | [], _, _, hmem => by simp [freeUsesAll] at hmem
  | e :: rest, h, _, hmem => by
    rw [freeUsesAll, List.mem_append] at hmem
    rcases hmem with hmem | hmem
    · exact operator_of_mem_freeUses e h.1 hmem
    · exact operator_of_mem_freeUsesAll rest h.2 hmem

theorem operator_of_mem_freeUsesBody : (es : List Expr) → {pos : Place} →
    FitBody names pos es → {declared : List String} →
    .operator n ∈ freeUsesBody declared es → n ∈ operatorNames
  | [], _, _, _, hmem => by simp [freeUsesBody] at hmem
  | e :: rest, _, h, declared, hmem => by
    have hsplit : .operator n ∈ e.freeUses declared ∨
        ∃ declared', .operator n ∈ freeUsesBody declared' rest := by
      cases e with
      | var loc m value =>
        rw [freeUsesBody, List.mem_append] at hmem
        exact hmem.imp id fun hrest => ⟨_, hrest⟩
      | _ =>
        rw [freeUsesBody, List.mem_append] at hmem
        · exact hmem.imp id fun hrest => ⟨_, hrest⟩
        · simp
    rcases hsplit with hmem | ⟨declared', hmem⟩
    · exact operator_of_mem_freeUses e h.1 hmem
    · exact operator_of_mem_freeUsesBody rest h.2 hmem

end

/-- Of all operators a program can name only `not`. -/
theorem eq_not_of_mem_operatorNames (hmem : n ∈ operatorNames) (hname : SourceName n) :
    n = unaryName "not" := by
  have hall : ∀ m ∈ operatorNames, SourceName m → m = unaryName "not" := by decide
  exact hall n hmem hname

end Expr

/-! ## What a checked value leaves behind -/

theorem Builtin.signature_isFunction {b : Builtin} {ty : Ty} (h : b.signature? = some ty) :
    ∃ params result, ty = .func params result := by
  cases b <;> first | contradiction | exact ⟨_, _, (Option.some.inj h).symm⟩

/-- Values of the types that the builtins have are these builtins. -/
theorem Agree.lookup_root {ρ : Scopes Value} (h : Agree Typing.rootScopes ρ) (n : String) :
    ρ.lookup n = Eval.rootScopes.lookup n := by
  by_cases hname : SourceName n
  · rcases htype : Typing.rootScopes.lookup n with _ | ty
    · have hunbound : ∀ {ρ : Scopes Value}, Agree Typing.rootScopes ρ → ρ.lookup n = none := by
        intro ρ h
        have hcontains : ρ.contains n = Typing.rootScopes.contains n := by
          rw [Scopes.contains_eq_level?, h.level?_eq hname, ← Scopes.contains_eq_level?]
        simpa [Scopes.contains, htype] using hcontains
      rw [hunbound h, hunbound .root]
    · obtain ⟨b, -, hsignature⟩ := Typing.lookup_rootScopes.1 htype
      obtain ⟨params, result, rfl⟩ := Builtin.signature_isFunction hsignature
      exact Agree.root.operator_eq h htype
  · exact Agree.root.lookup_eq h hname

/-! ## A declaration and what stands behind it -/

variable {v e : Expr} {n : String} {loc varLoc : Location} {names : String → Prop}

namespace Typing

/-- The type of a block with one declaration is found behind the declaration. -/
theorem check_declaration {Γ Δ : Scopes Ty} {U : Ty} (h : check v Γ.push = .ok U Δ) :
    check (.block loc [.var varLoc n v, e]) Γ =
      match check e (Δ.define n U) with
      | .ok ty Δ' => .ok ty Δ'.pop
      | .error err Δ' => .error err Δ'.pop := by
  simp only [check, checkStatements, inScope, within, bind, EStateM.bind, pure, EStateM.pure, h,
    define]
  cases check e (Δ.define n U) <;> rfl

/-- A value with a type has it by the rules, and its check changes nothing. -/
theorem check_rootScopes (hv : v.Fits SourceName .value) {U : Ty} (htype : typeOf v = .ok U) :
    HasType rootScopes v U ∧ check v rootScopes = .ok U rootScopes := by
  unfold typeOf at htype
  split at htype
  · rename_i hcheck
    obtain rfl := Except.ok.inj htype
    obtain ⟨hhas, rfl⟩ := hasType_of_check v hv (fun _ _ => rfl) hcheck
    exact ⟨hhas, hcheck⟩
  · contradiction

/-- A checked value has its type in a scope of its own, too, and changes nothing there. -/
theorem check_push (hv : v.Fits SourceName .value) {U : Ty} (htype : typeOf v = .ok U) :
    ∃ Δ, check v rootScopes.push = .ok U Δ ∧ ∀ m, Δ.lookup m = rootScopes.lookup m := by
  have hblind : Blind (fun _ => False) [] (SameInside _ []) (check v) :=
    (blind_check id id v hv [] fun _ _ => id).value hv
  have hpush := hblind rootScopes rootScopes.push ⟨.around fun _ _ => rfl, trivial⟩
  rw [(check_rootScopes hv htype).2] at hpush
  rcases hrun : check v rootScopes.push with ⟨U', Δ⟩ | ⟨err, Δ⟩ <;> rw [hrun] at hpush
  · obtain ⟨rfl, hsame, -⟩ := hpush
    exact ⟨Δ, rfl, fun m => hsame.lookup (.inr id)⟩
  · exact hpush.elim

/-- A declaration that nothing uses does not change a type. -/
theorem typeOf_declared (hv : v.Fits SourceName .value) (he : e.Fits names .value)
    (hkeyword : n ∉ keywords) (hfree : ∀ u ∈ e.freeUses [], u.name ≠ n) {U : Ty}
    (htype : typeOf v = .ok U) : typeOf (.block loc [.var varLoc n v, e]) = typeOf e := by
  obtain ⟨Δ, hrun, hsame⟩ := check_push hv htype
  have hword : ∀ m ∈ keywords, m ≠ n := fun m hm h => hkeyword (h ▸ hm)
  have hblind : Blind (· = n) [] (SameBehind _ [] e) (check e) :=
    blind_check (hword "and" (by decide)) (hword "or" (by decide)) e he [] hfree
  have hdefine : ∀ m, m ≠ n → (Δ.define n U).lookup m = rootScopes.lookup m := fun m hm => by
    rw [Scopes.lookup_define, if_neg (Ne.symm hm), hsame m]
  have hrest := hblind.value he rootScopes (Δ.define n U) ⟨.around hdefine, trivial⟩
  unfold typeOf
  rw [check_declaration hrun]
  rcases hroot : check e rootScopes with ⟨ty, Γ⟩ | ⟨err, Γ⟩ <;>
    rcases hbehind : check e (Δ.define n U) with ⟨ty', Δ'⟩ | ⟨err', Δ'⟩ <;>
    rw [hroot, hbehind] at hrest
  · obtain ⟨rfl, -⟩ := hrest
    rfl
  · exact hrest.elim
  · exact hrest.elim
  · obtain ⟨rfl, -⟩ := hrest
    rfl

end Typing

namespace Eval

/-- The value of a block with one declaration is found behind the declaration. -/
theorem eval_declaration {s t : State} {w : Value} (h : eval v s.push = .ok w t) :
    eval (.block loc [.var varLoc n v, e]) s =
      match eval e { t with scopes := t.scopes.define n w } with
      | .ok u t' => .ok u t'.pop
      | .error err t' => .error err t'.pop := by
  simp only [eval, evalStatements, inScope, within, bind, EStateM.bind, pure, EStateM.pure, h,
    define]
  cases eval e { t with scopes := t.scopes.define n w } <;> rfl

/-- A checked value is the same in a scope of its own, and prints the same; behind it every name
    means what it has meant. -/
theorem eval_push (hv : v.Fits SourceName .value) {U : Ty} (htype : Typing.typeOf v = .ok U)
    {w : Value} {out out₁ : Output} (hvalue : interpret v out = (.ok w, out₁)) :
    ∃ t, eval v (State.push ⟨rootScopes, out⟩) = .ok w t ∧ t.output = out₁ ∧
      ∀ m, t.scopes.lookup m = rootScopes.lookup m := by
  have hsound := leads_of_hasType (Typing.check_rootScopes hv htype).1 (sound_start out)
  unfold Leads at hsound
  unfold interpret at hvalue
  rcases hroot : eval v ⟨rootScopes, out⟩ with ⟨w', s⟩ | ⟨err, s⟩ <;> rw [hroot] at hvalue hsound
  · obtain ⟨hw, rfl⟩ := Prod.mk.inj hvalue
    obtain rfl := Except.ok.inj hw
    have hblind : Blind [] (fun _ => False) [] (SameInside _ []) (eval v) :=
      (blind_eval v hv [] fun _ _ => id).value hv
    have hpush := hblind ⟨rootScopes, out⟩ (State.push ⟨rootScopes, out⟩)
      ⟨.around fun _ _ => rfl, rfl⟩
    rw [hroot] at hpush
    rcases hrun : eval v (State.push ⟨rootScopes, out⟩) with ⟨w', t⟩ | ⟨err, t⟩ <;>
      rw [hrun] at hpush
    · obtain ⟨rfl, hsame, houtput⟩ := hpush
      refine ⟨t, rfl, houtput, fun m => ?_⟩
      exact (hsame.lookup (.inr id)).trans (hsound.2.agree.lookup_root m)
    · exact hpush.elim
  · exact absurd (Prod.mk.inj hvalue).1 (by simp)

/-- A declaration that nothing uses does not change a run; what its value has printed stands in
    front. -/
theorem interpret_declared (hv : v.Fits SourceName .value) (he : e.Fits names .value)
    (hfree : ∀ u ∈ e.freeUses [], u.name ≠ n) {U : Ty} (htype : Typing.typeOf v = .ok U)
    {w : Value} {out out₁ : Output} (hvalue : interpret v out = (.ok w, out₁)) :
    interpret (.block loc [.var varLoc n v, e]) out =
      ((interpret e (.withRoom out₁.room)).1,
        (interpret e (.withRoom out₁.room)).2.behind out₁.lines) := by
  obtain ⟨t, hrun, rfl, hsame⟩ := eval_push hv htype hvalue
  have hblind : Blind t.output.lines (· = n) [] (SameBehind _ [] e) (eval e) :=
    blind_eval e he [] hfree
  have hdefine : ∀ m, m ≠ n → (t.scopes.define n w).lookup m = rootScopes.lookup m := fun m hm => by
    rw [Scopes.lookup_define, if_neg (Ne.symm hm), hsame m]
  have houtput : t.output = (Output.withRoom t.output.room).behind t.output.lines :=
    congrArg (Output.mk · _) (List.append_nil _).symm
  have hrest := hblind.value he ⟨rootScopes, .withRoom t.output.room⟩
    { t with scopes := t.scopes.define n w } ⟨.around hdefine, houtput⟩
  unfold interpret
  rw [eval_declaration hrun]
  rcases hroot : eval e ⟨rootScopes, .withRoom t.output.room⟩ with ⟨u, s'⟩ | ⟨err, s'⟩ <;>
    rcases hbehind : eval e { t with scopes := t.scopes.define n w } with ⟨u', t'⟩ | ⟨err', t'⟩ <;>
    rw [hroot, hbehind] at hrest
  · obtain ⟨rfl, -, hprinted⟩ := hrest
    exact Prod.ext rfl hprinted
  · exact hrest.elim
  · exact hrest.elim
  · obtain ⟨rfl, hprinted⟩ := hrest
    exact Prod.ext rfl hprinted

end Eval

/-! ## Whole programs -/

/-- A declaration of a name that a program does not use is harmless: behind it the program has the
    type that it has, and runs as it does with the room for output that is left.  The name of `not`
    is used by every negation. -/
theorem unused_declaration {tokens tokens' : List Token}
    (hspelt : Grammar.Spelt (isWord · = true) tokens) (hv : Grammar.parse tokens = .ok (some v))
    (he : Grammar.parse tokens' = .ok (some e)) (hname : SourceName n)
    (hread : .read n ∉ e.freeUses []) (hwrite : .write n ∉ e.freeUses [])
    (hnot : n = Expr.unaryName "not" → .operator n ∉ e.freeUses []) (loc varLoc : Location)
    {U : Ty} (htype : Typing.typeOf v = .ok U) :
    Typing.typeOf (.block loc [.var varLoc n v, e]) = Typing.typeOf e ∧
    ∀ w out out₁, Eval.interpret v out = (.ok w, out₁) →
      Eval.interpret (.block loc [.var varLoc n v, e]) out =
        ((Eval.interpret e (.withRoom out₁.room)).1,
          (Eval.interpret e (.withRoom out₁.room)).2.behind out₁.lines) := by
  have hfitsValue := Grammar.fits_of_parse hspelt hv
  have hfits := Grammar.fits_of_parse_any he
  have hfree : ∀ u ∈ e.freeUses [], u.name ≠ n := by
    rintro u hmem rfl
    cases u with
    | read m => exact hread hmem
    | write m => exact hwrite hmem
    | operator m =>
      have hoperator := Expr.operator_of_mem_freeUses e hfits hmem
      exact hnot (Expr.eq_not_of_mem_operatorNames hoperator hname) hmem
  refine ⟨Typing.typeOf_declared hfitsValue hfits hname.2 hfree htype, fun w out out₁ hvalue => ?_⟩
  exact Eval.interpret_declared hfitsValue hfits hfree htype hvalue

/-- `a` is not used in `print_int(8)`, whatever is printed in front. -/
theorem unused_declaration_printed :
    ∃ v e, Grammar.parse [⟨.identifier, "print_int", .known ⟨1, 1⟩⟩,
        ⟨.punctuation, "(", .known ⟨1, 10⟩⟩, ⟨.integer, "7", .known ⟨1, 11⟩⟩,
        ⟨.punctuation, ")", .known ⟨1, 12⟩⟩] = .ok (some v) ∧
      Grammar.parse [⟨.identifier, "print_int", .known ⟨2, 1⟩⟩,
        ⟨.punctuation, "(", .known ⟨2, 10⟩⟩, ⟨.integer, "8", .known ⟨2, 11⟩⟩,
        ⟨.punctuation, ")", .known ⟨2, 12⟩⟩] = .ok (some e) ∧
      Typing.typeOf v = .ok .unit ∧ Eval.interpret v {} = (.ok .unit, { lines := ["7"] }) ∧
      Typing.typeOf (.block .synthetic [.var .synthetic "a" v, e]) = .ok .unit ∧
      Eval.interpret (.block .synthetic [.var .synthetic "a" v, e]) {} =
        (.ok .unit, { lines := ["7", "8"] }) := by
  have hspelt : Grammar.Spelt (isWord · = true) [⟨.identifier, "print_int", .known ⟨1, 1⟩⟩,
      ⟨.punctuation, "(", .known ⟨1, 10⟩⟩, ⟨.integer, "7", .known ⟨1, 11⟩⟩,
      ⟨.punctuation, ")", .known ⟨1, 12⟩⟩] := by
    simp [Grammar.Spelt]
    decide
  have hv : Grammar.parse [⟨.identifier, "print_int", .known ⟨1, 1⟩⟩,
      ⟨.punctuation, "(", .known ⟨1, 10⟩⟩, ⟨.integer, "7", .known ⟨1, 11⟩⟩,
      ⟨.punctuation, ")", .known ⟨1, 12⟩⟩] = .ok (some (.call (.known ⟨1, 1⟩)
        (.name (.known ⟨1, 1⟩) "print_int") [.int (.known ⟨1, 11⟩) 7])) := by
    with_unfolding_all rfl
  have he : Grammar.parse [⟨.identifier, "print_int", .known ⟨2, 1⟩⟩,
      ⟨.punctuation, "(", .known ⟨2, 10⟩⟩, ⟨.integer, "8", .known ⟨2, 11⟩⟩,
      ⟨.punctuation, ")", .known ⟨2, 12⟩⟩] = .ok (some (.call (.known ⟨2, 1⟩)
        (.name (.known ⟨2, 1⟩) "print_int") [.int (.known ⟨2, 11⟩) 8])) := by
    with_unfolding_all rfl
  have hvalue : Eval.interpret (.call (.known ⟨1, 1⟩) (.name (.known ⟨1, 1⟩) "print_int")
      [.int (.known ⟨1, 11⟩) 7]) {} = (.ok .unit, { lines := ["7"] }) := rfl
  obtain ⟨htype, hrun⟩ := unused_declaration (n := "a") hspelt hv he (by decide) (by decide)
    (by decide) (by decide) .synthetic .synthetic (U := .unit) rfl
  exact ⟨_, _, hv, he, rfl, hvalue, htype, hrun _ _ _ hvalue⟩

set_option maxRecDepth 4000 in
/-- A declaration of `unary_not` reaches the negation behind it. -/
theorem typeOf_declared_not :
    ∃ v e, readProgram "1" = .ok (some v) ∧ readProgram "not true" = .ok (some e) ∧
      SourceName "unary_not" ∧ .read "unary_not" ∉ e.freeUses [] ∧
      .write "unary_not" ∉ e.freeUses [] ∧
      Typing.typeOf v = .ok .int ∧ Eval.interpret v {} = (.ok (.int 1), {}) ∧
      Typing.typeOf e = .ok .bool ∧ Eval.interpret e {} = (.ok (.bool false), {}) ∧
      (∀ loc varLoc, Typing.typeOf (.block loc [.var varLoc "unary_not" v, e]) =
        .error (.notAFunction .int e.location)) ∧
      run "\x7b var unary_not = 1; not true \x7d" {} =
        (.error (.type (.notAFunction .int (.known ⟨1, 22⟩))), {}) := by
  have hv : readProgram "1" = .ok (some (.int (.known ⟨1, 1⟩) 1)) := by cbv
  have he : readProgram "not true" = .ok (some (.unary (.known ⟨1, 1⟩) "not"
      (.bool (.known ⟨1, 5⟩) true))) := by cbv
  have hscan : tokenize "\x7b var unary_not = 1; not true \x7d" = .ok
      [⟨.punctuation, "\x7b", .known ⟨1, 1⟩⟩, ⟨.identifier, "var", .known ⟨1, 3⟩⟩,
        ⟨.identifier, "unary_not", .known ⟨1, 7⟩⟩, ⟨.operator, "=", .known ⟨1, 17⟩⟩,
        ⟨.integer, "1", .known ⟨1, 19⟩⟩, ⟨.punctuation, ";", .known ⟨1, 20⟩⟩,
        ⟨.identifier, "not", .known ⟨1, 22⟩⟩, ⟨.boolean, "true", .known ⟨1, 26⟩⟩,
        ⟨.punctuation, "\x7d", .known ⟨1, 31⟩⟩] := by cbv
  have hparse : Grammar.parse
      [⟨.punctuation, "\x7b", .known ⟨1, 1⟩⟩, ⟨.identifier, "var", .known ⟨1, 3⟩⟩,
        ⟨.identifier, "unary_not", .known ⟨1, 7⟩⟩, ⟨.operator, "=", .known ⟨1, 17⟩⟩,
        ⟨.integer, "1", .known ⟨1, 19⟩⟩, ⟨.punctuation, ";", .known ⟨1, 20⟩⟩,
        ⟨.identifier, "not", .known ⟨1, 22⟩⟩, ⟨.boolean, "true", .known ⟨1, 26⟩⟩,
        ⟨.punctuation, "\x7d", .known ⟨1, 31⟩⟩] = .ok (some (.block (.known ⟨1, 1⟩)
          [.var (.known ⟨1, 3⟩) "unary_not" (.int (.known ⟨1, 19⟩) 1),
            .unary (.known ⟨1, 22⟩) "not" (.bool (.known ⟨1, 26⟩) true)])) := by
    with_unfolding_all rfl
  have htype : Typing.typeOf (.block (.known ⟨1, 1⟩)
      [.var (.known ⟨1, 3⟩) "unary_not" (.int (.known ⟨1, 19⟩) 1),
        .unary (.known ⟨1, 22⟩) "not" (.bool (.known ⟨1, 26⟩) true)]) =
      .error (.notAFunction .int (.known ⟨1, 22⟩)) := rfl
  refine ⟨_, _, hv, he, by decide, by decide, by decide, rfl, rfl, rfl, rfl, fun _ _ => rfl, ?_⟩
  simp only [run, checkProgram, readProgram, hscan, hparse, htype]

end ExprLang
