/-
  COMPILED RUNS: a compiled program does what its tree does.

  Where a program starts, the store of the machine holds what the evaluator has in scope, so the
  simulation can begin.  At the end the machine has the value of the program, and if it is of a
  type that can be printed, one call is left that prints it.

  Evaluation of a checked program ends with a value or with a division by zero, as long as there
  is room for its output.  In the first case the machine runs off the end of the code, in the
  second it is stuck at the same division (`ends_of_compile`); nothing else can stop it.
-/
import ExprLang.Proofs.Simulation

namespace ExprLang

open Machine Draft Lowering Typing

/-! ## The start -/

/-- The store holds each builtin in the variable of its name. -/
theorem linked_start :
    Linked (Draft.start reservedNames).scopes Eval.rootScopes Store.start where
  depth := by
    rw [Eval.depth_rootScopes]
    exact (Scopes.depth_ofList _).symm
  held l n v hv := by
    -- there is no scope but the outermost one
    obtain rfl : l = 0 := by
      have hlevel := Scopes.le_depth_of_binding hv
      rw [Eval.depth_rootScopes] at hlevel
      omega
    obtain ⟨b, rfl, rfl⟩ := Eval.binding_rootScopes.1 hv
    refine ⟨⟨b.name⟩, binding_start.2 ⟨rfl, name_mem_reservedNames b, rfl⟩, ?_⟩
    have hne : (⟨b.name⟩ : Var) ≠ .unit := fun heq => name_ne_unitName b (Var.mk.inj heq)
    rw [Store.start, if_neg hne, Builtin.named?_name]
    rfl
  named l n x hx hl := by
    obtain ⟨rfl, -, -⟩ := binding_start.1 hx
    contradiction
  unit := rfl

/-- A program can be started on both sides. -/
theorem mirror_start (code : List Instr) :
    Mirror code {} (.start reservedNames) ⟨Eval.rootScopes, {}⟩ Store.start where
  steps := .refl
  linked := linked_start

/-! ## The end -/

/-- The line in which a program shows its value, if its type can be printed. -/
def Ty.shown (ty : Ty) (v : Value) : List String :=
  match ty with
  | .int => [v.text]
  | .bool => [v.text]
  | _ => []

/-- Without a limit every line is accepted. -/
theorem Output.print?_of_unlimited {out : Output} (h : out.room.isSome = false) (line : String) :
    out.print? line = some { out with lines := out.lines ++ [line] } := by
  rw [Option.isSome_eq_false_iff, Option.isNone_iff_eq_none] at h
  rw [print?, h]

/-- The printer of a type is a builtin within reach, and shows the values of the type. -/
theorem printer_apply {ty : Ty} {name : String} (hprinter : printer? ty = some name) :
    ∃ b : Builtin, b.name = name ∧ b.InReach ∧ b.signature? = some (.func [ty] .unit) ∧
      ∀ (v : Value) (out : Output), v.OfType ty → out.room.isSome = false →
        b.apply [v] out = .ok (.unit, { out with lines := out.lines ++ ty.shown v }) := by
  cases ty with
  | int =>
    obtain rfl := Option.some.inj hprinter
    refine ⟨.printInt, rfl, .inr (.inl rfl), rfl, fun v out hv hroom => ?_⟩
    obtain ⟨n, rfl⟩ := hv.int_inv
    simp only [Builtin.apply, Builtin.lineOf?, Output.print?_of_unlimited hroom]
    rfl
  | bool =>
    obtain rfl := Option.some.inj hprinter
    refine ⟨.printBool, rfl, .inr (.inr rfl), rfl, fun v out hv hroom => ?_⟩
    obtain ⟨p, rfl⟩ := hv.bool_inv
    simp only [Builtin.apply, Builtin.lineOf?, Output.print?_of_unlimited hroom]
    rfl
  | unit => contradiction
  | func => contradiction

/-- A value that has no printer is not shown. -/
theorem shown_of_silent {ty : Ty} (hprinter : printer? ty = none) (v : Value) :
    ty.shown v = [] := by
  cases ty with
  | int | bool => contradiction
  | unit | func => rfl

/-- At the end of the code the machine is finished. -/
theorem ends_behind {d : Draft} {σ : Store} {out : Output}
    (hsteps : Steps d.code.toList {} (d.behind σ out)) :
    Ends d.code.toList {} (.finished (d.behind σ out)) := by
  refine ends_of_finished hsteps (List.getElem?_eq_none_iff.2 ?_)
  exact Nat.le_refl _

/-! ## From start to end -/

/-- The code of a program begins with the code of its tree. -/
theorem lowers_of_lowersProgram {tree : Expr} {ty : Ty} {d d' : Draft}
    (h : LowersProgram tree ty d d') : ∃ x d₁, Lowers tree d x d₁ ∧ d₁.Extends d' := by
  cases h with
  | silent _ hlowers => exact ⟨_, _, hlowers, .refl _⟩
  | prints _ hlowers _ => exact ⟨_, _, hlowers, extends_emitNew _ _ _⟩

/-- Once the machine has the value of a program it comes to the end, and shows the value. -/
theorem finished_of_gives {tree : Expr} {ty : Ty} {d d' : Draft} {x : Var} {v : Value}
    {s : Eval.State} (hprogram : LowersProgram tree ty (.start reservedNames) d)
    (htype : HasType rootScopes tree ty) (hpart : Part d.code.toList d)
    (hlowers : Lowers tree (.start reservedNames) x d')
    (hgives : Gives d.code.toList {} (.start reservedNames) d' x (assigns tree) Store.start v s)
    (hv : v.OfType ty) (hs : s.Sound rootScopes false) :
    ∃ t, Ends d.code.toList {} (.finished t) ∧
      t.output.lines = s.output.lines ++ ty.shown v := by
  obtain ⟨σ, hm, hx, hspares⟩ := hgives
  cases hprogram with
  | silent hprinter hlowers' =>
    obtain ⟨rfl, rfl⟩ := hlowers.deterministic hlowers'
    refine ⟨_, ends_behind hm.steps, ?_⟩
    rw [shown_of_silent hprinter, List.append_nil]
    rfl
  | @prints name callee _ _ hprinter hlowers' hcallee =>
    obtain ⟨rfl, rfl⟩ := hlowers.deterministic hlowers'
    obtain ⟨h, hext, -, -⟩ := ready_start.lowers htype hlowers
    obtain ⟨b, rfl, hreach, hsignature, hprints⟩ := printer_apply hprinter
    -- whatever the program has assigned, its printer is still what it was
    obtain ⟨w, hlookup, hw⟩ := hs.agree.lookup ((sourceName_name_iff b).2 hreach)
      (lookup_rootScopes.2 ⟨b, rfl, hsignature⟩)
    obtain ⟨b', rfl, hreach', hsignature'⟩ := hw.func_inv
    obtain rfl := Builtin.eq_of_signature hreach' hreach hsignature' hsignature
    have hprinted := hprints v s.output hv hs.room
    have hcall : step ((d'.emitNew (.call callee [x]) tree.location).code.toList)
        (.call callee [x] d'.next) (d'.behind σ s.output) = _ :=
      step_call (hm.linked.lookup hcallee hlookup) (.cons hx .nil)
    rw [hprinted] at hcall
    obtain ⟨σ', hm', -, -⟩ := hm.gives_emitNew h.tidy hpart hcall hspares hext
    exact ⟨_, ends_behind hm'.steps, rfl⟩

/-- A compiled program ends as its tree does: with its value, which is shown behind everything
    that it has printed, or with a division by zero at the same place. -/
theorem ends_of_compile {source : String} {c : Compiled} {tree : Expr}
    (hcompile : compile source = .ok c) (htree : c.tree = some tree) :
    match Eval.interpret tree {} with
    | (.ok v, printed) => ∃ t, Ends c.code {} (.finished t) ∧
        t.output.lines = printed.lines ++ c.ty.shown v
    | (.error e, printed) => ∃ loc callee xs y t, e = .fault .divisionByZero loc ∧
        Ends c.code {} (.trapped (.fault .divisionByZero) ⟨.call callee xs y, loc⟩ t) ∧
        t.output.lines = printed.lines := by
  obtain ⟨hread, htypeOf, d, hprogram, hclean, hcode⟩ := lowersProgram_of_compile hcompile htree
  have htype := hasType_of_typeOf hread htypeOf
  have hpart : Part d.code.toList d :=
    ⟨List.prefix_refl _, hclean, (shaped_of_lowersProgram hprogram).labels⟩
  obtain ⟨x, d', hlowers, hext⟩ := lowers_of_lowersProgram hprogram
  have hs := Eval.sound_start {}
  have hlead := (leads_of_lowers htype hlowers (hpart.earlier hext) ready_start hs
    (mirror_start d.code.toList)).and (Eval.leads_of_hasType htype hs)
  rw [hcode]
  unfold Leads at hlead
  unfold Eval.interpret
  rcases heval : Eval.eval tree ⟨Eval.rootScopes, {}⟩ with ⟨v, s⟩ | ⟨e, s⟩ <;>
    rw [heval] at hlead
  · obtain ⟨hgives, hv, hs'⟩ := hlead
    exact finished_of_gives hprogram htype hpart hlowers hgives hv hs'
  · obtain ⟨⟨cause, loc, callee, xs, y, t, rfl, hsteps, hstuck, hout⟩, _, _, heq, hcause⟩ := hlead
    obtain ⟨rfl, rfl⟩ := RuntimeError.fault.inj heq
    -- the output has no limit, so only the division is left
    obtain rfl : cause = .divisionByZero := by
      rcases hcause with hzero | ⟨-, hlimited⟩
      · exact hzero
      · contradiction
    exact ⟨loc, callee, xs, y, t, rfl, ends_of_stuck hsteps hstuck, congrArg Output.lines hout⟩

/-- A quotient is shown, and a division by zero stops the machine at the division. -/
theorem ends_of_compile_quotients :
    (∃ c t, compile "7 / 2" = .ok c ∧ Ends c.code {} (.finished t) ∧ t.output.lines = ["3"]) ∧
      ∃ c callee xs y t, compile "7 / 0" = .ok c ∧
        Ends c.code {} (.trapped (.fault .divisionByZero) ⟨.call callee xs y, .known ⟨1, 3⟩⟩ t) ∧
        t.output.lines = [] := by
  refine ⟨?_, ?_⟩
  · have hvalue : Eval.interpret (.binary (.known ⟨1, 3⟩) "/" (.int (.known ⟨1, 1⟩) 7)
        (.int (.known ⟨1, 5⟩) 2)) {} = (.ok (.int 3), {}) := by cbv
    have hshown : Ty.int.shown (.int 3) = ["3"] := by cbv
    have hcompile : compile "7 / 2" = .ok ⟨some (.binary (.known ⟨1, 3⟩) "/"
        (.int (.known ⟨1, 1⟩) 7) (.int (.known ⟨1, 5⟩) 2)), .int,
        [⟨.loadInt 7 ⟨"x1"⟩, .known ⟨1, 1⟩⟩, ⟨.loadInt 2 ⟨"x2"⟩, .known ⟨1, 5⟩⟩,
          ⟨.call ⟨"/"⟩ [⟨"x1"⟩, ⟨"x2"⟩] ⟨"x3"⟩, .known ⟨1, 3⟩⟩,
          ⟨.call ⟨"print_int"⟩ [⟨"x3"⟩] ⟨"x4"⟩, .known ⟨1, 3⟩⟩], reservedNames⟩ := by cbv
    have hends := ends_of_compile hcompile rfl
    rw [hvalue] at hends
    obtain ⟨t, hends, hlines⟩ := hends
    exact ⟨_, t, hcompile, hends, hlines.trans hshown⟩
  · have hfault : Eval.interpret (.binary (.known ⟨1, 3⟩) "/" (.int (.known ⟨1, 1⟩) 7)
        (.int (.known ⟨1, 5⟩) 0)) {} = (.error (.fault .divisionByZero (.known ⟨1, 3⟩)), {}) := by
      cbv
    have hcompile : compile "7 / 0" = .ok ⟨some (.binary (.known ⟨1, 3⟩) "/"
        (.int (.known ⟨1, 1⟩) 7) (.int (.known ⟨1, 5⟩) 0)), .int,
        [⟨.loadInt 7 ⟨"x1"⟩, .known ⟨1, 1⟩⟩, ⟨.loadInt 0 ⟨"x2"⟩, .known ⟨1, 5⟩⟩,
          ⟨.call ⟨"/"⟩ [⟨"x1"⟩, ⟨"x2"⟩] ⟨"x3"⟩, .known ⟨1, 3⟩⟩,
          ⟨.call ⟨"print_int"⟩ [⟨"x3"⟩] ⟨"x4"⟩, .known ⟨1, 3⟩⟩], reservedNames⟩ := by cbv
    have hends := ends_of_compile hcompile rfl
    rw [hfault] at hends
    obtain ⟨loc, callee, xs, y, t, heq, hends, hlines⟩ := hends
    obtain ⟨-, rfl⟩ := RuntimeError.fault.inj heq
    exact ⟨_, callee, xs, y, t, hcompile, hends, hlines⟩

end ExprLang
