/-
  RENAMED PROGRAMS: other names for the variables, and nothing else changes.

  A renamed program has the type that it had, the very same code and the same run.  Where a pass
  fails, it fails on the renamed program with the same error at the same place; only the name in
  the error is the other one.
-/
import Mathlib
import ExprLang.Proofs.RelabeledPasses

namespace ExprLang

namespace Renaming

/-- Two names change places; all others stay. -/
def swap (m n : String) (hm : m ∉ reservedNames) (hn : n ∉ reservedNames) : Renaming where
  apply := Equiv.swap m n
  injective h := (Equiv.swap m n).injective h
  reserved hk := Equiv.swap_apply_of_ne_of_ne (fun h => hm (h ▸ hk)) fun h => hn (h ▸ hk)

end Renaming

namespace Instr

theorem move_id : Instr.move id = id := rfl

end Instr

/-- A parsed program under other names.  `relabel id r` keeps every location where it is. -/
theorem passes_of_renamed {tokens : List Token} {e : Expr}
    (hparse : Grammar.parse tokens = .ok (some e)) (r : Renaming) :
    Typing.typeOf (e.relabel id r) = (Typing.typeOf e).mapError (TypeError.relabel id r) ∧
    (∀ ty, Lowering.generate reservedNames (e.relabel id r) ty =
      (Lowering.generate reservedNames e ty).mapError (LoweringError.relabel id r)) ∧
    ∀ output, Eval.interpret (e.relabel id r) output =
      ((Eval.interpret e output).1.mapError (RuntimeError.relabel id r),
        (Eval.interpret e output).2) := by
  have hfits := Grammar.fits_of_parse_any hparse
  refine ⟨Typing.typeOf_relabel id r hfits, fun ty => ?_, Eval.interpret_relabel id r hfits⟩
  rw [Lowering.generate_relabel id r hfits ty, Instr.move_id, List.map_id_fun]
  cases Lowering.generate reservedNames e ty <;> rfl

/-- A block whose inner `a` hides the outer one, and a name that nothing binds. -/
theorem passes_of_renamed_swap :
    (∃ tokens e, tokenize "\x7b var a = 1; \x7b var a = 2 \x7d; a \x7d" = .ok tokens ∧
      Grammar.parse tokens = .ok (some e) ∧
      Typing.typeOf (e.relabel id (.swap "a" "b" (by decide) (by decide))) = .ok .int ∧
      Lowering.generate reservedNames (e.relabel id (.swap "a" "b" (by decide) (by decide))) .bool
        = .ok [⟨.loadInt 1 ⟨"x1"⟩, .known ⟨1, 11⟩⟩, ⟨.copy ⟨"x1"⟩ ⟨"x2"⟩, .known ⟨1, 3⟩⟩,
          ⟨.loadInt 2 ⟨"x3"⟩, .known ⟨1, 24⟩⟩, ⟨.copy ⟨"x3"⟩ ⟨"x4"⟩, .known ⟨1, 16⟩⟩,
          ⟨.call ⟨"print_bool"⟩ [⟨"x2"⟩] ⟨"x5"⟩, .known ⟨1, 1⟩⟩] ∧
      Eval.interpret (e.relabel id (.swap "a" "b" (by decide) (by decide))) {}
        = (.ok (.int 1), {})) ∧
    Typing.typeOf (Expr.relabel id (.swap "a" "b" (by decide) (by decide))
      (.name (.known ⟨1, 1⟩) "a")) = .error (.undefinedName "b" (.known ⟨1, 1⟩)) := by
  -- the three stages on the old names; the theorem says what they are on the new ones
  have hscan : tokenize "\x7b var a = 1; \x7b var a = 2 \x7d; a \x7d" = .ok
      [⟨.punctuation, "\x7b", .known ⟨1, 1⟩⟩, ⟨.identifier, "var", .known ⟨1, 3⟩⟩,
        ⟨.identifier, "a", .known ⟨1, 7⟩⟩, ⟨.operator, "=", .known ⟨1, 9⟩⟩,
        ⟨.integer, "1", .known ⟨1, 11⟩⟩, ⟨.punctuation, ";", .known ⟨1, 12⟩⟩,
        ⟨.punctuation, "\x7b", .known ⟨1, 14⟩⟩, ⟨.identifier, "var", .known ⟨1, 16⟩⟩,
        ⟨.identifier, "a", .known ⟨1, 20⟩⟩, ⟨.operator, "=", .known ⟨1, 22⟩⟩,
        ⟨.integer, "2", .known ⟨1, 24⟩⟩, ⟨.punctuation, "\x7d", .known ⟨1, 26⟩⟩,
        ⟨.punctuation, ";", .known ⟨1, 27⟩⟩, ⟨.identifier, "a", .known ⟨1, 29⟩⟩,
        ⟨.punctuation, "\x7d", .known ⟨1, 31⟩⟩] := by cbv
  have hparse : Grammar.parse
      [⟨.punctuation, "\x7b", .known ⟨1, 1⟩⟩, ⟨.identifier, "var", .known ⟨1, 3⟩⟩,
        ⟨.identifier, "a", .known ⟨1, 7⟩⟩, ⟨.operator, "=", .known ⟨1, 9⟩⟩,
        ⟨.integer, "1", .known ⟨1, 11⟩⟩, ⟨.punctuation, ";", .known ⟨1, 12⟩⟩,
        ⟨.punctuation, "\x7b", .known ⟨1, 14⟩⟩, ⟨.identifier, "var", .known ⟨1, 16⟩⟩,
        ⟨.identifier, "a", .known ⟨1, 20⟩⟩, ⟨.operator, "=", .known ⟨1, 22⟩⟩,
        ⟨.integer, "2", .known ⟨1, 24⟩⟩, ⟨.punctuation, "\x7d", .known ⟨1, 26⟩⟩,
        ⟨.punctuation, ";", .known ⟨1, 27⟩⟩, ⟨.identifier, "a", .known ⟨1, 29⟩⟩,
        ⟨.punctuation, "\x7d", .known ⟨1, 31⟩⟩] = .ok (some (.block (.known ⟨1, 1⟩)
          [.var (.known ⟨1, 3⟩) "a" (.int (.known ⟨1, 11⟩) 1),
            .block (.known ⟨1, 14⟩) [.var (.known ⟨1, 16⟩) "a" (.int (.known ⟨1, 24⟩) 2)],
            .name (.known ⟨1, 29⟩) "a"])) := by with_unfolding_all rfl
  have hgenerate : Lowering.generate reservedNames (.block (.known ⟨1, 1⟩)
      [.var (.known ⟨1, 3⟩) "a" (.int (.known ⟨1, 11⟩) 1),
        .block (.known ⟨1, 14⟩) [.var (.known ⟨1, 16⟩) "a" (.int (.known ⟨1, 24⟩) 2)],
        .name (.known ⟨1, 29⟩) "a"]) .bool
      = .ok [⟨.loadInt 1 ⟨"x1"⟩, .known ⟨1, 11⟩⟩, ⟨.copy ⟨"x1"⟩ ⟨"x2"⟩, .known ⟨1, 3⟩⟩,
        ⟨.loadInt 2 ⟨"x3"⟩, .known ⟨1, 24⟩⟩, ⟨.copy ⟨"x3"⟩ ⟨"x4"⟩, .known ⟨1, 16⟩⟩,
        ⟨.call ⟨"print_bool"⟩ [⟨"x2"⟩] ⟨"x5"⟩, .known ⟨1, 1⟩⟩] := by cbv
  have hname : Grammar.parse [⟨.identifier, "a", .known ⟨1, 1⟩⟩]
      = .ok (some (.name (.known ⟨1, 1⟩) "a")) := by cbv
  obtain ⟨htype, hcode, hrun⟩ :=
    passes_of_renamed hparse (.swap "a" "b" (by decide) (by decide))
  refine ⟨⟨_, _, hscan, hparse, htype, (hcode .bool).trans (by rw [hgenerate]; rfl), hrun {}⟩, ?_⟩
  refine (passes_of_renamed hname (.swap "a" "b" (by decide) (by decide))).1.trans ?_
  exact congrArg (fun n => Except.error (TypeError.undefinedName n _))
    (Equiv.swap_apply_left "a" "b")

end ExprLang
