/-
  PARENTHESES: a program with parentheses around it.

  Reading an expression takes a number of levels, its depth.  With fewer levels there is a
  complaint about nesting, and with more nothing changes; nor does it matter what follows, as long
  as the expression ends there.  `exists_depth` finds the depth as the least number of levels that
  is enough, and what it says is `ReadsFrom`.

  A pair of parentheses adds one level to the depth and nothing to the tree.  So a program may be
  put in parentheses until the levels are used up, and not once more.
-/
import Mathlib.Data.Nat.Find
import ExprLang.Proofs.ParsedTrees
import ExprLang.Proofs.PrintedOperands
import ExprLang.Proofs.ReadAhead

namespace ExprLang.Grammar

open ExprLang.Parser

variable {ts rest : List Token} {last : Location} {e : Expr} {n depth : Nat}

/-! ## Depth -/

/-- Tokens are read as an expression from this depth on, wherever it may end. -/
def ReadsFrom (ts : List Token) (e : Expr) (depth : Nat) : Prop :=
  ∀ n last rest, Ends (current last rest) →
    Reads (depth ≤ n) (· = e) ((nested n).expression.run last (ts ++ rest)) fun e' => .ok (e', rest)

/-- Tokens that are read to their end are read with more levels too, and in front of others. -/
theorem run_further (h : (nested n).expression.run last ts = .ok (e, [])) (k : Nat)
    {last' : Location} (hends : Ends (current last' rest)) :
    (nested (n + k)).expression.run last' (ts ++ rest) = .ok (e, rest) := by
  obtain ⟨used, rfl, hagain⟩ := (repeats_more n k).expression _ _ _ _ h
  rw [List.append_nil]
  exact (hagain last' rest (.inr ⟨ends_endAt last, hends⟩)).resolve_right fun hdeep => hdeep.1

/-- Tokens that are read in front of others are read on their own. -/
theorem run_alone (h : (nested n).expression.run last (ts ++ rest) = .ok (e, rest))
    (hends : Ends (current last rest)) (last' : Location) :
    (nested n).expression.run last' ts = .ok (e, []) := by
  obtain ⟨used, hused, hagain⟩ := (repeats_more n 0).expression _ _ _ _ h
  obtain rfl : ts = used := List.append_cancel_right hused
  have hok := (hagain last' [] (.inr ⟨hends, ends_endAt last'⟩)).resolve_right fun hdeep => hdeep.1
  rwa [List.append_nil] at hok

/-- What is read at all is read from some depth on, and at none above it. -/
theorem exists_depth (h : (nested n).expression.run last ts = .ok (e, [])) :
    ∃ depth, 1 ≤ depth ∧ depth ≤ n ∧ ReadsFrom ts e depth := by
  classical
  have hfits : ∃ m, (nested m).expression.run last ts = .ok (e, []) := ⟨n, h⟩
  have hfind : (nested (Nat.find hfits)).expression.run last ts = .ok (e, []) := Nat.find_spec hfits
  refine ⟨Nat.find hfits, ?_, Nat.find_min' hfits h, fun m last' rest hends => ⟨?_, ?_⟩⟩
  · rcases hzero : Nat.find hfits with _ | depth
    · rw [hzero] at hfind
      contradiction
    · omega
  · intro hdepth
    obtain ⟨k, rfl⟩ := Nat.exists_eq_add_of_le hdepth
    exact ⟨e, rfl, run_further hfind k hends⟩
  · intro hdepth
    obtain ⟨used, hused, hagain⟩ := (repeats_any _ m).expression _ _ _ _ hfind
    rw [List.append_nil] at hused
    subst hused
    rcases hagain last' rest (.inr ⟨ends_endAt last, hends⟩) with hok | ⟨-, hdeep⟩
    -- if it succeeded, so few levels would have been enough in the first place
    · exact absurd (run_alone hok hends last) (Nat.find_min hfits (Nat.lt_of_not_le hdepth))
    · exact hdeep

/-! ## Parentheses -/

/-- A pair of parentheses takes one level. -/
theorem ReadsFrom.enclosed (h : ReadsFrom ts e depth) {opening closing : Token}
    (hopening : (Word.text "(").Writes opening) (hclosing : (Word.text ")").Writes closing) :
    ReadsFrom (opening :: (ts ++ [closing])) e (depth + 1) := by
  intro n last rest hends
  cases n with
  | zero => exact reads_tooDeep (by omega)
  | succ n =>
    have hclosed : Ends (current last (closing :: rest)) :=
      ⟨stops_of_writes hclosing (by decide), by rw [current, hclosing.is_eq]; decide⟩
    have hoperand := reads_in_parentheses hopening hclosing (h n last (closing :: rest) hclosed)
    rw [List.cons_append, List.append_assoc, List.singleton_append]
    exact (reads_assignment_of_unary hoperand hends.toStops).congr (by omega)

/-- So many pairs take so many levels. -/
theorem ReadsFrom.wrapped (h : ReadsFrom ts e depth) {opens closes : List Token}
    (hopens : Written (List.replicate n (.text "(")) opens)
    (hcloses : Written (List.replicate n (.text ")")) closes) :
    ReadsFrom (opens ++ ts ++ closes) e (n + depth) := by
  induction n generalizing opens closes with
  | zero =>
    cases hopens
    cases hcloses
    simpa using h
  | succ n ih =>
    rw [List.replicate_succ] at hopens
    rw [List.replicate_succ'] at hcloses
    obtain ⟨opening, opens, rfl, hopening, hopens⟩ := written_cons hopens
    obtain ⟨closes, outermost, rfl, hinner, hcloses⟩ := written_append hcloses
    obtain ⟨closing, rfl, hclosing⟩ := written_singleton hcloses
    have hpair := (ih hopens hinner).enclosed hopening hclosing
    rw [Nat.add_right_comm]
    simpa only [List.cons_append, List.append_assoc] using hpair

/-! ## Whole programs -/

/-- A program does not start with a declaration. -/
theorem begins_of_parse (hparse : parse ts = .ok (some e)) :
    ∃ first others, ts = first :: others ∧ first.is "var" = false := by
  cases ts with
  | nil => simp [parse] at hparse
  | cons first others =>
    refine ⟨first, others, rfl, ?_⟩
    rcases hvar : first.is "var" with _ | _
    · rfl
    · rw [parse, hvar, if_pos rfl] at hparse
      contradiction

/-- The end marker is none of the tokens, so a program is read to its end. -/
theorem run_to_end (hreal : ∀ t ∈ ts, t.kind ≠ .endOfInput) (hparse : parse ts = .ok (some e)) :
    (nested maxDepth).expression.run (endLocation ts) ts = .ok (e, []) := by
  obtain ⟨rest, hrun, hend⟩ := run_of_parse hparse
  obtain ⟨used, hused, -⟩ := (repeats_more _ 0).expression _ _ _ _ hrun
  cases rest with
  | nil => exact hrun
  | cons t rest =>
    refine absurd hend (hreal t ?_)
    rw [hused]
    exact List.mem_append_right _ List.mem_cons_self

/-- What starts like an expression is parsed as one. -/
theorem parse_of_readsFrom (h : ReadsFrom ts e depth) {first : Token} {others : List Token}
    (hts : ts = first :: others) (hvar : first.is "var" = false) :
    (depth ≤ maxDepth → parse ts = .ok (some e)) ∧
    (maxDepth < depth → ∃ loc, parse ts = .error (.tooDeep loc)) := by
  have hread := h maxDepth (endLocation ts) [] (ends_endAt _)
  rw [List.append_nil] at hread
  subst hts
  constructor
  · intro hdepth
    obtain ⟨e', rfl, hok⟩ := hread.1 hdepth
    rw [parse, hvar, if_neg Bool.false_ne_true, hok]
    rfl
  · intro hdepth
    obtain ⟨loc, hdeep⟩ := hread.2 (by omega)
    refine ⟨loc, ?_⟩
    rw [parse, hvar, if_neg Bool.false_ne_true, hdeep]

/-- Every program has a depth.  Parentheses around the whole of it leave the tree as it is, with
    its locations, as long as their number and the depth stay within the bound; one pair more, and
    it is nested too deeply. -/
theorem parse_wrapped (hreal : ∀ t ∈ ts, t.kind ≠ .endOfInput) (hparse : parse ts = .ok (some e)) :
    ∃ depth, 1 ≤ depth ∧ depth ≤ maxDepth ∧
      ∀ n opens closes, Written (List.replicate n (.text "(")) opens →
        Written (List.replicate n (.text ")")) closes →
        (n + depth ≤ maxDepth → parse (opens ++ ts ++ closes) = .ok (some e)) ∧
        (maxDepth < n + depth → ∃ loc, parse (opens ++ ts ++ closes) = .error (.tooDeep loc)) := by
  obtain ⟨depth, hpositive, hbound, hread⟩ := exists_depth (run_to_end hreal hparse)
  refine ⟨depth, hpositive, hbound, fun n opens closes hopens hcloses => ?_⟩
  have hwrapped := hread.wrapped hopens hcloses
  cases n with
  | zero =>
    obtain ⟨first, others, rfl, hvar⟩ := begins_of_parse hparse
    cases hopens
    exact parse_of_readsFrom hwrapped rfl hvar
  | succ n =>
    rw [List.replicate_succ] at hopens
    obtain ⟨opening, opens, rfl, hopening, -⟩ := written_cons hopens
    exact parse_of_readsFrom hwrapped rfl (by rw [hopening.is_eq]; decide)

/-- A negated name. -/
theorem parse_wrapped_negation :
    parse [⟨.identifier, "not", .of 1 1⟩, ⟨.identifier, "a", .of 1 5⟩] =
      .ok (some (.unary (.of 1 1) "not" (.name (.of 1 5) "a"))) ∧
    ∃ depth, 1 ≤ depth ∧ depth ≤ maxDepth ∧
      ∀ n opens closes, Written (List.replicate n (.text "(")) opens →
        Written (List.replicate n (.text ")")) closes →
        (n + depth ≤ maxDepth → parse (opens ++
            [⟨.identifier, "not", .of 1 1⟩, ⟨.identifier, "a", .of 1 5⟩] ++ closes) =
          .ok (some (.unary (.of 1 1) "not" (.name (.of 1 5) "a")))) ∧
        (maxDepth < n + depth → ∃ loc, parse (opens ++
            [⟨.identifier, "not", .of 1 1⟩, ⟨.identifier, "a", .of 1 5⟩] ++ closes) =
          .error (.tooDeep loc)) := by
  have hparse : parse [⟨.identifier, "not", .of 1 1⟩, ⟨.identifier, "a", .of 1 5⟩] =
      .ok (some (.unary (.of 1 1) "not" (.name (.of 1 5) "a"))) := by with_unfolding_all rfl
  exact ⟨hparse, parse_wrapped (by decide) hparse⟩

end ExprLang.Grammar
