/-
  TYPE TEXTS: different types have different texts.

  The result of a function type is written without parentheses, and the parameters of one may
  be function types themselves, with commas of their own.  Still a type is told from whatever
  stands behind it (`Ty.toldApart_chars`): its first character says of which form it is, the
  parameters end at a closing parenthesis that none of them begins with, and the result ends
  where the whole does.

  The checker complains of two types only after it has compared them (`Typing.complains_check`),
  so the two that a message shows never look alike.
-/
import ExprLang.Proofs.Delimiting
import ExprLang.Proofs.Effects
import ExprLang.Typing

namespace ExprLang

open Delimiting

/-! ## The texts of types -/

namespace Ty

/-- The characters of the text of a type. -/
def chars (a : Ty) : List Char := a.text.toList

/-- The texts of parameters are joined by a comma and a space. -/
theorem toList_textAll (params : List Ty) : (textAll params).toList = listed chars params := by
  induction params with
  | nil => rfl
  | cons p ps ih =>
    cases ps with
    | nil => simp [textAll, listed, following, chars]
    | cons q ps =>
      rw [listed_cons_cons, ← ih]
      simp [textAll, chars]

/-- A function type opens a parenthesis, and its arrow stands behind the closing one. -/
theorem chars_func (params : List Ty) (result : Ty) : chars (.func params result) =
    '(' :: (listed chars params ++ ')' :: ' ' :: '=' :: '>' :: ' ' :: chars result) := by
  simp [chars, text, toList_textAll]

/-- No type begins like the end of a list of parameters. -/
theorem beginsOtherThan_chars (a : Ty) : BeginsOtherThan ')' (chars a) := by
  cases a with
  | func params result => exact ⟨_, _, chars_func params result, by decide⟩
  | _ => exact ⟨_, _, rfl, by decide⟩

mutual

/-- A text that begins with a type says which it is, and where it ends. -/
theorem toldApart_chars : (a : Ty) → ∀ b, ToldApart chars a b
  | .int => by
    intro b r s _ _ h
    cases b <;> simp_all [chars, text]
  | .bool => by
    intro b r s _ _ h
    cases b <;> simp_all [chars, text]
  | .unit => by
    intro b r s _ _ h
    cases b <;> simp_all [chars, text]
  | .func params result => by
    intro b r s hr hs h
    cases b with
    | func params' result' =>
      simp only [chars_func, List.cons_append, List.append_assoc, List.cons.injEq, true_and] at h
      -- the parameters end alike, and what is left begins with the results
      obtain ⟨rfl, hrest⟩ := listed_eq (by decide) (by decide)
        (fun p hp q _ => toldApart_chars_of_mem params p hp q)
        (fun p _ => beginsOtherThan_chars p) (fun q _ => beginsOtherThan_chars q) h
      simp only [List.cons.injEq, true_and] at hrest
      obtain ⟨rfl, hbehind⟩ := toldApart_chars result result' hr hs hrest
      exact ⟨rfl, hbehind⟩
    | _ => simp_all [chars, text]

/-- The induction hypothesis for a list of parameters. -/
theorem toldApart_chars_of_mem : (as : List Ty) → ∀ a ∈ as, ∀ b, ToldApart chars a b
  | [], _, ha => by contradiction
  | first :: rest, a, ha => by
    rcases List.mem_cons.1 ha with hfirst | hrest
    · exact hfirst ▸ toldApart_chars first
    · exact toldApart_chars_of_mem rest a hrest

end

/-- At the end of a text nothing follows, so two types with one text are the same. -/
theorem text_injective {a b : Ty} (h : a.text = b.text) : a = b :=
  (toldApart_chars a b stops_nil stops_nil (by simp [chars, h])).1

end Ty

/-! ## The types that a message compares -/

/-- The two types that an error shows: the expected one and the one found. -/
def TypeError.compared? : TypeError → Option (Ty × Ty)
  | .mismatch _ expected found _ => some (expected, found)
  | .unequalOperands _ left right _ => some (left, right)
  | .branchMismatch thenType elseType _ => some (thenType, elseType)
  | _ => none

/-- If it shows two types, they differ. -/
def TypeError.Differs (e : TypeError) : Prop := ∀ a b, e.compared? = some (a, b) → a ≠ b

namespace Typing

variable {α β : Type}

/-- Whatever the scopes, the errors of a step show types that differ. -/
def Complains (act : Check α) : Prop :=
  ∀ Γ, Leads act Γ (fun _ _ => True) fun e _ => e.Differs

/-- A step that succeeds does not complain. -/
theorem complains_pure (a : α) : Complains (pure a) := fun _ => trivial

/-- A complaint is in order when the types that it compares differ. -/
theorem complains_throw {e : TypeError} (h : e.Differs) : Complains (throw e : Check α) :=
  fun _ => h

/-- A sequence complains where one of its parts does. -/
theorem Complains.bind {act : Check β} {k : β → Check α} (h : Complains act)
    (hk : ∀ b, Complains (k b)) : Complains (act >>= k) :=
  fun Γ => (h Γ).bind fun b Γ' _ => hk b Γ'

/-- A scope of its own adds no complaint. -/
theorem Complains.inScope {act : Check α} (h : Complains act) : Complains (inScope act) :=
  fun Γ => leads_within.2 (h Γ.push)

/-- An unknown name is no comparison of types. -/
theorem complains_lookup (n : String) (loc : Location) : Complains (lookup n loc) := by
  intro Γ
  unfold Leads lookup
  cases Γ.lookup n with
  | none => nofun
  | some ty => trivial

/-- A declaration is accepted. -/
theorem complains_define (n : String) (ty : Ty) : Complains (define n ty) := fun _ => trivial

/-- A type that was expected is compared with the one that was found, and both are shown only if
    they differ. -/
theorem complains_expect (role : Role) (expected found : Ty) (loc : Location) :
    Complains (expect role expected found loc) := by
  unfold expect
  split
  · exact complains_pure ()
  · rename_i hne
    exact complains_throw (by rintro _ _ ⟨⟩; exact hne)

/-- An operator without a function type is not compared with anything. -/
theorem complains_operatorType (op : String) (loc : Location) :
    Complains (operatorType op loc) :=
  (complains_lookup op loc).bind fun
    | .func _ _ => complains_pure _
    | .int | .bool | .unit => complains_throw nofun

mutual

/-- One case for each form of expression; what is compared there are the types of its parts. -/
theorem complains_check : (e : Expr) → Complains (check e)
  | .int _ _ | .bool _ _ | .unit _ => complains_pure _
  | .name loc n => complains_lookup n loc
  | .unary loc op operand => by
    rw [check]
    refine (complains_check operand).bind fun found => (complains_operatorType _ loc).bind ?_
    rintro ⟨params, result⟩
    match params with
    | [param] => exact (complains_expect _ param found _).bind fun _ => complains_pure _
    | [] | _ :: _ :: _ => exact complains_throw nofun
  | .binary loc op left right => by
    simp only [check]
    split
    · split
      · exact (complains_lookup _ _).bind fun _ => (complains_check right).bind fun _ =>
          (complains_expect _ _ _ _).bind fun _ => complains_pure _
      · exact complains_throw nofun
    · refine (complains_check left).bind fun leftType => (complains_check right).bind
        fun rightType => ?_
      split
      · split
        · exact complains_pure _
        -- two types are compared here without an expectation, and found different
        · rename_i hne
          exact complains_throw (by rintro _ _ ⟨⟩; exact hne)
      · refine (complains_operatorType op loc).bind ?_
        rintro ⟨params, result⟩
        match params with
        | [_, _] =>
          exact (complains_expect _ _ _ _).bind fun _ => (complains_expect _ _ _ _).bind fun _ =>
            complains_pure _
        | [] | [_] | _ :: _ :: _ :: _ => exact complains_throw nofun
  | .ifThen _ condition thenBranch => by
    rw [check]
    exact (complains_check condition).bind fun _ => (complains_expect _ _ _ _).bind fun _ =>
      (complains_check thenBranch).bind fun _ => (complains_expect _ _ _ _).bind fun _ =>
      complains_pure _
  | .ifElse _ condition thenBranch elseBranch => by
    rw [check]
    refine (complains_check condition).bind fun _ => (complains_expect _ _ _ _).bind fun _ =>
      (complains_check thenBranch).bind fun _ => (complains_check elseBranch).bind fun _ => ?_
    split
    · exact complains_pure _
    · rename_i hne
      exact complains_throw (by rintro _ _ ⟨⟩; exact hne)
  | .call _ function arguments => by
    rw [check]
    refine (complains_check function).bind fun
      | .func params _ => ?_
      | .int | .bool | .unit => complains_throw nofun
    dsimp only
    split
    · exact (complains_checkArguments _ _ params arguments).bind fun _ => complains_pure _
    · exact complains_throw nofun
  | .var _ n value => by
    rw [check]
    exact (complains_check value).bind fun ty => (complains_define n ty).bind fun _ =>
      complains_pure _
  | .block _ statements => by
    rw [check]
    exact (complains_checkStatements .unit statements).inScope

/-- Arguments are compared with their parameters one by one. -/
theorem complains_checkArguments (function : String) (number : Nat) :
    (params : List Ty) → (arguments : List Expr) →
      Complains (checkArguments function number params arguments)
  | [], _ | _ :: _, [] => by
    rw [checkArguments]
    · exact complains_pure ()
    · nofun
  | _ :: params, argument :: arguments => by
    rw [checkArguments]
    exact (complains_check argument).bind fun _ => (complains_expect _ _ _ _).bind fun _ =>
      complains_checkArguments function (number + 1) params arguments

/-- Statements are checked one by one. -/
theorem complains_checkStatements (last : Ty) :
    (statements : List Expr) → Complains (checkStatements last statements)
  | [] => complains_pure last
  | statement :: rest => by
    rw [checkStatements]
    exact (complains_check statement).bind fun ty => complains_checkStatements ty rest

end

end Typing

/-- Type texts are unambiguous.  Types with the same text are the same type, however function
    types are nested in them; and the two types that an error of the checker shows, the expected one
    and the one found, have different texts. -/
theorem type_texts_unambiguous :
    (∀ a b : Ty, a.text = b.text ↔ a = b) ∧
    ∀ (e : Expr) (Γ Γ' : Scopes Ty) (err : TypeError), Typing.check e Γ = .error err Γ' →
      ∀ expected found, err.compared? = some (expected, found) → expected.text ≠ found.text := by
  refine ⟨fun a b => ⟨Ty.text_injective, congrArg Ty.text⟩, ?_⟩
  intro e Γ Γ' err herr expected found hcompared htext
  have hdiffers := Typing.complains_check e Γ
  rw [Leads, herr] at hdiffers
  exact hdiffers expected found hcompared (Ty.text_injective htext)

/-- `print_int == print_bool` compares two functions that differ in a parameter only. -/
theorem type_texts_unambiguous_printers :
    ∃ Γ, Typing.check
        (.binary (.of 1 11) "==" (.name (.of 1 1) "print_int") (.name (.of 1 14) "print_bool"))
        Typing.rootScopes
      = .error (.unequalOperands "==" (.func [.int] .unit) (.func [.bool] .unit) (.of 1 11)) Γ ∧
    (Ty.func [.int] .unit).text ≠ (Ty.func [.bool] .unit).text :=
  have hcheck : Typing.check
      (.binary (.of 1 11) "==" (.name (.of 1 1) "print_int") (.name (.of 1 14) "print_bool"))
      Typing.rootScopes
      = .error (.unequalOperands "==" (.func [.int] .unit) (.func [.bool] .unit) (.of 1 11))
        Typing.rootScopes := by
    with_unfolding_all rfl
  ⟨_, hcheck, type_texts_unambiguous.2 _ _ _ _ hcheck _ _ rfl⟩

end ExprLang
