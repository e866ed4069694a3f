/-
  VALIDITY: what code has to be like before anything may run it.

    * no label is defined twice, and every jump goes to a label that is defined;
    * an instruction reads only reserved variables and those that an earlier one writes;
    * no instruction writes a reserved variable, and only a copy writes one that an earlier
      instruction has written.

  "Earlier" is the order of the text.  `problems` lists every violation: first the repeated
  labels, then the missing ones, then the variables, each group in the order of the code.
-/
import ExprLang.Code

namespace ExprLang

/-- A violation, with the instruction that is to blame. -/
inductive Problem where
  | repeatedLabel (i : Instr) (label : Label)
  | missingTarget (i : Instr) (target : Label)
  | readBeforeWritten (i : Instr) (v : Var)
  | overwritesReserved (i : Instr) (v : Var)
  | writtenAgain (i : Instr) (v : Var)
deriving DecidableEq

namespace Problem

/-- An instruction as problems quote it, with its place in front. -/
def quote (i : Instr) : String := i.location.text ++ ": `" ++ i.text ++ "` "

/-- The text of a problem. -/
def text : Problem → String
  | repeatedLabel i label => i.location.text ++ ": " ++ label.text ++ " is defined more than once"
  | missingTarget i target => quote i ++ "jumps to undefined " ++ target.text
  | readBeforeWritten i v => quote i ++ "reads " ++ v.name ++ " before it is written"
  | overwritesReserved i v => quote i ++ "overwrites reserved " ++ v.name
  | writtenAgain i v => quote i ++ "writes " ++ v.name ++ " which already holds a value"

end Problem

namespace Validity

/-- The labels that code defines. -/
def definedLabels (code : List Instr) : List Label := code.filterMap Instr.defines

/-- Labels that are defined again, given those defined earlier. -/
def repeatedLabels (earlier : List Label) : List Instr → List Problem
  | [] => []
  | i :: rest =>
    match i.defines with
    | some l =>
      if l ∈ earlier then .repeatedLabel i l :: repeatedLabels earlier rest
      else repeatedLabels (l :: earlier) rest
    | none => repeatedLabels earlier rest

/-- Targets of one instruction that are not among the defined labels. -/
def missingTargets (defined : List Label) (i : Instr) : List Problem :=
  (i.targets.filter (· ∉ defined)).map (.missingTarget i)

/-- Variables that one instruction reads too early. -/
def earlyReads (reserved written : List Var) (i : Instr) : List Problem :=
  (i.reads.filter fun v => v ∉ reserved ∧ v ∉ written).map (.readBeforeWritten i)

/-- What is wrong with the variable that one instruction writes. -/
def badWrite (reserved written : List Var) (i : Instr) : List Problem :=
  match i.writes with
  | some v =>
    if v ∈ reserved then [.overwritesReserved i v]
    else if v ∈ written ∧ !i.isCopy then [.writtenAgain i v]
    else []
  | none => []

/-- The variables that hold a value after one instruction. -/
def writtenAfter (reserved written : List Var) (i : Instr) : List Var :=
  match i.writes with
  | some v => if v ∈ reserved ∨ v ∈ written then written else v :: written
  | none => written

/-- What is wrong with the variables of some code, given those written earlier. -/
def variableProblems (reserved written : List Var) : List Instr → List Problem
  | [] => []
  | i :: rest =>
    earlyReads reserved written i ++ badWrite reserved written i
      ++ variableProblems reserved (writtenAfter reserved written i) rest

/-- The variables that code may read and never writes. -/
def reservedVars (reserved : List String) : List Var :=
  .unit :: reserved.map Var.mk

/-- Everything that is wrong with some code. -/
def problems (code : List Instr) (reserved : List String) : List Problem :=
  repeatedLabels [] code ++ code.flatMap (missingTargets (definedLabels code))
    ++ variableProblems (reservedVars reserved) [] code

end Validity
end ExprLang
