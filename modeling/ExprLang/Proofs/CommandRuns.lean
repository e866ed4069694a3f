/-
  COMMAND RUNS: what the program does with its arguments and with the files of a directory.

  However files are read, a run of the program ends in one of two ways.  It has done what the
  arguments ask for, then its code is 0 and the error stream is empty; or it has said on the error
  stream why it has not, and its code is 1 (`execute_done_or_failed`).

  In a directory the file of a request is found by a walk.  A walk that goes down, over nothing but
  names, comes to a file exactly when the file is stored under these names and none is stored on
  the way (`Directory.walk_eq_file_iff`, by induction on the names that are left).  Any walk, with
  steps up and around, ends at a stored file or in one of the four errors that a directory knows
  (`Directory.read_stored`).
-/
import Mathlib
import ExprLang.CommandLine.Directory

namespace ExprLang.CommandLine

/-! ## Arguments -/

/-- What is asked for: one file, and around it `--run` as often as one likes. -/
theorem ofArgs?_eq_some_iff {args : List String} {file : String} {run : Bool} :
    Request.ofArgs? args = some ⟨file, run⟩ ↔
      file ≠ "--run" ∧ ∃ before after,
        args = List.replicate before "--run" ++ file :: List.replicate after "--run" ∧
        run = decide (0 < before + after) := by
  have hrun : ∀ {before after : Nat}, file ≠ "--run" →
      (List.replicate before "--run" ++ file :: List.replicate after "--run").contains "--run" =
        decide (0 < before + after) := by
    intro before after hfile
    rw [Bool.eq_iff_iff, List.contains_iff_mem, decide_eq_true_eq]
    simp only [List.mem_append, List.mem_cons, List.mem_replicate, hfile.symm, false_or, and_true]
    omega
  constructor
  · intro h
    rw [Request.ofArgs?] at h
    split at h
    · rename_i file' hfilter
      -- one argument is left when the flags are taken out, so all others are flags
      obtain ⟨front, back, rfl, hfront, hfile, hback⟩ := List.filter_eq_cons_iff.1 hfilter
      obtain ⟨rfl, rfl⟩ := Request.mk.inj (Option.some.inj h)
      have hfront' : front = List.replicate front.length "--run" :=
        List.eq_replicate_iff.2 ⟨rfl, fun a ha => by simpa using hfront a ha⟩
      have hback' : back = List.replicate back.length "--run" :=
        List.eq_replicate_iff.2
          ⟨rfl, fun a ha => by simpa using List.filter_eq_nil_iff.1 hback a ha⟩
      have hne : file' ≠ "--run" := by simpa using hfile
      refine ⟨hne, front.length, back.length, by rw [← hfront', ← hback'], ?_⟩
      rw [← hrun hne, ← hfront', ← hback']
    · contradiction
  · rintro ⟨hfile, before, after, rfl, rfl⟩
    have hfilter : (List.replicate before "--run" ++ file :: List.replicate after "--run").filter
        (· ≠ "--run") = [file] := by
      simp [List.filter_append, hfile]
    simp only [Request.ofArgs?, hfilter, hrun hfile]

/-! ## How a run ends -/

/-- A report says something, whatever the error. -/
theorem render_ne_empty (r : Report) (file source : String) : r.render file source ≠ "" := by
  have hheading : r.heading ≠ "" := by
    intro h
    have hlength := congrArg String.length h
    simp [Report.heading, Report.rendered, Report.rendition, String.length_append] at hlength
  intro h
  rw [Report.render] at h
  split at h
  · exact hheading (String.append_eq_empty_iff.1 h).1
  · exact hheading h

/-- Whether a request succeeds on the contents of its file. -/
def Request.Succeeds (request : Request) (source : String) : Prop :=
  if request.run then ∃ v, (ExprLang.run source {}).1 = .ok v
  else ∃ compiled, compile source = .ok compiled

/-- The code and the error stream of a run that has done what it was asked. -/
def Outcome.Done (outcome : Outcome) : Prop := outcome.exitCode = 0 ∧ outcome.stderr = ""

/-- The code of a run that has not, and says why. -/
def Outcome.Failed (outcome : Outcome) : Prop := outcome.exitCode = 1 ∧ outcome.stderr ≠ ""

/-- A program that is compiled or runs to its end is all that makes a request succeed. -/
theorem perform_done_or_failed (request : Request) (source : String) :
    request.Succeeds source ∧ (request.perform source).Done ∨
      ¬request.Succeeds source ∧ (request.perform source).Failed := by
  rw [Request.Succeeds, Request.perform]
  by_cases hrun : request.run
  · simp only [hrun, if_true]
    rcases ExprLang.run source {} with ⟨e | v, output⟩
    · exact .inr ⟨by simp, rfl, render_ne_empty _ _ _⟩
    · exact .inl ⟨⟨v, rfl⟩, rfl, rfl⟩
  · simp only [hrun, Bool.false_eq_true, if_false]
    rcases compile source with e | compiled
    · exact .inr ⟨by simp, rfl, render_ne_empty _ _ _⟩
    · exact .inl ⟨⟨compiled, rfl⟩, rfl, rfl⟩

/-- Whether the arguments ask for a file that can be read, and for what succeeds on it. -/
def Answers (read : String → Except FileError String) (args : List String) : Prop :=
  ∃ request source, Request.ofArgs? args = some request ∧ read request.file = .ok source ∧
    request.Succeeds source

section

variable (read : String → Except FileError String) (args : List String)

/-- There is nothing between the two ways, and it is plain which one a run takes. -/
theorem execute_done_or_failed :
    Answers read args ∧ (execute read args).Done ∨
      ¬Answers read args ∧ (execute read args).Failed := by
  rw [Answers]
  rcases hargs : Request.ofArgs? args with _ | request <;> simp only [execute, hargs]
  · exact .inr ⟨by simp, rfl, by simp [Outcome.wrongUsage, Outcome.failure, usage]⟩
  · rcases hread : read request.file with e | source <;> simp only
    · refine .inr ⟨by simp [hread], rfl, ?_⟩
      simp [Outcome.unreadable, Outcome.failure, String.append_eq_empty_iff]
    · rcases perform_done_or_failed request source with ⟨hsucceeds, hdone⟩ | ⟨hfails, hfailed⟩
      · exact .inl ⟨⟨request, source, rfl, hread, hsucceeds⟩, hdone⟩
      · refine .inr ⟨?_, hfailed⟩
        rintro ⟨request', source', hrequest, hsource, hsucceeds⟩
        obtain rfl := Option.some.inj hrequest
        obtain rfl := Except.ok.inj (hread.symm.trans hsource)
        exact hfails hsucceeds

variable {read args}

/-- The code is 0 when a file was asked for, could be read and was compiled or run to its end. -/
theorem exitCode_eq_zero_iff : (execute read args).exitCode = 0 ↔ Answers read args := by
  rcases execute_done_or_failed read args with ⟨hanswers, hdone⟩ | ⟨hfails, hfailed⟩
  · exact iff_of_true hdone.1 hanswers
  · exact iff_of_false (by simp [hfailed.1]) hfails

/-- Nothing is said on the error stream exactly then. -/
theorem stderr_eq_empty_iff : (execute read args).stderr = "" ↔ Answers read args := by
  rcases execute_done_or_failed read args with ⟨hanswers, hdone⟩ | ⟨hfails, hfailed⟩
  · exact iff_of_true hdone.2 hanswers
  · exact iff_of_false hfailed.2 hfails

end

/-! ## Walks through a directory -/

namespace Directory

/-- A part of a path that leads down: it is not empty, and does not stay or go up. -/
def IsName (part : String) : Prop := part ≠ "" ∧ part ≠ "." ∧ part ≠ ".."

/-- The file that is stored under some names below a directory, when no other one is stored on the
    way there. -/
def Stored (files : Directory) (directory names : List String) (f : StoredFile) : Prop :=
  files.find? (·.path = directory ++ names) = some f ∧
  ∀ front back, names = front ++ back → front ≠ [] → back ≠ [] →
    files.find? (·.path = directory ++ front) = none

section

variable {files : Directory} {directory parts : List String} {name part path text : String}
  {f : StoredFile}

/-- On the way to a single name there is nothing. -/
theorem stored_singleton :
    files.Stored directory [name] f ↔ files.find? (·.path = directory ++ [name]) = some f := by
  refine ⟨And.left, fun h => ⟨h, fun front back hcut hfront hback => ?_⟩⟩
  have hlength := congrArg List.length hcut
  rw [List.length_append, List.length_singleton] at hlength
  have hfront' := List.length_pos_iff.2 hfront
  have hback' := List.length_pos_iff.2 hback
  omega

/-- Behind the first name nothing changes but the directory. -/
theorem stored_cons : files.Stored directory (name :: part :: parts) f ↔
    files.find? (·.path = directory ++ [name]) = none ∧
      files.Stored (directory ++ [name]) (part :: parts) f := by
  have hshift (front : List String) : directory ++ name :: front = directory ++ [name] ++ front :=
    List.append_cons ..
  constructor
  · rintro ⟨hfind, hway⟩
    refine ⟨hway [name] (part :: parts) rfl (by simp) (by simp), by rwa [← hshift], ?_⟩
    intro front back hcut _ hback
    rw [← hshift]
    exact hway (name :: front) back (congrArg (name :: ·) hcut) (by simp) hback
  · rintro ⟨hfirst, hfind, hway⟩
    refine ⟨by rwa [hshift], fun front back hcut hfront hback => ?_⟩
    obtain ⟨first, front, rfl⟩ := List.exists_cons_of_ne_nil hfront
    obtain ⟨rfl, hcut'⟩ := List.cons.inj hcut
    rcases front with _ | ⟨second, front⟩
    · exact hfirst
    · rw [hshift]
      exact hway (second :: front) back hcut' (by simp) hback

/-- Above a stored file there are directories. -/
theorem any_of_find {front back : List String}
    (h : files.find? (·.path = front ++ back) = some f) :
    files.any (front.isPrefixOf ·.path) = true := by
  have hpath : f.path = front ++ back := by simpa using List.find?_some h
  refine List.any_eq_true.2 ⟨f, List.mem_of_find?_eq_some h, ?_⟩
  rw [hpath, List.isPrefixOf_iff_prefix]
  exact List.prefix_append front back

section

variable (hname : IsName name)

include hname

/-- A step down goes into the file of this name. -/
theorem step_file (hfind : files.find? (·.path = directory ++ [name]) = some f) :
    files.step (.directory directory) name = .ok (.file f) := by
  obtain ⟨hempty, hdot, hup⟩ := hname
  simp only [step, hempty, hdot, hup, or_self, if_false, placeAt?, hfind]

/-- Where there is no such file but something stored further down, it goes into the directory. -/
theorem step_directory (hfind : files.find? (·.path = directory ++ [name]) = none)
    (hany : files.any ((directory ++ [name]).isPrefixOf ·.path) = true) :
    files.step (.directory directory) name = .ok (.directory (directory ++ [name])) := by
  obtain ⟨hempty, hdot, hup⟩ := hname
  simp only [step, hempty, hdot, hup, or_self, if_false, placeAt?, hfind, hany, if_true]

/-- Otherwise there is nothing to go into. -/
theorem step_missing (hfind : files.find? (·.path = directory ++ [name]) = none)
    (hany : ¬files.any ((directory ++ [name]).isPrefixOf ·.path) = true) :
    files.step (.directory directory) name = .error .notFound := by
  obtain ⟨hempty, hdot, hup⟩ := hname
  simp only [step, hempty, hdot, hup, or_self, if_false, placeAt?, hfind, hany,
    Bool.false_eq_true]

end

/-- A walk down ends at a file exactly when this is stored there. -/
theorem walk_eq_file_iff (hname : IsName name) (hparts : ∀ part ∈ parts, IsName part) :
    (name :: parts).foldlM files.step (.directory directory) = .ok (.file f) ↔
      files.Stored directory (name :: parts) f := by
  induction parts generalizing name directory with
  | nil =>
    rw [List.foldlM_cons, stored_singleton]
    rcases hfind : files.find? (·.path = directory ++ [name]) with _ | g
    · by_cases hany : files.any ((directory ++ [name]).isPrefixOf ·.path) = true
      · rw [step_directory hname hfind hany]
        exact iff_of_false (by simp [bind, Except.bind, pure, Except.pure]) (by simp [hfind])
      · rw [step_missing hname hfind hany]
        exact iff_of_false (by simp [bind, Except.bind]) (by simp [hfind])
    · rw [step_file hname hfind, hfind]
      simp [bind, Except.bind, pure, Except.pure]
  | cons part parts ih =>
    rw [List.foldlM_cons, stored_cons]
    rcases hfind : files.find? (·.path = directory ++ [name]) with _ | g
    · by_cases hany : files.any ((directory ++ [name]).isPrefixOf ·.path) = true
      · rw [step_directory hname hfind hany]
        -- no file stands at this part, so the walk goes on one directory down
        have hbelow : (part :: parts).foldlM files.step (.directory (directory ++ [name])) =
            .ok (.file f) ↔ files.Stored (directory ++ [name]) (part :: parts) f :=
          ih (hparts part List.mem_cons_self) fun p hp => hparts p (List.mem_cons_of_mem _ hp)
        exact hbelow.trans (and_iff_right hfind).symm
      · rw [step_missing hname hfind hany]
        exact iff_of_false (by simp [bind, Except.bind]) fun h => hany (any_of_find h.2.1)
    · -- there is no way on from a file
      rw [step_file hname hfind]
      refine iff_of_false (by simp [bind, Except.bind, step]) fun h => ?_
      exact absurd (hfind.symm.trans h.1) (by simp)

/-! ### Any walk -/

/-- The file at a place, if there is one, is stored in the directory. -/
def Within (files : Directory) : Place → Prop
  | .file f => f ∈ files
  | _ => True

/-- Looking something up does not leave the directory. -/
theorem within_of_placeAt? {place : Place} (h : files.placeAt? parts = some place) :
    files.Within place := by
  rw [placeAt?] at h
  split at h
  · rename_i f hfind
    obtain rfl := Option.some.inj h
    exact List.mem_of_find?_eq_some hfind
  · split at h
    · obtain rfl := Option.some.inj h
      trivial
    · contradiction

/-- A step stays within the directory.  It fails where nothing is, and at a file. -/
theorem step_within (files : Directory) (place : Place) (part : String) :
    (∃ next, files.step place part = .ok next ∧ files.Within next) ∨
      files.step place part = .error .notFound ∨ files.step place part = .error .notADirectory := by
  cases place with
  | file f => exact .inr (.inr rfl)
  | outside =>
    rw [step]
    split
    · exact .inl ⟨_, rfl, trivial⟩
    · exact .inr (.inl rfl)
  | directory directory =>
    simp only [step]
    split
    · exact .inl ⟨_, rfl, trivial⟩
    · split
      · split <;> exact .inl ⟨_, rfl, trivial⟩
      · split
        · rename_i next hnext
          exact .inl ⟨next, rfl, within_of_placeAt? hnext⟩
        · exact .inr (.inl rfl)

/-- So does a whole walk, by induction on the parts that are left. -/
theorem walk_within {place : Place} (hplace : files.Within place) (parts : List String) :
    (∃ last, parts.foldlM files.step place = .ok last ∧ files.Within last) ∨
      parts.foldlM files.step place = .error .notFound ∨
      parts.foldlM files.step place = .error .notADirectory := by
  induction parts generalizing place with
  | nil => exact .inl ⟨place, rfl, hplace⟩
  | cons part parts ih =>
    rw [List.foldlM_cons]
    rcases step_within files place part with ⟨next, hnext, hwithin⟩ | hfails | hfails
    · rw [hnext]
      exact ih hwithin
    · exact .inr (.inl (by rw [hfails]; rfl))
    · exact .inr (.inr (by rw [hfails]; rfl))

/-! ### Reading -/

/-- What is read at a path is the text of some stored file, or one of four errors. -/
theorem read_stored (files : Directory) (path : String) :
    (∃ f ∈ files, ∃ text, String.fromUTF8? f.contents = some text ∧
      files.read path = .ok text) ∨
    ∃ e ∈ [FileError.notFound, .notADirectory, .isADirectory, .notText],
      files.read path = .error e := by
  rw [read]
  split
  · exact .inr ⟨.notFound, by simp, rfl⟩
  · have hstart : files.Within (if path.startsWith "/" then .outside else .directory []) := by
      split <;> trivial
    rcases walk_within hstart (partsOf path) with ⟨last, hlast, hwithin⟩ | hfails | hfails
    · simp only [hlast, bind, Except.bind]
      cases last with
      | file f =>
        rcases htext : String.fromUTF8? f.contents with _ | text
        · exact .inr ⟨.notText, by simp, by simp only [htext]; rfl⟩
        · exact .inl ⟨f, hwithin, text, htext, by simp only [htext]; rfl⟩
      | outside | directory => exact .inr ⟨.isADirectory, by simp, rfl⟩
    · exact .inr ⟨.notFound, by simp, by simp only [hfails, bind, Except.bind]⟩
    · exact .inr ⟨.notADirectory, by simp, by simp only [hfails, bind, Except.bind]⟩

/-- A path of names has the text of the file that is stored under them, and no other one. -/
theorem read_eq_ok_iff (hrelative : path.startsWith "/" = false)
    (hpath : partsOf path = name :: parts) (hname : IsName name)
    (hparts : ∀ part ∈ parts, IsName part) :
    files.read path = .ok text ↔
      ∃ f, files.Stored [] (name :: parts) f ∧ String.fromUTF8? f.contents = some text := by
  have hempty : path ≠ "" := by
    rintro rfl
    have hnothing : partsOf "" = [""] := by cbv
    exact hname.1 (List.cons.inj (hpath.symm.trans hnothing)).1
  simp only [read, if_neg hempty, hrelative, hpath, Bool.false_eq_true, if_false,
    ← walk_eq_file_iff hname hparts]
  rcases (name :: parts).foldlM files.step (.directory []) with e | last
  · exact iff_of_false (by simp [bind, Except.bind]) (by simp)
  · cases last with
    | file f =>
      rcases htext : String.fromUTF8? f.contents with _ | text'
      · simp [bind, Except.bind, htext, throw, throwThe, MonadExceptOf.throw]
      · simp [bind, Except.bind, htext, pure, Except.pure]
    | outside | directory =>
      exact iff_of_false (by simp [bind, Except.bind, throw, throwThe, MonadExceptOf.throw])
        (by simp)

/-- So the program does with the stored file, and with no other one, what the request says. -/
theorem execute_of_stored {args : List String} {run : Bool}
    (hargs : Request.ofArgs? args = some ⟨path, run⟩) (hrelative : path.startsWith "/" = false)
    (hpath : partsOf path = name :: parts) (hname : IsName name)
    (hparts : ∀ part ∈ parts, IsName part) (hstored : files.Stored [] (name :: parts) f)
    (htext : String.fromUTF8? f.contents = some text) :
    execute files.read args = (Request.mk path run).perform text := by
  have hread : files.read path = .ok text :=
    (read_eq_ok_iff hrelative hpath hname hparts).2 ⟨f, hstored, htext⟩
  simp only [execute, hargs, hread]

end

end Directory

end ExprLang.CommandLine
