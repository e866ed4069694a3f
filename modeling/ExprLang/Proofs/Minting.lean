/-
  MINTING: which variables are minted, and that looking for one ends.

  A variable is found by trying one number after another, until the name is neither reserved nor
  taken by a variable that was minted before (`Supply.search`).  Nothing in the search bounds it.
  It ends because no variable has a number that was not tried yet: of the numbers to come only
  reserved ones are skipped, and there are finitely many of these.

  So the variables minted so far must always be the free ones up to the last number tried, all of
  them and in their order (`Var.freeUpTo`).  `Mints` says so of two drafts, one behind the other.
  Minting keeps to it because it goes on to the next free number, and every other step because it
  leaves the numbers alone.  A `Request` of any kind is a sequence of such steps, also when it
  fails, and requests may follow each other in any order.
-/
import ExprLang.Proofs.CodeShape
import ExprLang.Proofs.DraftSteps
import ExprLang.Proofs.KeptScopes

namespace ExprLang

/-! ## The search for a variable -/

/-- What variables are minted from: the names that are taken, and the last number tried. -/
structure Supply where
  taken : List String
  tried : Nat

namespace Supply

/-- The search for a variable with a name of its own, broken off after so many turns. -/
def search : Nat → Supply → Option (Var × Supply)
  | 0, _ => none
  | turns + 1, s =>
    let x := Var.numbered (s.tried + 1)
    if x.name ∈ s.taken then search turns { s with tried := s.tried + 1 }
    else some (x, ⟨x.name :: s.taken, s.tried + 1⟩)

/-- The search goes past what is taken and ends at the first number that is free. -/
theorem search_eq_some {k skipped : Nat} {s : Supply} (hk : k = s.tried + skipped + 1)
    (hfree : (Var.numbered k).name ∉ s.taken)
    (htaken : ∀ j, s.tried < j → j < k → (Var.numbered j).name ∈ s.taken) :
    s.search (skipped + 1) = some (.numbered k, ⟨(Var.numbered k).name :: s.taken, k⟩) := by
  induction skipped generalizing s with
  | zero =>
    subst hk
    rw [search]
    exact if_neg hfree
  | succ skipped ih =>
    have hnext : (Var.numbered (s.tried + 1)).name ∈ s.taken :=
      htaken (s.tried + 1) (by omega) (by omega)
    have hk' : k = s.tried + 1 + skipped + 1 := by omega
    rw [search]
    exact (if_pos hnext).trans
      (ih hk' hfree fun j hlow hhigh => htaken j (Nat.lt_of_succ_lt hlow) hhigh)

end Supply

/-! ## Free numbers -/

theorem Var.numbered_ne_unit (k : Nat) : (Var.numbered k).name ≠ unitName := by
  intro h
  have hfirst := congrArg (fun s => s.toList.head?) h
  simp [Var.numbered, unitName] at hfirst

/-- The search goes no further than the reserved names can make it go. -/
theorem firstFree_le (reserved : List String) (k : Nat) :
    firstFree reserved k ≤ k + reserved.length := by
  fun_induction firstFree reserved k with
  | case1 reserved k taken ih =>
    have hpos := List.length_pos_of_mem taken
    rw [List.length_erase_of_mem taken] at ih
    omega
  | case2 => omega

/-- The first free number is the only one that is free and has none in front of it. -/
theorem eq_firstFree {reserved : List String} {k n : Nat} (hle : k ≤ n)
    (hfree : (Var.numbered n).name ∉ reserved)
    (htaken : ∀ j, k ≤ j → j < n → (Var.numbered j).name ∈ reserved) :
    n = firstFree reserved k := by
  obtain ⟨hfound, hskipped⟩ := firstFree_spec reserved k
  rcases Nat.lt_trichotomy n (firstFree reserved k) with hlt | heq | hgt
  · exact absurd (hskipped n hle hlt) hfree
  · exact heq
  · exact absurd (htaken _ (le_firstFree reserved k) hgt) hfound

/-- No number is skipped because of `unit`. -/
theorem firstFree_cons_unit (reserved : List String) (k : Nat) :
    firstFree (unitName :: reserved) k = firstFree reserved k := by
  obtain ⟨hfree, hskipped⟩ := firstFree_spec reserved k
  refine (eq_firstFree (le_firstFree reserved k) ?_ fun j hlow hhigh => ?_).symm
  · exact List.not_mem_cons_of_ne_of_not_mem (Var.numbered_ne_unit _) hfree
  · exact List.mem_cons_of_mem _ (hskipped j hlow hhigh)

namespace Var

/-- The variables up to a number that are not reserved, in the order of their numbers. -/
def freeUpTo (reserved : List String) (n : Nat) : List Var :=
  ((List.range' 1 n).map numbered).filter fun x => x.name ∉ reserved

/-- One number more adds its variable, unless that is reserved. -/
theorem freeUpTo_succ (reserved : List String) (n : Nat) :
    freeUpTo reserved (n + 1) = freeUpTo reserved n ++
      if (numbered (n + 1)).name ∈ reserved then [] else [numbered (n + 1)] := by
  rw [freeUpTo, List.range'_1_concat, List.map_append, List.filter_append, ← freeUpTo,
    Nat.add_comm 1 n]
  by_cases h : (numbered (n + 1)).name ∈ reserved <;> simp [h]

/-- Reserved numbers add nothing. -/
theorem freeUpTo_of_reserved {reserved : List String} {n k : Nat} (hle : n ≤ k)
    (h : ∀ j, n < j → j ≤ k → (numbered j).name ∈ reserved) :
    freeUpTo reserved k = freeUpTo reserved n := by
  induction hle with
  | refl => rfl
  | @step k hle ih =>
    rw [freeUpTo_succ, if_pos (h (k + 1) (Nat.lt_succ_of_le hle) (Nat.le_refl _)),
      List.append_nil]
    exact ih fun j hlow hhigh => h j hlow (Nat.le_succ_of_le hhigh)

/-- The next free number adds its variable. -/
theorem freeUpTo_firstFree (reserved : List String) (n : Nat) :
    freeUpTo reserved (firstFree reserved (n + 1))
      = freeUpTo reserved n ++ [numbered (firstFree reserved (n + 1))] := by
  obtain ⟨hfree, hskipped⟩ := firstFree_spec reserved (n + 1)
  have hle := le_firstFree reserved (n + 1)
  obtain ⟨k, hk⟩ : ∃ k, firstFree reserved (n + 1) = k + 1 :=
    ⟨firstFree reserved (n + 1) - 1, by omega⟩
  rw [hk] at hfree hskipped hle ⊢
  rw [freeUpTo_succ, if_neg hfree, freeUpTo_of_reserved (Nat.le_of_succ_le_succ hle)]
  exact fun j hlow hhigh => hskipped j hlow (Nat.lt_succ_of_le hhigh)

/-- To reserve the unit variable takes no number away. -/
theorem freeUpTo_cons_unit (reserved : List String) (n : Nat) :
    freeUpTo (unitName :: reserved) n = freeUpTo reserved n := by
  refine List.filter_congr fun x hx => ?_
  obtain ⟨k, -, rfl⟩ := List.mem_map.1 hx
  simp [numbered_ne_unit]

/-- Each free variable has a number, up to the last one. -/
theorem exists_of_mem_freeUpTo {reserved : List String} {n : Nat} {x : Var}
    (hx : x ∈ freeUpTo reserved n) : ∃ k ≤ n, x = numbered k := by
  obtain ⟨k, hk, rfl⟩ := List.mem_map.1 (List.mem_filter.1 hx).1
  exact ⟨k, by have := List.mem_range'_1.1 hk; omega, rfl⟩

end Var

namespace Draft

/-! ## The search of a draft -/

/-- What is left to mint from once these variables are minted. -/
def supply (d : Draft) (xs : List Var) : Supply :=
  ⟨xs.reverse.map Var.name ++ d.reserved, d.minted⟩

/-- When the free variables so far were minted and no others, the search for one more ends, and it
    finds the variable that the draft mints. -/
theorem search_supply {reserved : List String} {d : Draft} {xs : List Var}
    (hreserved : d.reserved = unitName :: reserved)
    (hxs : xs = Var.freeUpTo reserved d.minted) :
    ∃ turns ≤ reserved.length + 1,
      (d.supply xs).search turns = some (d.next, d.grown.supply (xs ++ [d.next])) := by
  have hlt := d.minted_lt_grown
  obtain ⟨hfree, hskipped⟩ := firstFree_spec d.reserved (d.minted + 1)
  rw [← minted_grown] at hfree hskipped
  have hbound : d.grown.minted ≤ d.minted + 1 + reserved.length := by
    rw [minted_grown, hreserved, firstFree_cons_unit]
    exact firstFree_le reserved (d.minted + 1)
  obtain ⟨skipped, hk⟩ := Nat.exists_eq_add_of_lt hlt
  have hnew : (Var.numbered d.grown.minted).name ∉ (d.supply xs).taken := by
    intro hmem
    rcases List.mem_append.1 hmem with hmem | hmem
    · -- what was minted before has a number that was tried before
      obtain ⟨x, hx, hname⟩ := List.mem_map.1 hmem
      obtain ⟨k, hk, rfl⟩ := Var.exists_of_mem_freeUpTo (hxs ▸ List.mem_reverse.1 hx)
      have := Var.numbered_injective (congrArg Var.mk hname)
      omega
    · exact hfree hmem
  -- the numbers that the draft skips are taken, so the search skips them too
  have hfound : (d.supply xs).search (skipped + 1) = some (.numbered d.grown.minted,
      ⟨(Var.numbered d.grown.minted).name :: (d.supply xs).taken, d.grown.minted⟩) :=
    Supply.search_eq_some hk hnew fun j hlow hhigh =>
      List.mem_append_right _ (hskipped j hlow hhigh)
  refine ⟨skipped + 1, by omega, hfound.trans ?_⟩
  simp [supply, next, grown, mint]

end Draft

/-! ## Destinations of parts of the code -/

/-- The destinations of code are listed piece by piece. -/
theorem destinations_append (code code' : List Instr) :
    destinations (code ++ code') = destinations code ++ destinations code' := by
  rw [destinations, List.filter_append, List.filterMap_append, ← destinations, ← destinations]

/-- One instruction has at most one destination, the variable it writes. -/
theorem destinations_singleton (i : Instr) : (destinations [i]).Sublist i.writes.toList := by
  rcases hcopy : i.isCopy with _ | _ <;> rcases hwrites : i.writes with _ | x <;>
    simp [destinations, hcopy, hwrites]

/-- An instruction that only copies, or writes nothing, has none. -/
theorem destinations_singleton_of_copy {i : Instr} (h : i.isCopy = false → i.writes = none) :
    destinations [i] = [] := by
  rcases hcopy : i.isCopy with _ | _
  · simp [destinations, hcopy, h hcopy]
  · simp [destinations, hcopy]

namespace Draft

/-! ## What is minted between two drafts -/

/-- Between two drafts these variables are minted, in this order: the free ones between the last
    numbers tried.  Loads and calls write variables among them, in their order. -/
structure Mints (d : Draft) (xs : List Var) (d' : Draft) : Prop where
  reserved : d'.reserved = d.reserved
  free : Var.freeUpTo d.reserved d'.minted = Var.freeUpTo d.reserved d.minted ++ xs
  code : ∃ added, d'.code.toList = d.code.toList ++ added ∧ (destinations added).Sublist xs

namespace Mints

variable {d d' d'' : Draft} {xs ys : List Var} {loc : Location}

/-- Between a draft and itself nothing is minted. -/
theorem refl (d : Draft) : d.Mints [] d where
  reserved := rfl
  free := (List.append_nil _).symm
  code := ⟨[], (List.append_nil _).symm, List.nil_sublist _⟩

/-- What is minted by the way is minted in order. -/
theorem trans (h : d.Mints xs d') (h' : d'.Mints ys d'') : d.Mints (xs ++ ys) d'' where
  reserved := h'.reserved.trans h.reserved
  free := by
    have hrest := h'.free
    rw [h.reserved] at hrest
    rw [hrest, h.free, List.append_assoc]
  code := by
    obtain ⟨added, hcode, hadded⟩ := h.code
    obtain ⟨added', hcode', hadded'⟩ := h'.code
    refine ⟨added ++ added', by rw [hcode', hcode, List.append_assoc], ?_⟩
    rw [destinations_append]
    exact hadded.append hadded'

/-- A step that leaves the numbers and the code alone mints nothing. -/
theorem quiet (h : d.Mints xs d') (hreserved : d''.reserved = d'.reserved)
    (hminted : d''.minted = d'.minted) (hcode : d''.code = d'.code) : d.Mints xs d'' where
  reserved := hreserved.trans h.reserved
  free := hminted ▸ h.free
  code := hcode ▸ h.code

/-- Minting goes on to the next free number. -/
theorem grown (h : d.Mints xs d') : d.Mints (xs ++ [d'.next]) d'.grown :=
  h.trans {
    reserved := rfl
    free := Var.freeUpTo_firstFree d'.reserved d'.minted
    code := ⟨[], (List.append_nil _).symm, List.nil_sublist _⟩ }

/-- An instruction may write the variable that is minted for it. -/
theorem emitNew (h : d.Mints xs d') {action : Var → Action}
    (hwrites : (⟨action d'.next, loc⟩ : Instr).writes = some d'.next) :
    d.Mints (xs ++ [d'.next]) (d'.emitNew action loc) :=
  h.trans {
    reserved := rfl
    free := Var.freeUpTo_firstFree d'.reserved d'.minted
    code := by
      have hdest := destinations_singleton (⟨action d'.next, loc⟩ : Instr)
      rw [hwrites] at hdest
      exact ⟨_, code_emit d'.grown _ _, hdest⟩ }

/-- All others that write are copies. -/
theorem emit (h : d.Mints xs d') {action : Action}
    (hcopy : (⟨action, loc⟩ : Instr).isCopy = false → (⟨action, loc⟩ : Instr).writes = none) :
    d.Mints xs (d'.emit action loc) where
  reserved := h.reserved
  free := h.free
  code := by
    obtain ⟨added, hcode, hadded⟩ := h.code
    refine ⟨added ++ [⟨action, loc⟩], by rw [code_emit, hcode, List.append_assoc], ?_⟩
    rw [destinations_append, destinations_singleton_of_copy hcopy, List.append_nil]
    exact hadded

end Mints

/-- The steps of lowering mint what they hand out. -/
theorem Wrote.mints {assigning : Bool} {d d' : Draft} {xs : List Var} {ls : List Label}
    (h : Wrote assigning d xs ls d') : d.Mints xs d' := by
  induction h with
  | start => exact .refl d
  | mint _ ih => exact ih.grown
  | emitNew _ hwrites _ ih => exact ih.emitNew hwrites
  | emit _ hcopy _ _ ih => exact ih.emit hcopy
  | mintLabel _ _ ih | rescope _ ih => exact ih.quiet rfl rfl rfl

/-! ## Requests -/

/-- What may be asked of a draft: a variable, a label, or the code of a tree in some scopes. -/
inductive Request where
  | mint
  | mintLabel (stem : String)
  | lower (scopes : Scopes Var) (e : Expr)

/-- The draft behind a request, also behind one that fails. -/
def serve (d : Draft) : Request → Draft
  | .mint => stateBehind Lowering.mint d
  | .mintLabel stem => stateBehind (Lowering.mintLabel stem) d
  | .lower scopes e => stateBehind (Lowering.lower e) { d with scopes := scopes }

/-- The draft behind some requests. -/
def after (d : Draft) (requests : List Request) : Draft := requests.foldl serve d

/-- The variables that are minted for some requests, in order. -/
inductive MintedFor : Draft → List Request → List Var → Prop
  | none {d} : MintedFor d [] []
  | mint {d rest xs} (h : MintedFor (d.serve .mint) rest xs) :
      MintedFor d (.mint :: rest) (d.next :: xs)
  | mintLabel {d stem rest xs} (h : MintedFor (d.serve (.mintLabel stem)) rest xs) :
      MintedFor d (.mintLabel stem :: rest) xs
  | lower {d scopes e rest xs ys ls}
      (hlower : Wrote (Lowering.assigns e) { d with scopes := scopes } ys ls
        (d.serve (.lower scopes e)))
      (h : MintedFor (d.serve (.lower scopes e)) rest xs) :
      MintedFor d (.lower scopes e :: rest) (ys ++ xs)

/-- For all requests together there is a list of what they are given. -/
theorem exists_mintedFor (d : Draft) (requests : List Request) :
    ∃ xs, MintedFor d requests xs := by
  induction requests generalizing d with
  | nil => exact ⟨[], .none⟩
  | cons request rest ih =>
    obtain ⟨xs, hxs⟩ := ih (d.serve request)
    cases request with
    | mint => exact ⟨_, .mint hxs⟩
    | mintLabel stem => exact ⟨_, .mintLabel hxs⟩
    | lower scopes e =>
      obtain ⟨ys, ls, hlower⟩ : Reaches (Lowering.assigns e) { d with scopes := scopes } _ :=
        leads_alike.1 (Lowering.writes_lower e id _)
      exact ⟨_, .lower hlower hxs⟩

/-- Requests one after the other are given the free variables one after the other. -/
theorem MintedFor.mints {d : Draft} {requests : List Request} {xs : List Var}
    (h : MintedFor d requests xs) : d.Mints xs (d.after requests) := by
  induction h with
  | @none d => exact .refl d
  | @mint d _ _ _ ih => exact (Mints.refl d).grown.trans ih
  | @mintLabel d stem _ _ _ ih =>
    have hlabel : d.Mints [] (d.serve (.mintLabel stem)) := (Mints.refl d).quiet rfl rfl rfl
    exact hlabel.trans ih
  | @lower d scopes _ _ _ _ _ hlower _ ih =>
    have hscopes : d.Mints [] { d with scopes := scopes } := (Mints.refl d).quiet rfl rfl rfl
    exact (hscopes.trans hlower.mints).trans ih

/-- Minting ends and skips exactly the reserved names.  Requests may follow each other in any
    order, and any of them may fail.  The variables minted for them, in order, are the free ones
    up to the last number tried; loads and calls write variables among them, in the same order.
    Wherever the request behind them has got to, the search for one more variable ends, at the
    variable that the draft mints, after at most one turn for each reserved name and one more. -/
theorem minted_in_order (reserved : List String) (requests : List Request) :
    (∃ xs, MintedFor (.start reserved) requests xs) ∧
    ∀ xs, MintedFor (.start reserved) requests xs →
      xs = Var.freeUpTo reserved ((start reserved).after requests).minted ∧
      (destinations ((start reserved).after requests).code.toList).Sublist xs ∧
      ∀ scopes ys ls d,
        Wrote true { (start reserved).after requests with scopes := scopes } ys ls d →
        ∃ turns ≤ reserved.length + 1, (d.supply (xs ++ ys)).search turns
          = some (d.next, d.grown.supply (xs ++ ys ++ [d.next])) := by
  refine ⟨exists_mintedFor _ requests, fun xs hxs => ?_⟩
  have hmints := hxs.mints
  have hfree {ys : List Var} {d : Draft} (h : (start reserved).Mints ys d) :
      ys = Var.freeUpTo reserved d.minted :=
    (h.free.symm.trans (Var.freeUpTo_cons_unit reserved d.minted))
  refine ⟨hfree hmints, ?_, fun scopes ys ls d hd => ?_⟩
  · obtain ⟨added, hcode, hadded⟩ := hmints.code
    rw [hcode]
    exact hadded
  · have hscopes : (start reserved).Mints xs
        { (start reserved).after requests with scopes := scopes } := hmints.quiet rfl rfl rfl
    have hbehind : (start reserved).Mints (xs ++ ys) d := hscopes.trans hd.mints
    exact search_supply hbehind.reserved (hfree hbehind)

/-- With `x1` and `x3` reserved, `True and y` fails at the unknown `y`.  By then the variables of
    `True` and of the result are minted, and minting goes on behind them. -/
theorem minted_in_order_interrupted :
    (∃ d, Lowering.lower
        (.binary (.of 1 6) "and" (.bool (.of 1 1) true) (.name (.of 1 10) "y"))
        { (start ["x1", "x3"]).after [.mint] with scopes := .empty }
      = .error (.undefinedName "y" (.of 1 10)) d) ∧
    MintedFor (.start ["x1", "x3"])
      [.mint,
       .lower .empty (.binary (.of 1 6) "and" (.bool (.of 1 1) true) (.name (.of 1 10) "y")),
       .mintLabel "then", .mint]
      [⟨"x2"⟩, ⟨"x4"⟩, ⟨"x5"⟩, ⟨"x6"⟩] := by
  refine ⟨⟨_, by with_unfolding_all rfl⟩, ?_⟩
  obtain ⟨⟨xs, hxs⟩, hall⟩ := minted_in_order ["x1", "x3"] [.mint,
    .lower .empty (.binary (.of 1 6) "and" (.bool (.of 1 1) true) (.name (.of 1 10) "y")),
    .mintLabel "then", .mint]
  obtain ⟨hfree, -, -⟩ := hall xs hxs
  have hvars : xs = [⟨"x2"⟩, ⟨"x4"⟩, ⟨"x5"⟩, ⟨"x6"⟩] := hfree.trans (by with_unfolding_all rfl)
  exact hvars ▸ hxs

end Draft

end ExprLang
