/-
  A LOGIC OF PARSERS: what a parser guarantees when it succeeds.

  `Ensures last pre p post` says that `p`, handed tokens of which `pre` holds, leaves a result and
  tokens of which `post` holds, unless it refuses.  There is one rule for each combinator, so a
  property of trees is carried through the grammar rule by rule.  The rule for a loop asks for an
  invariant of its state and of the tokens that are left.

  `Yields last p fact` is the case in which the tokens do not matter.

  `Uses last fact pre p post` also says which tokens `p` takes: they are the front of what it was
  handed, and `post` holds of the result, of them, and of the tokens behind.  All tokens satisfy
  `fact`.  Its rules follow from those for `Ensures`.
-/
import ExprLang.Parser.Basic

namespace ExprLang.Parser

variable {α β σ : Type} {c d : Bool}

/-- What holds of the result and of the remaining tokens whenever `p` succeeds. -/
def Ensures (last : Location) (pre : List Token → Prop) (p : Parser c α)
    (post : α → List Token → Prop) : Prop :=
  ∀ ts, pre ts → ∀ a rest, p.run last ts = .ok (a, rest) → post a rest

section Rules

variable {last : Location} {pre : List Token → Prop}

/-- A guarantee may be used with more known in front and less wanted behind. -/
theorem Ensures.mono {p : Parser c α} {pre' : List Token → Prop}
    {post post' : α → List Token → Prop} (h : Ensures last pre p post)
    (hpre : ∀ ts, pre' ts → pre ts) (hpost : ∀ a rest, post a rest → post' a rest) :
    Ensures last pre' p post' :=
  fun ts hts a rest hrun => hpost a rest (h ts (hpre ts hts) a rest hrun)

/-- A parser that takes nothing hands its tokens on. -/
theorem ensures_pure {a : α} {post : α → List Token → Prop} (h : ∀ ts, pre ts → post a ts) :
    Ensures last pre (pure a) post := by
  intro ts hts b rest hrun
  simp only [pure, Except.ok.injEq, Prod.mk.injEq] at hrun
  obtain ⟨rfl, rfl⟩ := hrun
  exact h ts hts

/-- One that refuses guarantees anything. -/
theorem ensures_fail {e : ParseError} {post : α → List Token → Prop} :
    Ensures last pre (fail e : Parser c α) post := by
  intro ts _ a rest hrun
  contradiction

/-- A token is taken only from the front, and only when it is acceptable. -/
theorem ensures_take {accepts : Token → Bool} {refusal : Token → ParseError}
    {post : Token → List Token → Prop}
    (h : ∀ t rest, pre (t :: rest) → accepts t = true → post t rest) :
    Ensures last pre (take accepts refusal) post := by
  intro ts hts t rest hrun
  cases ts with
  | nil => contradiction
  | cons first others =>
    simp only [take] at hrun
    split at hrun
    · rename_i haccepts
      simp only [Except.ok.injEq, Prod.mk.injEq] at hrun
      obtain ⟨rfl, rfl⟩ := hrun
      exact h _ _ hts haccepts
    · contradiction

/-- What the first parser leaves is what the second one starts with. -/
theorem ensures_bind {p : Parser c α} {k : α → Parser d β} {M : α → List Token → Prop}
    {post : β → List Token → Prop} (hp : Ensures last pre p M)
    (hk : ∀ a, Ensures last (M a) (k a) post) : Ensures last pre (p.bind k) post := by
  intro ts hts b rest hrun
  rw [run_bind] at hrun
  rcases hfirst : p.run last ts with e | ⟨a, middle⟩
  · rw [hfirst] at hrun
    contradiction
  · rw [hfirst] at hrun
    exact hk a middle (hp ts hts a middle hfirst) b rest hrun

/-- A guarantee about a result that is built afterwards is one about what it is built from. -/
theorem ensures_map {p : Parser c α} {f : α → β} {post : β → List Token → Prop}
    (hp : Ensures last pre p fun a rest => post (f a) rest) :
    Ensures last pre (p.map f) post := by
  intro ts hts b rest hrun
  rw [run_map] at hrun
  rcases hfirst : p.run last ts with e | ⟨a, middle⟩
  · rw [hfirst] at hrun
    contradiction
  · rw [hfirst] at hrun
    simp only [Except.map, Except.ok.injEq, Prod.mk.injEq] at hrun
    obtain ⟨rfl, rfl⟩ := hrun
    exact hp ts hts a middle hfirst

/-- Behind a look the token at the front is known. -/
theorem ensures_look {k : Token → Parser c α} {post : α → List Token → Prop}
    (hk : ∀ t, Ensures last (fun ts => pre ts ∧ current last ts = t) (k t) post) :
    Ensures last pre (look k) post := by
  intro ts hts a rest hrun
  rw [run_look] at hrun
  exact hk (current last ts) ts ⟨hts, rfl⟩ a rest hrun

/-- Guarantees do not depend on how much a parser is known to take. -/
theorem ensures_relax {p : Parser c α} {post : α → List Token → Prop}
    (hp : Ensures last pre p post) : Ensures last pre p.relax post :=
  fun ts hts a rest hrun => hp ts hts a rest hrun

/-- Each branch may rely on the outcome of the test. -/
theorem ensures_ite {b : Prop} [Decidable b] {p q : Parser c α} {post : α → List Token → Prop}
    (hp : b → Ensures last pre p post) (hq : ¬b → Ensures last pre q post) :
    Ensures last pre (if b then p else q) post := by
  split
  · rename_i hb
    exact hp hb
  · rename_i hb
    exact hq hb

/-- A loop keeps what each round keeps, and stops where its test fails. -/
theorem ensures_loop {test : Token → Bool} {step : σ → Parser true σ}
    {I : σ → List Token → Prop}
    (hstep : ∀ s, Ensures last (fun ts => I s ts ∧ test (current last ts) = true) (step s) I)
    (s : σ) :
    Ensures last (I s) (loop test step s)
      fun s' rest => I s' rest ∧ test (current last rest) = false := by
  intro ts hts s' rest hrun
  change loopRun test step last s ts = .ok (s', rest) at hrun
  fun_induction loopRun test step last s ts with
  | case1 s ts htest s₁ middle hround ih =>
    exact ih (hstep s ts ⟨hts, htest⟩ s₁ middle hround) hrun
  | case2 => contradiction
  | case3 s ts htest =>
    simp only [Except.ok.injEq, Prod.mk.injEq] at hrun
    obtain ⟨rfl, rfl⟩ := hrun
    exact ⟨hts, by simpa using htest⟩

end Rules

/-! ## Results alone -/

/-- What holds of the result whenever `p` succeeds, whatever the tokens are. -/
def Yields (last : Location) (p : Parser c α) (fact : α → Prop) : Prop :=
  Ensures last (fun _ => True) p fun a _ => fact a

section YieldsRules

variable {last : Location} {fact : α → Prop}

/-- A weaker fact about the result. -/
theorem Yields.mono {p : Parser c α} {fact' : α → Prop} (h : Yields last p fact)
    (hfact : ∀ a, fact a → fact' a) : Yields last p fact' :=
  Ensures.mono h (fun _ h => h) fun a _ => hfact a

/-- A parser that takes nothing yields its result. -/
theorem yields_pure {a : α} (h : fact a) : Yields last (pure a) fact := ensures_pure fun _ _ => h

/-- One that refuses yields nothing, of which everything is true. -/
theorem yields_fail {e : ParseError} : Yields last (fail e : Parser c α) fact := ensures_fail

/-- What is known of a token that was taken is that it is acceptable. -/
theorem yields_take {accepts : Token → Bool} {refusal : Token → ParseError} :
    Yields last (take accepts refusal) fun t => accepts t = true :=
  ensures_take fun _ _ _ haccepts => haccepts

/-- The second parser may rely on what the first one yields. -/
theorem yields_bind {p : Parser c α} {k : α → Parser d β} {M : α → Prop} {post : β → Prop}
    (hp : Yields last p M) (hk : ∀ a, M a → Yields last (k a) post) :
    Yields last (p.bind k) post :=
  ensures_bind hp fun a ts ha => hk a ha ts trivial

/-- A fact about what is built is one about what it is built from. -/
theorem yields_map {p : Parser c α} {f : α → β} {post : β → Prop}
    (hp : Yields last p fun a => post (f a)) : Yields last (p.map f) post := ensures_map hp

/-- Looking ahead adds nothing to what is yielded. -/
theorem yields_look {k : Token → Parser c α} (hk : ∀ t, Yields last (k t) fact) :
    Yields last (look k) fact :=
  ensures_look fun t => Ensures.mono (hk t) (fun _ _ => trivial) fun _ _ h => h

/-- How much is taken does not matter here either. -/
theorem yields_relax {p : Parser c α} (hp : Yields last p fact) : Yields last p.relax fact :=
  ensures_relax hp

/-- Each branch may rely on the outcome of the test. -/
theorem yields_ite {b : Prop} [Decidable b] {p q : Parser c α} (hp : b → Yields last p fact)
    (hq : ¬b → Yields last q fact) : Yields last (if b then p else q) fact := ensures_ite hp hq

/-- A loop keeps what each round keeps. -/
theorem yields_loop {test : Token → Bool} {step : σ → Parser true σ} {I : σ → Prop}
    (hstep : ∀ s, I s → Yields last (step s) I) {s : σ} (hs : I s) :
    Yields last (loop test step s) I := by
  refine (ensures_loop (I := fun s _ => I s) (fun s => ?_) s).mono (fun _ _ => hs) fun _ _ h => h.1
  rintro ts ⟨hs, -⟩
  exact hstep s hs ts trivial

end YieldsRules

/-! ## The tokens that are taken -/

/-- What holds of the result, of the tokens taken and of the remaining ones whenever `p`
    succeeds. -/
def Uses (last : Location) (fact : Token → Prop) (pre : List Token → Prop) (p : Parser c α)
    (post : α → List Token → List Token → Prop) : Prop :=
  ∀ ts, pre ts → (∀ t ∈ ts, fact t) →
    Ensures last (· = ts) p fun a rest => ∃ used, ts = used ++ rest ∧ post a used rest

section UsesRules

variable {last : Location} {fact : Token → Prop} {pre : List Token → Prop}

/-- As for `Ensures`; the tokens that are taken stay the same. -/
theorem Uses.mono {p : Parser c α} {pre' : List Token → Prop}
    {post post' : α → List Token → List Token → Prop} (h : Uses last fact pre p post)
    (hpre : ∀ ts, pre' ts → pre ts) (hpost : ∀ a used rest, post a used rest → post' a used rest) :
    Uses last fact pre' p post' :=
  fun ts hts hfact => (h ts (hpre ts hts) hfact).mono (fun _ h => h)
    fun a rest ⟨used, hused, h⟩ => ⟨used, hused, hpost a used rest h⟩

/-- Taking nothing means using the empty list. -/
theorem uses_pure {a : α} {post : α → List Token → List Token → Prop}
    (h : ∀ ts, pre ts → post a [] ts) : Uses last fact pre (pure a) post := by
  intro ts hts _
  refine ensures_pure fun ts' h' => ?_
  obtain rfl := h'
  exact ⟨[], rfl, h ts' hts⟩

/-- A parser that refuses never has to say what it used. -/
theorem uses_fail {e : ParseError} {post : α → List Token → List Token → Prop} :
    Uses last fact pre (fail e : Parser c α) post := fun _ _ _ => ensures_fail

/-- Taking a token uses this one, of which the general fact is known. -/
theorem uses_take {accepts : Token → Bool} {refusal : Token → ParseError}
    {post : Token → List Token → List Token → Prop}
    (h : ∀ t rest, accepts t = true → fact t → post t [t] rest) :
    Uses last fact pre (take accepts refusal) post := by
  intro ts _ hfact
  refine ensures_take fun t rest hts haccepts => ?_
  subst hts
  exact ⟨[t], rfl, h t rest haccepts (hfact t List.mem_cons_self)⟩

/-- What the second parser takes stands behind what the first one has taken. -/
theorem uses_bind {p : Parser c α} {k : α → Parser d β} {M : α → List Token → List Token → Prop}
    {post : β → List Token → List Token → Prop} (hp : Uses last fact pre p M)
    (hk : ∀ a used, Uses last fact (M a used) (k a) fun b used' => post b (used ++ used')) :
    Uses last fact pre (p.bind k) post := by
  intro ts hts hfact
  refine ensures_bind (hp ts hts hfact) fun a => ?_
  rintro middle ⟨used, rfl, hM⟩ b rest hrun
  have hfact' : ∀ t ∈ middle, fact t := fun t ht => hfact t (List.mem_append_right _ ht)
  obtain ⟨used', rfl, hpost⟩ := hk a used middle hM hfact' middle rfl b rest hrun
  exact ⟨used ++ used', (List.append_assoc ..).symm, hpost⟩

/-- What is used is not changed by what is built from the result. -/
theorem uses_map {p : Parser c α} {f : α → β} {post : β → List Token → List Token → Prop}
    (hp : Uses last fact pre p fun a used rest => post (f a) used rest) :
    Uses last fact pre (p.map f) post := fun ts hts hfact => ensures_map (hp ts hts hfact)

/-- Looking uses nothing, and tells which token is in front. -/
theorem uses_look {k : Token → Parser c α} {post : α → List Token → List Token → Prop}
    (hk : ∀ t, Uses last fact (fun ts => pre ts ∧ current last ts = t) (k t) post) :
    Uses last fact pre (look k) post := by
  intro ts hts hfact
  refine ensures_look fun t => ?_
  rintro ts' ⟨rfl, ht⟩
  exact hk t ts' ⟨hts, ht⟩ hfact ts' rfl

/-- How much a parser is known to take does not change what it uses. -/
theorem uses_relax {p : Parser c α} {post : α → List Token → List Token → Prop}
    (hp : Uses last fact pre p post) : Uses last fact pre p.relax post :=
  fun ts hts hfact => ensures_relax (hp ts hts hfact)

/-- Each branch may rely on the outcome of the test. -/
theorem uses_ite {b : Prop} [Decidable b] {p q : Parser c α}
    {post : α → List Token → List Token → Prop} (hp : b → Uses last fact pre p post)
    (hq : ¬b → Uses last fact pre q post) : Uses last fact pre (if b then p else q) post :=
  fun ts hts hfact => ensures_ite (fun hb => hp hb ts hts hfact) fun hb => hq hb ts hts hfact

/-- A loop keeps what each round keeps of the tokens taken so far. -/
theorem uses_loop {test : Token → Bool} {step : σ → Parser true σ}
    {I : σ → List Token → List Token → Prop}
    (hstep : ∀ s used, Uses last fact (fun ts => I s used ts ∧ test (current last ts) = true)
      (step s) fun s' used' rest => I s' (used ++ used') rest) (s : σ) :
    Uses last fact (I s []) (loop test step s)
      fun s' used rest => I s' used rest ∧ test (current last rest) = false := by
  intro ts hts hfact
  refine (ensures_loop (I := fun s rest => ∃ used, ts = used ++ rest ∧ I s used rest)
    (fun s => ?_) s).mono ?_ ?_
  · rintro rest ⟨⟨used, rfl, hI⟩, htest⟩ s' rest' hrun
    have hfact' : ∀ t ∈ rest, fact t := fun t ht => hfact t (List.mem_append_right _ ht)
    obtain ⟨used', rfl, hI'⟩ := hstep s used rest ⟨hI, htest⟩ hfact' rest rfl s' rest' hrun
    exact ⟨used ++ used', (List.append_assoc ..).symm, hI'⟩
  · rintro ts' rfl
    exact ⟨[], rfl, hts⟩
  · rintro s' rest ⟨⟨used, hused, hI⟩, htest⟩
    exact ⟨used, hused, hI, htest⟩

end UsesRules

end ExprLang.Parser
