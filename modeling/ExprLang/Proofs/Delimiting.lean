/-
  DELIMITED TEXTS: pieces of text that tell where they end.

  Commas, parentheses, brackets, spaces and ends of lines are DELIMITERS.  A WORD has none of them,
  so it ends at the first delimiter behind it (`word_eq`).  Things are TOLD APART by their texts
  when no text of one, continued at a delimiter, is the text of another: then a text that begins
  with one of them says which it is, and what comes behind.

  A list of things that are told apart, with commas between them, is told apart as a whole by
  whatever closes it (`listed_eq`).  That things differ is not enough for this, because a thing
  whose text holds commas could look like two.
-/
import ExprLang.Proofs.LexicalGrammar

namespace ExprLang.Delimiting

variable {α : Type} {text : α → List Char} {w v r s : List Char} {m close : Char}

/-! ## Words -/

/-- The characters that delimit pieces of text. -/
def isDelimiter (c : Char) : Bool := [',', '(', ')', '[', ']', ' ', '\n'].contains c

/-- No character of a word is a delimiter. -/
def IsWord (w : List Char) : Prop := ∀ c ∈ w, isDelimiter c = false

instance (w : List Char) : Decidable (IsWord w) := List.decidableBAll (isDelimiter · = false) w

/-- What comes next, if anything, is a delimiter. -/
def Stops (rest : List Char) : Prop := ∀ c, rest.head? = some c → isDelimiter c = true

/-- Nothing comes next. -/
theorem stops_nil : Stops [] := by simp [Stops]

/-- A delimiter comes next. -/
theorem stops_cons (hm : isDelimiter m = true) : Stops (m :: r) := by simp [Stops, hm]

/-- A word ends at the first delimiter. -/
theorem word_eq (hw : IsWord w) (hv : IsWord v) (hr : Stops r) (hs : Stops s)
    (h : w ++ r = v ++ s) : w = v ∧ r = s := by
  have hsplit : ∀ {front rest : List Char}, IsWord front → Stops rest →
      (front ++ rest).takeWhile (fun c => !isDelimiter c) = front ∧
        (front ++ rest).dropWhile (fun c => !isDelimiter c) = rest := fun hfront hrest =>
    span_append (fun c hc => by simp [hfront c hc]) (fun c hc => by simp [hrest c hc])
  obtain ⟨htake, hdrop⟩ := hsplit hw hr
  obtain ⟨htake', hdrop'⟩ := hsplit hv hs
  rw [h] at htake hdrop
  exact ⟨htake.symm.trans htake', hdrop.symm.trans hdrop'⟩

/-- A word in front of a delimiter. -/
theorem word_delimiter_eq (hm : isDelimiter m = true) (hw : IsWord w) (hv : IsWord v)
    (h : w ++ m :: r = v ++ m :: s) : w = v ∧ r = s := by
  obtain ⟨hword, hrest⟩ := word_eq hw hv (stops_cons hm) (stops_cons hm) h
  exact ⟨hword, (List.cons.inj hrest).2⟩

/-- A word in front of a comma and a space. -/
theorem word_comma_eq (hw : IsWord w) (hv : IsWord v)
    (h : w ++ ',' :: ' ' :: r = v ++ ',' :: ' ' :: s) : w = v ∧ r = s := by
  obtain ⟨hword, hrest⟩ := word_delimiter_eq (by decide) hw hv h
  exact ⟨hword, (List.cons.inj hrest).2⟩

/-! ## Lists -/

/-- Whatever stands behind their texts, if it begins with a delimiter, they are told apart. -/
def ToldApart (text : α → List Char) (a b : α) : Prop :=
  ∀ {r s : List Char}, Stops r → Stops s → text a ++ r = text b ++ s → a = b ∧ r = s

/-- The text of something begins with a character, and not with `close`. -/
def BeginsOtherThan (close : Char) (w : List Char) : Prop := ∃ c rest, w = c :: rest ∧ c ≠ close

/-- The texts of the other things of a list, each behind a comma. -/
def following (text : α → List Char) (as : List α) : List Char :=
  as.flatMap fun a => ',' :: ' ' :: text a

/-- The texts of the things of a list, with commas between them. -/
def listed (text : α → List Char) : List α → List Char
  | [] => []
  | a :: as => text a ++ following text as

/-- Between two entries of a list stand a comma and a blank. -/
theorem listed_cons_cons (a b : α) (as : List α) :
    listed text (a :: b :: as) = text a ++ ',' :: ' ' :: listed text (b :: as) := by
  simp [listed, following]

/-- The characters of a list are those of its entries with the separators. -/
theorem toList_intercalate (name : α → String) (as : List α) :
    (", ".intercalate (as.map name)).toList = listed (fun a => (name a).toList) as := by
  induction as with
  | nil => rfl
  | cons a as ih =>
    cases as with
    | nil => simp [listed, following]
    | cons b as =>
      rw [listed_cons_cons, ← ih]
      simp

/-- An entry ends where the next one is separated, or where the list is closed. -/
theorem stops_following (hclose : isDelimiter close = true) (as : List α) :
    Stops (following text as ++ close :: r) := by
  cases as with
  | nil => exact stops_cons hclose
  | cons a as => exact stops_cons (by decide)

/-- Where entries are told apart, so are the lists of them, together with what follows. -/
theorem following_eq (hclose : isDelimiter close = true) (hcomma : close ≠ ',') {as bs : List α}
    (htold : ∀ a ∈ as, ∀ b ∈ bs, ToldApart text a b)
    (h : following text as ++ close :: r = following text bs ++ close :: s) : as = bs ∧ r = s := by
  induction as generalizing bs with
  | nil =>
    cases bs with
    | nil => exact ⟨rfl, (List.cons.inj h).2⟩
    | cons b bs => exact absurd (List.cons.inj h).1 hcomma
  | cons a as ih =>
    cases bs with
    | nil => exact absurd (List.cons.inj h).1.symm hcomma
    | cons b bs =>
      simp only [following, List.flatMap_cons, List.cons_append, List.append_assoc,
        List.cons.injEq, true_and] at h
      obtain ⟨rfl, hrest⟩ := htold a (by simp) b (by simp) (stops_following hclose as)
        (stops_following hclose bs) h
      obtain ⟨rfl, rfl⟩ := ih (fun a ha b hb =>
        htold a (List.mem_cons_of_mem _ ha) b (List.mem_cons_of_mem _ hb)) hrest
      exact ⟨rfl, rfl⟩

/-- A list is told apart by what closes it, as long as nothing in it could be taken for that. -/
theorem listed_eq (hclose : isDelimiter close = true) (hcomma : close ≠ ',') {as bs : List α}
    (htold : ∀ a ∈ as, ∀ b ∈ bs, ToldApart text a b)
    (has : ∀ a ∈ as, BeginsOtherThan close (text a))
    (hbs : ∀ b ∈ bs, BeginsOtherThan close (text b))
    (h : listed text as ++ close :: r = listed text bs ++ close :: s) : as = bs ∧ r = s := by
  cases as with
  | nil =>
    cases bs with
    | nil => exact ⟨rfl, (List.cons.inj h).2⟩
    | cons b bs =>
      -- the first list is closed at once, where the second one has an entry
      obtain ⟨c, rest, htext, hc⟩ := hbs b (by simp)
      rw [listed, listed, htext] at h
      exact absurd (List.cons.inj h).1.symm hc
  | cons a as =>
    cases bs with
    | nil =>
      obtain ⟨c, rest, htext, hc⟩ := has a (by simp)
      rw [listed, listed, htext] at h
      exact absurd (List.cons.inj h).1 hc
    | cons b bs =>
      simp only [listed, List.append_assoc] at h
      obtain ⟨rfl, hrest⟩ := htold a (by simp) b (by simp) (stops_following hclose as)
        (stops_following hclose bs) h
      obtain ⟨rfl, rfl⟩ := following_eq hclose hcomma (fun a ha b hb =>
        htold a (List.mem_cons_of_mem _ ha) b (List.mem_cons_of_mem _ hb)) hrest
      exact ⟨rfl, rfl⟩

end ExprLang.Delimiting
