/-
  LOCATIONS: where in a source text a thing stands.

  A `Position` counts rows and columns from 1; columns count characters, and only a line feed
  starts a row.  `Position.after` walks a position over a piece of text, so the lexer can carry
  one along; `Position.cut` goes the other way and finds the place of a position in a text.

  A `Location` is a position or SYNTHETIC.  Synthetic locations belong to trees that no text
  gave rise to: they compare as `same` as every location, are shown as row 1, column 1, and
  stand at the front of every text.

  `Location.spanIn` is the range that an error report underlines.  Offsets count the BYTES of
  the UTF-8 form; a location that the text does not reach lies at its end, with an empty span.
-/
namespace ExprLang

/-- A row and a column, both counted from 1. -/
structure Position where
  row : Nat
  column : Nat
deriving DecidableEq

namespace Position

/-- Where every text starts. -/
def start : Position := ⟨1, 1⟩

/-- The position behind one character that stands here. -/
def step (here : Position) (c : Char) : Position :=
  if c = '\n' then ⟨here.row + 1, 1⟩ else ⟨here.row, here.column + 1⟩

/-- The position behind a text that starts here. -/
def after (here : Position) (text : List Char) : Position :=
  text.foldl step here

@[simp] theorem after_nil (here : Position) : here.after [] = here := rfl

@[simp] theorem after_cons (here : Position) (c : Char) (text : List Char) :
    here.after (c :: text) = (here.step c).after text := rfl

@[simp] theorem after_append (here : Position) (front back : List Char) :
    here.after (front ++ back) = (here.after front).after back :=
  List.foldl_append ..

/-- Cut a text that starts at `here` in front of the character at `target`.  The second part is
    empty when no character of the text stands there. -/
def cut (target : Position) : Position → List Char → List Char × List Char
  | _, [] => ([], [])
  | here, c :: rest =>
    if here = target then ([], c :: rest)
    else
      let (front, back) := target.cut (here.step c) rest
      (c :: front, back)

/-- Cutting loses nothing. -/
theorem cut_append (target here : Position) (text : List Char) :
    (target.cut here text).1 ++ (target.cut here text).2 = text := by
  induction text generalizing here with
  | nil => rfl
  | cons c rest ih =>
    by_cases h : here = target
    · simp [cut, h]
    · simp [cut, h, ih]

end Position

/-- A place in a source text, or `synthetic` for trees without a source text. -/
inductive Location where
  | known (position : Position)
  | synthetic
deriving DecidableEq

/-- A range of byte offsets: `start` is in it, `stop` is not. -/
structure Span where
  start : Nat
  stop : Nat
deriving DecidableEq

/-- The number of bytes of a text in UTF-8. -/
def byteLength (text : List Char) : Nat :=
  text.foldl (fun n c => n + c.utf8Size) 0

namespace Location

/-- The location at a row and a column. -/
def of (row column : Nat) : Location := .known ⟨row, column⟩

/-- Where every text starts. -/
def start : Location := .known .start

/-- The position that a location is shown as. -/
def position : Location → Position
  | .known p => p
  | .synthetic => .start

/-- Whether two locations are taken for one: a synthetic one goes with any other. -/
def same : Location → Location → Bool
  | .known a, .known b => a = b
  | .synthetic, _ => true
  | _, .synthetic => true

/-- Row and column, as every message writes them. -/
def text (location : Location) : String :=
  toString location.position.row ++ ":" ++ toString location.position.column

/-- Cut a source text in front of this location. -/
def cut (location : Location) (source : List Char) : List Char × List Char :=
  match location with
  | .known target => target.cut .start source
  | .synthetic => ([], source)

/-- The byte offset of this location in a source text; its length when nothing stands here. -/
def offsetIn (location : Location) (source : List Char) : Nat :=
  byteLength (location.cut source).1

/-- The bytes of the one character at this location, none behind the end of the text. -/
def spanIn (location : Location) (source : List Char) : Span :=
  let (front, back) := location.cut source
  ⟨byteLength front, byteLength front + byteLength (back.take 1)⟩

end Location
end ExprLang
