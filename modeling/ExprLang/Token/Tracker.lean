/-
  BYTE OFFSETS: locations found by slicing the source.

  The pieces that the lexer finds have byte offsets.  A `Tracker` turns them into locations: it
  remembers up to which offset rows and columns are counted, slices the source from there to the
  next offset and walks over the slice.  There is no slice inside of a character or past the end
  (`slice?`), so every step of a tracker may fail.

  `tokenize?` is the lexer that carries a tracker along instead of a position.
-/
import ExprLang.Token.Lexer

namespace ExprLang

/-! ## Slices -/

/-- The text in front of a byte offset and the text behind it; none inside of a character and
    past the end. -/
def splitAt? : Nat → List Char → Option (List Char × List Char)
  | 0, text => some ([], text)
  | _ + 1, [] => none
  | n + 1, c :: rest =>
    if c.utf8Size ≤ n + 1 then
      (splitAt? (n + 1 - c.utf8Size) rest).map fun (front, back) => (c :: front, back)
    else none

/-- The text between two byte offsets. -/
def slice? (source : List Char) (start stop : Nat) : Option (List Char) :=
  if start ≤ stop then do
    let (_, behind) ← splitAt? start source
    let (piece, _) ← splitAt? (stop - start) behind
    return piece
  else none

/-- The range of the character that a slice of the source finds behind a location. -/
def Location.slicedSpan? (location : Location) (source : List Char) : Option Span := do
  let start := location.offsetIn source
  let behind ← slice? source start (byteLength source)
  return ⟨start, start + byteLength (behind.take 1)⟩

/-! ## Trackers -/

/-- The byte offset up to which a source is counted, and the position there. -/
structure Tracker where
  offset : Nat
  here : Position

namespace Tracker

def start : Tracker := ⟨0, .start⟩

/-- The location at a byte offset. -/
def locate? (source : List Char) (tracker : Tracker) (offset : Nat) :
    Option (Location × Tracker) := do
  let piece ← slice? source tracker.offset offset
  let here := tracker.here.after piece
  return (.known here, ⟨offset, here⟩)

/-- The locations at some byte offsets, one after the other. -/
def locateAll? (source : List Char) : Tracker → List Nat → Option (List Location)
  | _, [] => some []
  | tracker, offset :: rest => do
    let (location, tracker) ← tracker.locate? source offset
    let locations ← tracker.locateAll? source rest
    return location :: locations

end Tracker

/-! ## The lexer with a tracker -/

/-- The tokens of the text behind a byte offset of the source. -/
def tokenizeAt? (source : List Char) (tracker : Tracker) (offset : Nat) (text : List Char) :
    Option (Except LexError (List Token)) :=
  match _ : scan text with
  | .finished => some (.ok [])
  | .gap skipped rest =>
    -- a block comment is located as tokens are, other gaps are not
    if ['/', '*'].isPrefixOf skipped then do
      let (_, tracker) ← tracker.locate? source offset
      tokenizeAt? source tracker (offset + byteLength skipped) rest
    else tokenizeAt? source tracker (offset + byteLength skipped) rest
  | .token kind spelling rest => do
    let (location, tracker) ← tracker.locate? source offset
    let later ← tokenizeAt? source tracker (offset + byteLength spelling) rest
    return later.map (⟨kind, String.ofList spelling, location⟩ :: ·)
  | .unexpected c => do
    let (location, _) ← tracker.locate? source offset
    return .error (.unexpectedCharacter c location)
  | .unclosed => do
    let (location, _) ← tracker.locate? source offset
    return .error (.unterminatedComment location)
termination_by text.length
decreasing_by
  · exact length_lt_of_append (scan_gap (by assumption))
  · exact length_lt_of_append (scan_gap (by assumption))
  · exact length_lt_of_append (scan_token (by assumption))

/-- The tokens of a source text, located by their byte offsets. -/
def tokenize? (source : String) : Option (Except LexError (List Token)) :=
  tokenizeAt? source.toList .start 0 source.toList

end ExprLang
