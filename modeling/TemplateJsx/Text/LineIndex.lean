import TemplateJsx.Text.Position

/-!
# The table of lines

To turn many offsets of one text into positions, the offsets at which its lines
start are listed once.  The line of an offset is found in that table by halving,
and its column by encoding the text between the start of the line and the
offset.  The way back looks the line up in the table and goes along it.

`Text.position?` and `Text.offset?` are the two ways for a text whose table is
made on the spot.
-/

namespace TemplateJsx

/-- The first number from `low` up to `high` that fails a test, found by
halving; it is `high` if there is none.  The test has to fail from some number
on. -/
def partitionPoint (passes : Nat → Bool) (low high : Nat) : Nat :=
  if low < high then
    let middle := low + (high - low) / 2
    if passes middle then partitionPoint passes (middle + 1) high
    else partitionPoint passes low middle
  else
    low
termination_by high - low

/-- The offsets just past the line feeds of a text that begins at an offset. -/
def Text.feedStops : (offset : Nat) → Text → List Nat
  | _, [] => []
  | offset, c :: t =>
    let stop := offset + c.utf8Size
    if c = '\n' then stop :: feedStops stop t else feedStops stop t

/-- A text and the offsets at which its lines start.  The table is made once for
a text and then answers for every offset by halving. -/
structure LineIndex where
  text : Text
  starts : Array Nat
  starts_eq : starts = (0 :: Text.feedStops 0 text).toArray

namespace LineIndex

def ofText (text : Text) : LineIndex := ⟨text, _, rfl⟩

/-- The last line that starts at or before an offset. -/
def line (x : LineIndex) (offset : Nat) : Nat :=
  partitionPoint (fun i => x.starts[i]?.any (· ≤ offset)) 0 x.starts.size - 1

/-- The position of a byte offset.  An offset past the end stands for the end;
one inside a character has no position. -/
def position? (x : LineIndex) (offset : Nat) : Option Position := do
  let offset := min offset x.text.byteLength
  let line := x.line offset
  let start ← x.starts[line]?
  let inside ← x.text.slice? ⟨start, offset⟩
  return ⟨line, inside.utf16.length⟩

/-- The offset at which a column is reached, going along a text from an offset
and from a column.  The place after the last character counts. -/
def reach? (column : Nat) : (offset units : Nat) → Text → Option Nat
  | offset, units, [] => if units = column then some offset else none
  | offset, units, c :: t =>
    if units = column then some offset
    else reach? column (offset + c.utf8Size) (units + unitLength c) t

/-- The byte offset of a position.  The line feed of a line takes up a column of
that line, so the column past it is one too, and stands for the start of the
next line. -/
def offset? (x : LineIndex) (p : Position) : Option Nat := do
  let start ← x.starts[p.line]?
  let stop := x.starts[p.line + 1]?.getD x.text.byteLength
  let inside ← x.text.slice? ⟨start, stop⟩
  reach? p.column start 0 inside

end LineIndex

namespace Text

def position? (t : Text) (offset : Nat) : Option Position :=
  (LineIndex.ofText t).position? offset

def offset? (t : Text) (p : Position) : Option Nat :=
  (LineIndex.ofText t).offset? p

end Text

@[simp] theorem LineIndex.text_ofText (t : Text) : (ofText t).text = t := rfl

@[simp] theorem LineIndex.position?_ofText (t : Text) (offset : Nat) :
    (ofText t).position? offset = t.position? offset := rfl

end TemplateJsx
