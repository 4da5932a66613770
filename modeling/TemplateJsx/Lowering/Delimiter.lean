import TemplateJsx.Lowering.Fault
import TemplateJsx.Text.Alphanumeric
import TemplateJsx.Text.Blank

/-!
# Finding delimiters

The tree gives the spans of tags; splices need the offsets of single characters
inside them.  The functions here turn one into the other and check each against
the text.
-/

namespace TemplateJsx

/-- Offsets are below this bound; a word that reached as far would be off every
text. -/
def offsetBound : Nat := 18446744073709551616

/-- Checks that a word stands at an offset, and gives the offset just past
it. -/
def expectAt (text : Text) (offset : Nat) (word : Text) : Except Fault Nat :=
  let stop := offset + word.byteLength
  if offsetBound ≤ stop then .error .offText
  else if text.slice? ⟨offset, stop⟩ = some word then .ok stop
  else
    .error (.delimiter
      (.expected word (Span.clamp ⟨offset, stop⟩ text.byteLength)))

/-- The offset of the brace that closes a tag, which has to be its last
character. -/
def closingBrace (text : Text) (tag : Span) : Except Fault Nat :=
  if tag.isEmpty then .error (.delimiter (.emptyTag tag))
  else if tag.stop = 0 then .error .offText
  else do
    let _ ← expectAt text (tag.stop - 1) ['}']
    return tag.stop - 1

namespace Text

/-- The bytes before the last occurrence of a character. -/
def lastOffset? (c : Char) : Text → Option Nat
  | [] => none
  | x :: t =>
    match lastOffset? c t with
    | some n => some (x.utf8Size + n)
    | none => if x = c then some 0 else none

/-- The offsets at which a word occurs from `offset` on, the occurrences taken
from the left so that none overlaps the one before it.  The first `skip`
characters belong to an occurrence already found. -/
def occurrences (word : Text) : (skip offset : Nat) → Text → List Nat
  | _, offset, [] => if word.isEmpty then [offset] else []
  | skip + 1, offset, c :: t => occurrences word skip (offset + c.utf8Size) t
  | 0, offset, c :: t =>
    if word.isPrefixOf (c :: t) then
      offset :: occurrences word (word.length - 1) (offset + c.utf8Size) t
    else
      occurrences word 0 (offset + c.utf8Size) t

end Text

/-- The offset of a block's closing tag: that of the last opening brace in the
block, from which on the text has to read as the closing tag and end as the
block does. -/
def terminator (text : Text) (block : Span) (keyword : Text) :
    Except Fault Nat :=
  let body := (text.slice? block).getD []
  match body.lastOffset? '{' with
  | none => .error (.delimiter (.missing keyword block))
  | some before => do
    let start := block.start + before
    let tagStop ← expectAt text start ('{' :: '/' :: keyword)
    match text.slice? ⟨tagStop, block.stop⟩ with
    | none => .error .offText
    | some rest =>
      if rest.trimLeft.head? = some '}' ∧ body.getLast? =
        some '}' then .ok start
      else .error (.delimiter (.malformed keyword ⟨start, block.stop⟩))

/-- No character that continues an identifier stands directly before or
after. -/
def standsAlone (text : Text) (start stop : Nat) : Except Fault Bool :=
  match text.splitAt? start, text.splitAt? stop with
  | some (before, _), some (_, after) =>
    .ok (!(before.getLast?.any isWordChar) && !(after.head?.any isWordChar))
  | _, _ => .error .offText

/-- The first of these offsets at which the word stands alone. -/
def firstAlone? (text word : Text) : List Nat → Except Fault (Option Nat)
  | [] => .ok none
  | offset :: rest => do
    if ← standsAlone text offset (offset + word.byteLength) then
      return some offset
    else firstAlone? text word rest

/-- The offset of the first occurrence of a word between two offsets that stands
alone. -/
def findWord (text : Text) (start stop : Nat) (word : Text) :
    Except Fault Nat := do
  let window : Span := ⟨min start stop, stop⟩
  let inside := (text.slice? window).getD []
  match ← firstAlone? text word
    (Text.occurrences word 0 window.start inside) with
  | some offset => return offset
  | none => .error (.delimiter (.expected word window))

end TemplateJsx
