import TemplateJsx.Text.Basic

/-!
# Blank characters

The white space of a text is that of the Unicode property `White_Space`.
Trimming moves the ends of a span over it.
-/

namespace TemplateJsx

/-- The characters with the property `White_Space`. -/
def isBlank (c : Char) : Bool :=
  let n := c.toNat
  (9 ≤ n && n ≤ 13) || n == 0x20 || n == 0x85 || n == 0xA0 || n == 0x1680 ||
    (0x2000 ≤ n && n ≤ 0x200A) || n == 0x2028 || n == 0x2029 || n == 0x202F ||
    n == 0x205F || n == 0x3000

namespace Text

def trimLeft (t : Text) : Text := t.dropWhile isBlank

def trimRight (t : Text) : Text := (t.reverse.dropWhile isBlank).reverse

def trim (t : Text) : Text := t.trimLeft.trimRight

/-- The part of `span` that is left when the blanks at both ends of the text it
covers are taken away.  When nothing else is there, the empty span at its
start. -/
def trimSpan? (t : Text) (span : Span) : Option Span := do
  let inside ← t.slice? span
  let start := span.start + byteLength (inside.takeWhile isBlank)
  let stop := span.stop - byteLength (inside.reverse.takeWhile isBlank)
  return if start > stop then Span.point span.start else ⟨start, stop⟩

end Text

end TemplateJsx
