import TemplateJsx.Text.Basic

/-!
# Lines and columns

A position is a zero-based line with a zero-based column, the column counted in
UTF-16 units as source map consumers index strings.  Only a line feed ends a
line.
-/

namespace TemplateJsx

/-- The UTF-16 form of a character: one unit, or a pair of surrogates for a
character that has no room in one. -/
def utf16 (c : Char) : List UInt16 :=
  if c.toNat < 0x10000 then [c.toNat.toUInt16]
  else
    let rest := c.toNat - 0x10000
    [(0xD800 + rest / 0x400).toUInt16, (0xDC00 + rest % 0x400).toUInt16]

/-- The number of units in the UTF-16 form of a character. -/
def unitLength (c : Char) : Nat := (utf16 c).length

def Text.utf16 (t : Text) : List UInt16 := t.flatMap TemplateJsx.utf16

/-- A place in a text by line and UTF-16 column, both counted from zero, as
source maps have it. -/
structure Position where
  line : Nat
  column : Nat
  deriving DecidableEq, Repr, Inhabited

namespace Position

def origin : Position := ⟨0, 0⟩

def step (p : Position) (c : Char) : Position :=
  if c = '\n' then ⟨p.line + 1, 0⟩ else ⟨p.line, p.column + unitLength c⟩

/-- The position after a stretch of text. -/
def after (p : Position) (t : Text) : Position := t.foldl step p

/-- Order of appearance: by line, then by column. -/
def atMost (p q : Position) : Bool :=
  p.line < q.line || (p.line == q.line && p.column ≤ q.column)

@[simp] theorem after_nil (p : Position) : p.after [] = p := rfl

@[simp] theorem after_cons (p : Position) (c : Char) (t : Text) :
    p.after (c :: t) = (p.step c).after t := rfl

@[simp] theorem after_append (p : Position) (s t : Text) :
    p.after (s ++ t) = (p.after s).after t := by
  simp [after, List.foldl_append]

end Position

end TemplateJsx
