import TemplateJsx.Diagnostic
import TemplateJsx.Order

/-!
# Splices

A splice changes a text at offsets of the text as it was before any change.
Ranges that are overwritten or removed have to be disjoint; insertions may meet
each other and the ends of ranges, but not stand strictly inside a range.
-/

namespace TemplateJsx

/-- A change to a text: an insertion at an offset, a range that other text takes
the place of, or a range that is taken out. -/
inductive Splice where
  /-- Other text in place of a range. -/
  | overwrite (span : Span) (text : Text)
  /-- Nothing in place of a range. -/
  | remove (span : Span)
  /-- Text between two characters. -/
  | insert (offset : Nat) (text : Text)
  deriving DecidableEq, Repr

namespace Splice

/-- The range that a splice replaces; an insertion replaces the empty one at its
offset. -/
def span : Splice → Span
  | overwrite span _ => span
  | remove span => span
  | insert offset _ => Span.point offset

def text : Splice → Text
  | overwrite _ text => text
  | remove _ => []
  | insert _ text => text

def isInsert : Splice → Bool
  | insert _ _ => true
  | _ => false

/-- Two splices that cannot both be made: ranges that overlap, or an insertion
strictly inside a range. -/
def conflictsWith (a b : Splice) : Bool :=
  match a.isInsert, b.isInsert with
  | true, true => false
  | true, false => b.span.start < a.span.start && a.span.start < b.span.stop
  | false, true => a.span.start < b.span.start && b.span.start < a.span.stop
  | false, false => a.span.start < b.span.stop && b.span.start < a.span.stop

/-- The order in which splices come out: by offset, and at one offset insertions
before a range. -/
def atMost (a b : Splice) : Bool :=
  a.span.start < b.span.start ||
    (a.span.start == b.span.start && (a.isInsert || !b.isInsert))

/-- The splices in the order in which they come out; those that tie keep their
order. -/
def ordered (splices : List Splice) : List Splice := sortBy atMost splices

end Splice

/-- Why a splice is refused: its range does not lie in the text, cuts a
character or covers nothing, or it conflicts with an earlier splice. -/
inductive SpliceFault where
  /-- The range is reversed or reaches past the end of a text of this length. -/
  | outside (span : Span) (length : Nat)
  /-- An end of the range lies inside a character. -/
  | splitsCharacter (span : Span)
  /-- There is nothing in the range to replace. -/
  | emptyRange (span : Span)
  /-- The splice conflicts with one made before. -/
  | overlaps (span earlier : Span)
  deriving DecidableEq, Repr

namespace SpliceFault

def range (s : Span) : String :=
  "[" ++ toString s.start ++ ", " ++ toString s.stop ++ ")"

def message : SpliceFault → String
  | outside span length =>
    "range " ++ range span ++ " is outside the text (length " ++
      toString length ++ ")"
  | splitsCharacter span => "range " ++ range span ++ " splits a character"
  | emptyRange span =>
    "empty range at " ++ toString span.start ++
      " cannot be overwritten or removed"
  | overlaps span earlier =>
    "splice " ++ range span ++ " overlaps earlier splice " ++ range earlier

def span : SpliceFault → Span
  | outside span length => span.clamp length
  | splitsCharacter span => span
  | emptyRange span => span
  | overlaps span _ => span

def help : SpliceFault → Option String
  | overlaps _ _ =>
    some "each original range may be rewritten by exactly one splice"
  | _ => none

/-- The other places in the text that a fault is about. -/
def related : SpliceFault → List Label
  | overlaps _ earlier => [⟨earlier, "earlier splice"⟩]
  | _ => []

def diagnostic (source : Source) (f : SpliceFault) : Diagnostic :=
  .pointing .edit f.message source f.span f.help f.related

end SpliceFault

end TemplateJsx
