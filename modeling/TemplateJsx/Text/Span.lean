/-!
# Spans

A span is a pair of byte offsets into a text.  Nothing forces the two into
order: a tree built by hand may carry any numbers, and the operations below say
what becomes of them.
-/

namespace TemplateJsx

/-- The bytes from `start` up to but not including `stop`.  Nothing keeps the
two in order: a span may come from a tree that was put together by hand. -/
structure Span where
  start : Nat
  stop : Nat
  deriving DecidableEq, Repr, Inhabited

namespace Span

/-- Number of bytes covered; there is none when the span ends before it
starts. -/
def length? (s : Span) : Option Nat :=
  if s.start ≤ s.stop then some (s.stop - s.start) else none

def isEmpty (s : Span) : Bool := s.start == s.stop

def contains (s inner : Span) : Bool :=
  s.start ≤ inner.start && inner.stop ≤ s.stop

def point (offset : Nat) : Span := ⟨offset, offset⟩

/-- Both offsets moved back to `limit` where they lie past it. -/
def clamp (s : Span) (limit : Nat) : Span :=
  ⟨min s.start limit, min s.stop limit⟩

end Span

end TemplateJsx
