import TemplateJsx.Draft.Splice

/-!
# Why a tree cannot be lowered

A tree that was read from a text always fits it; one built by hand need not.  A
delimiter that is not where the tree says, a splice that cannot be made and a
block of impossible shape are reported.  A span that is no part of the text at
all, where even asking for its characters makes no sense, is a fault of its own.
-/

namespace TemplateJsx

/-- A delimiter that the text does not have where the tree says it has to be. -/
inductive DelimiterFault where
  /-- The text does not read like this there. -/
  | expected (word : Text) (span : Span)
  /-- A tag of no characters has no brace that closes it. -/
  | emptyTag (span : Span)
  /-- There is no closing tag in the block. -/
  | missing (keyword : Text) (span : Span)
  /-- The last tag of the block does not end it. -/
  | malformed (keyword : Text) (span : Span)
  deriving DecidableEq, Repr

namespace DelimiterFault

def quoted (word : Text) : String := "`" ++ String.ofList word ++ "`"

def closingTag (keyword : Text) : Text := '{' :: '/' :: keyword ++ ['}']

def message : DelimiterFault → String
  | expected word _ => "expected " ++ quoted word
  | emptyTag _ => "empty tag has no closing " ++ quoted ['}']
  | missing keyword _ => "missing " ++ quoted (closingTag keyword)
  | malformed keyword _ =>
    "malformed " ++ quoted (closingTag keyword) ++ " terminator"

def span : DelimiterFault → Span
  | expected _ span => span
  | emptyTag span => span
  | missing _ span => span
  | malformed _ span => span

end DelimiterFault

/-- A shape that no await block of a template has.  Trees put together by hand
can have it. -/
inductive ShapeFault where
  /-- A body to show meanwhile, and no `then` tag after it. -/
  | pendingWithoutThen (span : Span)
  /-- A `then` tag, and no body to show meanwhile. -/
  | thenWithoutPending (span : Span)
  deriving DecidableEq, Repr

namespace ShapeFault

def message : ShapeFault → String
  | pendingWithoutThen _ =>
    "await block with a pending branch has no `\x7b:then\x7d` tag"
  | thenWithoutPending _ =>
    "short-form await block carries a separate `\x7b:then\x7d` tag"

def span : ShapeFault → Span
  | pendingWithoutThen span => span
  | thenWithoutPending span => span

end ShapeFault

/-- Why a tree cannot be lowered: a delimiter is missing, a block has a wrong
shape, or the draft refuses a splice. -/
inductive Fault where
  | delimiter (fault : DelimiterFault)
  | splice (fault : SpliceFault)
  | shape (fault : ShapeFault)
  /-- A span that is no part of the text. -/
  | offText
  deriving DecidableEq, Repr

namespace Fault

def diagnostic (source : Source) : Fault → Diagnostic
  | delimiter fault =>
    .pointing .delimiter fault.message source fault.span
      (some "the block's recorded positions do not line up with its text") []
  | splice fault => fault.diagnostic source
  | shape fault => .pointing .internal fault.message source fault.span none []
  | offText =>
    { kind := .internal, message := "a recorded span is no part of the text" }

end Fault

end TemplateJsx
