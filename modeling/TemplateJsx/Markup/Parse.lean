import TemplateJsx.Diagnostic
import TemplateJsx.Markup.Grammar
import TemplateJsx.Markup.Piece

/-!
# Reading a template

`parse` reads a text as component markup.  A text outside the grammar is refused
with the furthest offset that any rule reached and the rules that would have let
it go on from there.
-/

namespace TemplateJsx.Markup

open Peg (Cursor Outcome Attempts Capture)

/-- Why a text is not read.  Only the first can happen: what the grammar matches
always makes up a tree. -/
inductive ParseFault where
  /-- None of these rules matched at the furthest offset reached. -/
  | unexpected (offset : Nat) (expected : List Rule)
  /-- The matched rules do not make up a tree. -/
  | malformed (span : Span)
  deriving Repr

namespace ParseFault

def message : ParseFault → String
  | unexpected _ expected =>
    "expected " ++ Rule.enumerate (expected.map Rule.label)
  | malformed _ => "malformed markup"

def span : ParseFault → Span
  | unexpected offset _ => Span.point offset
  | malformed span => span

def help : ParseFault → Option String
  | unexpected _ _ =>
    some ("only if/each/await blocks and plain markup are understood; " ++
      "check that every block is closed")
  | malformed _ => none

def diagnostic (source : Source) (f : ParseFault) : Diagnostic :=
  .pointing .parse f.message source f.span f.help []

end ParseFault

/-- The rules noted at the furthest failure, each once, in the order of the
grammar. -/
def expectedRules (a : Attempts Rule) : List Rule :=
  Rule.all.filter fun r => a.rules.contains r

/-- How deep rules may call each other before a character has to be taken.  No
chain of the grammar's rules is longer, so the bound never decides a match. -/
def callDepth : Nat := 8

/-- Matches the whole text against the grammar, with calls as deep as its length
can ask for. -/
def matchDocument (text : Text) : Outcome Rule :=
  grammar.call (callDepth * (text.length + 1)) .document (.start text) .none

/-- Reads a template.  A text that does not match is refused with what was
looked for at the furthest offset that any rule reached. -/
def parse (text : Text) : Except ParseFault Fragment :=
  match matchDocument text with
  | ⟨attempts, none⟩ =>
    .error (.unexpected attempts.offset (expectedRules attempts))
  | ⟨_, some m⟩ =>
    match Piece.ofCaptures? text m.captures with
    | some [.document f] => .ok f
    | _ => .error (.malformed ⟨0, text.byteLength⟩)

end TemplateJsx.Markup
