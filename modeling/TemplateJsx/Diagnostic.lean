import TemplateJsx.Text.Basic

/-!
# Diagnostics

A diagnostic is what a failed run reports: its kind, a message, and, when it
points into a template, the template with a main span, perhaps a hint and
further labelled spans.  The texts that surround a message (heading, code) are
fixed here; the messages themselves belong to the modules whose failures they
describe.
-/

namespace TemplateJsx

/-- What sort of failure a diagnostic reports.  It gives a message its heading
and its code. -/
inductive DiagnosticKind where
  /-- The template is outside the grammar. -/
  | parse
  /-- A delimiter promised by the tree is not in the text. -/
  | delimiter
  /-- A splice is out of range or overlaps another one. -/
  | edit
  /-- The source map could not be written. -/
  | sourceMap
  /-- A file could not be read or written. -/
  | io
  /-- The options file is not valid. -/
  | config
  /-- The tree is of a shape that no template has. -/
  | internal
  deriving DecidableEq, Repr

namespace DiagnosticKind

def name : DiagnosticKind → String
  | parse => "parse"
  | delimiter => "delimiter"
  | edit => "edit"
  | sourceMap => "sourcemap"
  | io => "io"
  | config => "config"
  | internal => "internal"

def heading : DiagnosticKind → String
  | parse => "Parse error"
  | delimiter => "Delimiter error"
  | edit => "Edit error"
  | sourceMap => "Source map error"
  | io => "I/O error"
  | config => "Configuration error"
  | internal => "Internal error"

end DiagnosticKind

/-- A template under the name that reports give it. -/
structure Source where
  name : String
  text : Text

/-- A note on a stretch of a template, beside the one that the failure is
about. -/
structure Label where
  span : Span
  note : String
  deriving DecidableEq, Repr

namespace Label

/-- Number of bytes to underline; a label on nothing underlines one. -/
def width (l : Label) : Nat :=
  if l.span.start < l.span.stop then l.span.stop - l.span.start else 1

end Label

structure Excerpt where
  source : Source
  span : Span
  help : Option String
  related : List Label

/-- The report of a failure: what sort it is, a sentence, perhaps the place in a
template where it lies, and perhaps the cause behind it. -/
structure Diagnostic where
  kind : DiagnosticKind
  message : String
  excerpt : Option Excerpt := none
  /-- The text of the failure underneath, such as the reason a file could not be
  read. -/
  cause : Option String := none

namespace Diagnostic

def display (d : Diagnostic) : String := d.kind.heading ++ ": " ++ d.message

def code (d : Diagnostic) : String := "htmlx2jsx::" ++ d.kind.name

def help (d : Diagnostic) : Option String := d.excerpt.bind Excerpt.help

/-- The labels to draw: the message on the main span, then the further ones. -/
def labels (d : Diagnostic) : List Label :=
  match d.excerpt with
  | none => []
  | some e => ⟨e.span, d.message⟩ :: e.related

/-- A diagnostic that points into a template: at a main span, which a hint may
explain, and at further labelled ones. -/
def pointing (kind : DiagnosticKind) (message : String) (source : Source)
    (span : Span) (help : Option String) (related : List Label) : Diagnostic :=
  { kind, message, excerpt := some { source, span, help, related } }

end Diagnostic

end TemplateJsx
