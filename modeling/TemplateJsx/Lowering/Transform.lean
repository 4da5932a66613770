import TemplateJsx.Lowering.Block
import TemplateJsx.Markup.Parse
import TemplateJsx.Markup.Walk
import TemplateJsx.Options
import TemplateJsx.SourceMap.Basic

/-!
# From template to JSX

`transform` reads a template, lowers its control-flow blocks in the order of a
walk over the tree and renders the draft once.
-/

namespace TemplateJsx

open Markup (Fragment Node Step ParseFault)

/-- JSX code and the map from it back to the template. -/
structure Output where
  code : Text
  map : SourceMap

/-- Lowering in the course of a walk: the draft is the state, and a fault ends
the walk. -/
abbrev LoweringM := StateT Draft (Except Fault)

/-- Lowers a node that is a control-flow block; other nodes stay as they are.
The walk goes on inside in either case. -/
def lowerNode : Node → LoweringM Step
  | .block b => do
    let d ← get
    let d ← lowerBlock d b
    set d
    return .descend
  | .other _ _ _ => return .descend

/-- The draft of a text after all blocks of its tree are lowered, each before
the blocks inside it. -/
def lower (text : Text) (tree : Fragment) : Except Fault Draft :=
  ((Markup.walkFragment lowerNode tree).run (.ofText text)).map Prod.snd

/-- Wraps the code into one fragment, if that is asked for. -/
def wrap (o : Options) (d : Draft) : Draft :=
  if o.wrapFragment then (d.prepend "<>".toList).append "</>".toList else d

/-- Renders a draft with the source map that is asked for. -/
def render (o : Options) (d : Draft) : Except Fault Output :=
  match d.render? with
  | none => .error .offText
  | some r =>
    .ok ⟨r.code, ⟨o.sourceName, if o.includeSourceContent then some d.text
      else none, r.mappings⟩⟩

/-- Lowers a text by its tree.  The tree need not be that of the text; then a
fault may be the answer. -/
def transformTree (o : Options) (text : Text) (tree : Fragment) :
    Except Fault Output := do
  let d ← lower text tree
  render o (wrap o d)

/-- Why a template is not transformed: it cannot be read, or its tree cannot be
lowered. -/
inductive TransformFault where
  | parse (fault : ParseFault)
  | lowering (fault : Fault)

def TransformFault.diagnostic (source : Source) : TransformFault → Diagnostic
  | parse fault => fault.diagnostic source
  | lowering fault => fault.diagnostic source

/-- **Transforms a template**: reads it, lowers its blocks and renders the
draft. -/
def transform (o : Options) (text : Text) : Except TransformFault Output :=
  match Markup.parse text with
  | .error fault => .error (.parse fault)
  | .ok tree =>
    match transformTree o text tree with
    | .error fault => .error (.lowering fault)
    | .ok output => .ok output

end TemplateJsx
