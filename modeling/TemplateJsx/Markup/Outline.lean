import TemplateJsx.Json
import TemplateJsx.Markup.Fold

/-!
# The outline of a template

The tree of a template as a JSON value.  A node is tagged with its `type`, a
variant inside it with its `kind`; the `else if` arms of a conditional appear
nested, each inside the one before it.
-/

namespace TemplateJsx

def Span.outline (s : Span) : Json :=
  .obj [("start", .nat s.start), ("end", .nat s.stop)]

namespace Markup

def Binding.outline (b : Binding) : Json :=
  .obj [("name", .str b.name), ("span", b.span.outline)]

def OtherKind.outline : OtherKind → Json
  | text => .obj [("kind", .str "Text".toList)]
  | comment => .obj [("kind", .str "Comment".toList)]
  | expression => .obj [("kind", .str "Expression".toList)]
  | element name => .obj [("kind", .str "Element".toList), ("name", .str name)]
  | rawText name => .obj [("kind", .str "RawText".toList), ("name", .str name)]
  | block name => .obj [("kind", .str "Block".toList), ("name", .str name)]

def Clause.members (c : Clause Json) : List (String × Json) :=
  [("tag", c.tag.outline), ("body", c.body)]

/-- What an arm holds, in front of the arms and the clause that follow it. -/
def Arm.members (arm : Arm Json) (alternate : Json) : List (String × Json) :=
  [("span", arm.span.outline), ("open", arm.tag.outline),
    ("expression", arm.expression.outline), ("consequent", arm.body),
    ("alternate", alternate)]

/-- What follows the first arm of a conditional. -/
def IfBlock.alternate (otherwise : Option (Clause Json)) :
    List (Arm Json) → Json
  | [] =>
    .ofOption (fun c =>
      .obj (("kind", .str "Else".toList) :: c.members)) otherwise
  | arm :: arms =>
    .obj (("kind", .str "ElseIf".toList) ::
      arm.members (IfBlock.alternate otherwise arms))

/-- What a control-flow block holds.  Parts that are not there are written out
as missing, so that blocks of a kind all have the same members. -/
def Block.outline : Block Json → Json
  | conditional b =>
    .obj (("type", .str "If".toList) :: b.head.members
      (IfBlock.alternate b.otherwise b.links))
  | each b =>
    .obj [("type", .str "Each".toList), ("span", b.span.outline),
      ("open", b.tag.outline), ("expression", b.expression.outline),
      ("context", b.context.outline), ("index", .ofOption .str b.index),
      ("key", .ofOption Span.outline b.key), ("body", b.body),
      ("fallback", .ofOption (fun c => .obj c.members) b.fallback)]
  | await b =>
    .obj [("type", .str "Await".toList), ("span", b.span.outline),
      ("open", b.tag.outline), ("expression", b.expression.outline),
      ("pending",
        match b.pending with
        | some f => .obj [("kind", .str "Present".toList), ("fragment", f)]
        | none => .obj [("kind", .str "Absent".toList)]),
      ("then", .obj [("tag", .ofOption Span.outline b.thenTag),
        ("value", .ofOption Binding.outline b.value), ("body", b.body)]),
      ("catch", .ofOption (fun h : Handler Json =>
        .obj [("tag", h.tag.outline),
          ("error", .ofOption Binding.outline h.value), ("body", h.body)])
        b.rescue)]

def outlineAlgebra : Algebra Json Json where
  block := Block.outline
  other kind span children :=
    .obj [("type", .str "Other".toList), ("kind", kind.outline),
      ("span", span.outline), ("children", .arr children)]
  fragment span nodes := .obj [("span", span.outline), ("nodes", .arr nodes)]

def documentOutline (f : Fragment) : Json :=
  .obj [("fragment", foldFragment outlineAlgebra f)]

end Markup

end TemplateJsx
