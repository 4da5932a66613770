import TemplateJsx.Text.Basic

/-!
# The tree of a template

A template is a fragment: a run of sibling nodes.  The control-flow blocks
record the spans of their tags and of the parts inside them, since those are
what lowering splices; every other node records only its own span and the
fragments nested in it.

The types of blocks take the type of fragments as a parameter.  What a block
records about itself is thus kept apart from what is nested in it, and an
operation on blocks that is stated for any `F` cannot look inside the bodies.
-/

namespace TemplateJsx.Markup

/-- A name that a block introduces, or the destructuring pattern in its
place. -/
structure Binding where
  name : Text
  span : Span
  deriving DecidableEq, Repr

/-- A condition and the body it guards.  An `else if` arm spans from its tag to
the end of the whole block. -/
structure Arm (F : Type) where
  /-- The whole block for the first arm; for a later one, from its own tag to
  the end of the block. -/
  span : Span
  tag : Span
  expression : Span
  body : F

/-- A plain `else` tag and the body after it. -/
structure Clause (F : Type) where
  tag : Span
  body : F

/-- A tag that may name a value, and the body after it. -/
structure Handler (F : Type) where
  tag : Span
  value : Option Binding
  body : F

/-- A conditional: its first arm, the `else if` arms and the `else` clause.
Further arms stand next to the first, not inside it. -/
structure IfBlock (F : Type) where
  head : Arm F
  links : List (Arm F)
  otherwise : Option (Clause F)

/-- An iteration over the values of an expression, with the body for each value
and a fallback for when there are none. -/
structure EachBlock (F : Type) where
  span : Span
  tag : Span
  expression : Span
  context : Binding
  /-- The name of the index.  Where it stands is found from the text. -/
  index : Option Text
  key : Option Span
  body : F
  fallback : Option (Clause F)

/-- An awaited expression.  In the long form there is a body to show meanwhile
and a `then` tag; the short form has neither. -/
structure AwaitBlock (F : Type) where
  span : Span
  tag : Span
  expression : Span
  pending : Option F
  thenTag : Option Span
  value : Option Binding
  body : F
  rescue : Option (Handler F)

/-- A control-flow block around bodies `F`.  The kinds of block are generic in
their bodies, so that a fold can replace them. -/
inductive Block (F : Type) where
  | conditional (b : IfBlock F)
  | each (b : EachBlock F)
  | await (b : AwaitBlock F)

/-- What a node is that is no control-flow block.  It is told by its kind and
name alone; its attributes are not recorded. -/
inductive OtherKind where
  | text
  | comment
  | expression
  | element (name : Text)
  | rawText (name : Text)
  | block (name : Text)
  deriving DecidableEq, Repr

/-- A run of sibling nodes `N` and the span they fill. -/
structure FragmentOf (N : Type) where
  span : Span
  nodes : List N

/-- A node of a template: a control-flow block, or anything else with the
fragments nested in it. -/
inductive Node where
  | block (b : Block (FragmentOf Node))
  | other (kind : OtherKind) (span : Span) (children : List (FragmentOf Node))

/-- A run of sibling nodes, such as the body of a block or the content of an
element. -/
abbrev Fragment := FragmentOf Node

namespace IfBlock

variable {F : Type}

def span (b : IfBlock F) : Span := b.head.span

/-- The bodies in the order of the text. -/
def bodies (b : IfBlock F) : List F :=
  b.head.body :: (b.links.map Arm.body ++ (b.otherwise.map Clause.body).toList)

end IfBlock

def EachBlock.bodies {F : Type} (b : EachBlock F) : List F :=
  b.body :: (b.fallback.map Clause.body).toList

def AwaitBlock.bodies {F : Type} (b : AwaitBlock F) : List F :=
  b.pending.toList ++ b.body :: (b.rescue.map Handler.body).toList

namespace Block

variable {F : Type}

def span : Block F → Span
  | conditional b => b.span
  | each b => b.span
  | await b => b.span

/-- The word that opens and closes a block.  The closing tag is looked for by
it. -/
def keyword : Block F → Text
  | conditional _ => "if".toList
  | each _ => "each".toList
  | await _ => "await".toList

def bodies : Block F → List F
  | conditional b => b.bodies
  | each b => b.bodies
  | await b => b.bodies

end Block

/-- The name that an outline gives to a kind of node. -/
def OtherKind.typeName : OtherKind → String
  | text => "Text"
  | comment => "Comment"
  | expression => "MustacheTag"
  | element _ => "Element"
  | rawText _ => "RawText"
  | block _ => "Block"

namespace Node

def span : Node → Span
  | block b => b.span
  | other _ span _ => span

/-- The fragments nested directly in a node, in the order of the text.  Those of
a conditional are the bodies of all its arms. -/
def fragments : Node → List Fragment
  | block b => b.bodies
  | other _ _ children => children

def typeName : Node → String
  | block (.conditional _) => "IfBlock"
  | block (.each _) => "EachBlock"
  | block (.await _) => "AwaitBlock"
  | other kind _ _ => kind.typeName

end Node

end TemplateJsx.Markup
