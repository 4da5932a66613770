import TemplateJsx.Markup.Rule
import TemplateJsx.Markup.Tree
import TemplateJsx.Peg.Matcher
import TemplateJsx.Text.Blank

/-!
# From matched rules to the tree

Each matched rule stands for one piece of the tree, put together from the pieces
of the rules inside it. `assemble` says how, rule by rule; it fails where the
pieces are not those that the rule is made of.
-/

namespace TemplateJsx.Markup

open Peg (Capture)

/-- What a matched rule contributes.  Where several rules contribute alike, the
piece says which of them it was. -/
inductive Piece where
  /-- The fragment of a whole template. -/
  | document (f : Fragment)
  | fragment (f : Fragment)
  | node (n : Node)
  /-- An expression, without the blanks around it. -/
  | expression (rule : Rule) (span : Span)
  | binding (b : Binding)
  /-- The name of an element or block, or of an index. -/
  | name (rule : Rule) (n : Text)
  /-- The key of an iteration, without the blanks around it. -/
  | key (span : Span)
  /-- A tag that holds an expression. -/
  | opening (rule : Rule) (tag expression : Span)
  /-- The opening tag of an iteration; the block's other parts are still to
  come. -/
  | eachOpening (tag expression : Span) (context : Binding)
      (index : Option Text) (key : Option Span)
  /-- The opening tag of the short form of an await block. -/
  | shortOpening (tag expression : Span) (value : Option Binding)
  /-- An `else` tag. -/
  | tag (span : Span)
  /-- A tag that may name a value. -/
  | valueTag (rule : Rule) (span : Span) (value : Option Binding)
  /-- An `else` clause. -/
  | clause (c : Clause Fragment)
  /-- Further arms of a conditional and perhaps an `else` clause. -/
  | links (arms : List (Arm Fragment)) (otherwise : Option (Clause Fragment))
  /-- A `then` or `catch` clause. -/
  | handler (rule : Rule) (h : Handler Fragment)
  /-- A part that the tree does not record. -/
  | unrecorded (rule : Rule)

namespace Piece

def fragment? : Piece → Option Fragment
  | fragment f => some f
  | _ => none

def node? : Piece → Option Node
  | node n => some n
  | _ => none

end Piece

/-- A node without nested fragments. -/
def leaf (kind : OtherKind) (span : Span) : Piece := .node (.other kind span [])

/-- A conditional of these parts.  Every arm is stretched to the end of the
block. -/
def conditional (span tag expression : Span) (body : Fragment)
    (links : List (Arm Fragment)) (otherwise : Option (Clause Fragment)) :
    Piece :=
  let reach (arm : Arm Fragment) : Arm Fragment :=
    { arm with span := ⟨arm.span.start, span.stop⟩ }
  .node (.block (.conditional
    ⟨⟨span, tag, expression, body⟩, links.map reach, otherwise⟩))

def iteration (span tag expression : Span) (context : Binding)
    (index : Option Text) (key : Option Span) (body : Fragment)
    (fallback : Option (Clause Fragment)) : Piece :=
  .node (.block (.each
    ⟨span, tag, expression, context, index, key, body, fallback⟩))

def longAwait (span tag expression : Span) (pending : Fragment)
    (settled : Handler Fragment) (rescue : Option (Handler Fragment)) : Piece :=
  .node (.block (.await ⟨span, tag, expression, some pending, some settled.tag,
    settled.value, settled.body, rescue⟩))

def shortAwait (span tag expression : Span) (value : Option Binding)
    (body : Fragment) (rescue : Option (Handler Fragment)) : Piece :=
  .node (.block (.await
    ⟨span, tag, expression, none, none, value, body, rescue⟩))

def documentPiece : List Piece → Option Piece
  | [.fragment f, .unrecorded .endOfInput] => some (.document f)
  | _ => none

def fragmentPiece (span : Span) (nodes : List Piece) : Option Piece :=
  (nodes.mapM Piece.node?).map fun ns => .fragment ⟨span, ns⟩

/-- A node that is known by a name of some rule; it keeps the fragments among
the pieces after the name. -/
def namedPiece (rule : Rule) (kind : Text → OtherKind) (span : Span) :
    List Piece → Option Piece
  | .name r n :: rest =>
    if r = rule then
      some (.node (.other (kind n) span (rest.filterMap Piece.fragment?)))
    else none
  | _ => none

def openingPiece (rule : Rule) (span : Span) : List Piece → Option Piece
  | [.expression .expression e] => some (.opening rule span e)
  | _ => none

def clausePiece : List Piece → Option Piece
  | [.tag t, .fragment f] => some (.clause ⟨t, f⟩)
  | _ => none

/-- A further arm in front of what follows it.  Its span ends, for the time
being, where its match does. -/
def elseIfPiece (span : Span) : List Piece → Option Piece
  | [.opening .elseIfOpen t e, .fragment f] =>
    some (.links [⟨span, t, e, f⟩] none)
  | [.opening .elseIfOpen t e, .fragment f, .clause c] =>
    some (.links [⟨span, t, e, f⟩] (some c))
  | [.opening .elseIfOpen t e, .fragment f, .links arms o] =>
    some (.links (⟨span, t, e, f⟩ :: arms) o)
  | _ => none

def ifPiece (span : Span) : List Piece → Option Piece
  | [.opening .ifOpen t e, .fragment f, .unrecorded .ifClose] =>
    some (conditional span t e f [] none)
  | [.opening .ifOpen t e, .fragment f, .clause c, .unrecorded .ifClose] =>
    some (conditional span t e f [] (some c))
  | [.opening .ifOpen t e, .fragment f, .links arms o, .unrecorded .ifClose] =>
    some (conditional span t e f arms o)
  | _ => none

/-- The opening tag of an iteration, with or without an index and a key. -/
def eachOpeningPiece (span : Span) : List Piece → Option Piece
  | [.expression .eachExpression e, .binding b] =>
    some (.eachOpening span e b none none)
  | [.expression .eachExpression e, .binding b, .name .eachIndex i] =>
    some (.eachOpening span e b (some i) none)
  | [.expression .eachExpression e, .binding b, .key k] =>
    some (.eachOpening span e b none (some k))
  | [.expression .eachExpression e, .binding b, .name .eachIndex i, .key k] =>
    some (.eachOpening span e b (some i) (some k))
  | _ => none

def eachPiece (span : Span) : List Piece → Option Piece
  | [.eachOpening t e b i k, .fragment f, .unrecorded .eachClose] =>
    some (iteration span t e b i k f none)
  | [.eachOpening t e b i k, .fragment f, .clause c, .unrecorded .eachClose] =>
    some (iteration span t e b i k f (some c))
  | _ => none

def shortOpeningPiece (span : Span) : List Piece → Option Piece
  | [.expression .awaitExpression e, .unrecorded .thenKeyword] =>
    some (.shortOpening span e none)
  | [.expression .awaitExpression e, .unrecorded .thenKeyword, .binding b] =>
    some (.shortOpening span e (some b))
  | _ => none

def valueTagPiece (rule : Rule) (span : Span) : List Piece → Option Piece
  | [] => some (.valueTag rule span none)
  | [.binding b] => some (.valueTag rule span (some b))
  | _ => none

/-- A tag of some rule and the fragment after it. -/
def handlerPiece (rule tag : Rule) : List Piece → Option Piece
  | [.valueTag r t v, .fragment f] =>
    if r = tag then some (.handler rule ⟨t, v, f⟩) else none
  | _ => none

def awaitPiece (span : Span) : List Piece → Option Piece
  | [.shortOpening t e v, .fragment f, .unrecorded .awaitClose] =>
    some (shortAwait span t e v f none)
  | [.shortOpening t e v, .fragment f, .handler .catchClause h,
      .unrecorded .awaitClose] =>
    some (shortAwait span t e v f (some h))
  | [.opening .awaitOpen t e, .fragment p, .handler .thenClause s,
      .unrecorded .awaitClose] =>
    some (longAwait span t e p s none)
  | [.opening .awaitOpen t e, .fragment p, .handler .thenClause s,
      .handler .catchClause h, .unrecorded .awaitClose] =>
    some (longAwait span t e p s (some h))
  | _ => none

/-- The piece of a rule that matched `span`, from the pieces inside it.  There
is none if these are not the parts that the rule is made of. -/
def assemble (text : Text) (rule : Rule) (span : Span) (inner : List Piece) :
    Option Piece :=
  match rule with
  | .document => documentPiece inner
  | .fragment => fragmentPiece span inner
  | .text => some (leaf .text span)
  | .comment => some (leaf .comment span)
  | .mustache => some (leaf .expression span)
  | .voidElement => namedPiece .voidName .element span inner
  | .rawElement => namedPiece .rawName .rawText span inner
  | .element => namedPiece .tagName .element span inner
  | .otherBlock => namedPiece .blockName .block span inner
  | .rawName | .voidName | .tagName | .blockName | .eachIndex =>
    (text.slice? span).map (.name rule)
  | .expression | .eachExpression | .awaitExpression =>
    (text.trimSpan? span).map (.expression rule)
  | .eachKey => (text.trimSpan? span).map .key
  | .binding => (text.slice? span).map fun name => .binding ⟨name, span⟩
  | .ifOpen | .elseIfOpen | .awaitOpen => openingPiece rule span inner
  | .elseTag => some (.tag span)
  | .elseClause => clausePiece inner
  | .elseIf => elseIfPiece span inner
  | .ifBlock => ifPiece span inner
  | .eachOpen => eachOpeningPiece span inner
  | .eachBlock => eachPiece span inner
  | .awaitShortOpen => shortOpeningPiece span inner
  | .thenTag | .catchTag => valueTagPiece rule span inner
  | .thenClause => handlerPiece rule .thenTag inner
  | .catchClause => handlerPiece rule .catchTag inner
  | .awaitBlock => awaitPiece span inner
  | .endOfInput | .ifClose | .eachClose | .awaitClose | .thenKeyword | .attr
  | .attributeName | .attributeValue | .doubleQuotedValue | .doubleQuotedText
  | .singleQuotedValue | .singleQuotedText | .unquotedValue | .rawText
  | .balanced => some (.unrecorded rule)

mutual

/-- The piece of a matched rule, from the captures inside it upwards. -/
def Piece.ofCapture? (text : Text) : Capture Rule → Option Piece
  | .mk rule span inner =>
    (Piece.ofCaptures? text inner).bind (assemble text rule span)

def Piece.ofCaptures? (text : Text) : List (Capture Rule) → Option (List Piece)
  | [] => some []
  | p :: ps => do
    let piece ← Piece.ofCapture? text p
    let pieces ← Piece.ofCaptures? text ps
    return piece :: pieces

end

end TemplateJsx.Markup
