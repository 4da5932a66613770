import TemplateJsx.Proofs.Markup.Layout

/-!
# Templates without offsets

A sketch is what a template says and nothing about where it says it.  Its words
are of types that hold only words of the right form, and plain text is never
followed by plain text: a run of nodes has room for at most one text in front of
each node and at its end.

`Content.print` writes a sketch down in one way: a single space where the
grammar asks for white space, after the comma of an index and in front of a key,
and none anywhere else.  `Content.Depicted` says that a tree is the sketch with
spans in it.  The tree has the same shape and the same names, and every span
that it records cuts out of the text just what was written for that part.
-/

namespace TemplateJsx.Markup

/-! ## Words -/

/-- A letter, `_` or `$`, and then perhaps digits too. -/
def isIdentifier : Text → Bool
  | [] => false
  | c :: w => startsIdentifier c && w.all continuesIdentifier

structure Identifier where
  text : Text
  valid : isIdentifier text = true

/-- Some characters that begin neither a tag nor a block. -/
def isPlain (w : Text) : Bool :=
  !w.isEmpty && w.all fun c => c != '{' && c != '<'

structure PlainText where
  text : Text
  valid : isPlain text = true

/-- The names of elements whose content is not markup. -/
def rawNames : List String := ["script", "style"]

def voidNames : List String :=
  ["!doctype", "area", "base", "br", "col", "embed", "hr", "img", "input",
    "link", "meta", "param", "source", "track", "wbr"]

/-- Some lower-case letters that are no name of the two lists, and so the name
of an element with markup inside. -/
def isElementName (w : Text) : Bool :=
  !w.isEmpty && w.all Char.isLower &&
    !((rawNames ++ voidNames).map String.toList).contains w

structure ElementName where
  text : Text
  valid : isElementName text = true

def blockKeywords : List String := ["if", "each", "await"]

/-- Some letters that are none of these words. -/
def isBlockName (w : Text) : Bool :=
  !w.isEmpty && w.all Char.isAlpha &&
    !(blockKeywords.map String.toList).contains w

structure BlockName where
  text : Text
  valid : isBlockName text = true

/-! ## Sketches -/

mutual

/-- A node other than plain text: all kinds of blocks, elements and expression
tags, with identifiers for expressions.  A sketch has no spans, and is what
someone has in mind who writes a template. -/
inductive Sketch where
  | mustache (e : Identifier)
  | element (name : ElementName) (content : Content)
  | block (name : BlockName) (content : Content)
  | conditional (e : Identifier) (body : Content) (rest : Alternative)
  | each (e context : Identifier) (index key : Option Identifier)
      (body : Content) (fallback : Fallback)
  /-- The long form. -/
  | await (e : Identifier) (pending : Content) (value : Option Identifier)
      (body : Content) (rescue : Rescue)
  /-- The short form. -/
  | awaitThen (e : Identifier) (value : Option Identifier) (body : Content)
      (rescue : Rescue)

/-- A run of nodes with plain text between them.  That no two plain texts stand
side by side is part of the type. -/
inductive Content where
  | done (lead : Option PlainText)
  | next (lead : Option PlainText) (node : Sketch) (rest : Content)

/-- What follows the first body of a conditional. -/
inductive Alternative where
  | none
  | otherwise (body : Content)
  | link (e : Identifier) (body : Content) (rest : Alternative)

/-- What follows the body of an iteration. -/
inductive Fallback where
  | none
  | otherwise (body : Content)

/-- What follows the last body of an await block. -/
inductive Rescue where
  | none
  | handler (value : Option Identifier) (body : Content)

end

/-! ## Writing a sketch down -/

def expressionTagText (opening : Text) (e : Identifier) : Text :=
  opening ++ ' ' :: (e.text ++ ['}'])

def ifTagText (e : Identifier) : Text := expressionTagText "\x7b#if".toList e

def linkTagText (e : Identifier) : Text :=
  expressionTagText ("\x7b:else".toList ++ ' ' :: "if".toList) e

def awaitTagText (e : Identifier) : Text :=
  expressionTagText "\x7b#await".toList e

def wordTagText (opening : Text) : Text := opening ++ ['}']

def valueText : Option Identifier → Text
  | none => []
  | some v => ' ' :: v.text

def valueTagText (opening : Text) (v : Option Identifier) : Text :=
  opening ++ (valueText v ++ ['}'])

def shortTagText (e : Identifier) (v : Option Identifier) : Text :=
  "\x7b#await".toList ++ ' ' ::
    (e.text ++ ' ' :: ("then".toList ++ (valueText v ++ ['}'])))

def indexText : Option Identifier → Text
  | none => []
  | some i => ',' :: ' ' :: i.text

def keyText : Option Identifier → Text
  | none => []
  | some k => ' ' :: '(' :: (k.text ++ [')'])

def eachTagText (e context : Identifier) (index key : Option Identifier) :
    Text :=
  "\x7b#each".toList ++ ' ' ::
    (e.text ++ ' ' :: ("as".toList ++ ' ' :: (context.text ++
    (indexText index ++ (keyText key ++ ['}'])))))

def leadText : Option PlainText → Text
  | none => []
  | some w => w.text

mutual

/-- A node as text, in the plainest way to write it: one blank where white space
has to be, and none elsewhere. -/
def Sketch.print : Sketch → Text
  | .mustache e => '{' :: (e.text ++ ['}'])
  | .element name content =>
    '<' :: (name.text ++ '>' ::
      (content.print ++ '<' :: '/' :: (name.text ++ ['>'])))
  | .block name content =>
    '{' :: '#' :: (name.text ++
      '}' :: (content.print ++ '{' :: '/' :: (name.text ++ ['}'])))
  | .conditional e body rest =>
    ifTagText e ++ (body.print ++ (rest.print ++ wordTagText "\x7b/if".toList))
  | .each e context index key body fallback =>
    eachTagText e context index key ++
      (body.print ++ (fallback.print ++ wordTagText "\x7b/each".toList))
  | .await e pending value body rescue =>
    awaitTagText e ++ (pending.print ++
      ((valueTagText "\x7b:then".toList value ++ body.print) ++
      (rescue.print ++ wordTagText "\x7b/await".toList)))
  | .awaitThen e value body rescue =>
    shortTagText e value ++ (body.print ++
      (rescue.print ++ wordTagText "\x7b/await".toList))

/-- A run of nodes as text. -/
def Content.print : Content → Text
  | .done lead => leadText lead
  | .next lead node rest => leadText lead ++ (node.print ++ rest.print)

def Alternative.print : Alternative → Text
  | .none => []
  | .otherwise body => wordTagText "\x7b:else".toList ++ body.print
  | .link e body rest => linkTagText e ++ (body.print ++ rest.print)

def Fallback.print : Fallback → Text
  | .none => []
  | .otherwise body => wordTagText "\x7b:else".toList ++ body.print

def Rescue.print : Rescue → Text
  | .none => []
  | .handler value body => valueTagText "\x7b:catch".toList value ++ body.print

end

example :
    (Content.next none (.each ⟨"as".toList, rfl⟩ ⟨"x".toList, rfl⟩
        (some ⟨"i".toList, rfl⟩) (some ⟨"k".toList, rfl⟩)
        (.next (some ⟨"a ".toList, rfl⟩)
          (.element ⟨"b".toList, rfl⟩ (.done none)) (.done none))
        (.otherwise
          (.next none (.awaitThen ⟨"p".toList, rfl⟩ none (.done none)
            (.handler (some ⟨"e".toList, rfl⟩) (.done none))) (.done none))))
      (.done (some ⟨"!".toList, rfl⟩))).print =
    ("\x7b#each as as x, i (k)\x7da <b></b>\x7b:else\x7d" ++
      "\x7b#await p then\x7d\x7b:catch e\x7d\x7b/await\x7d" ++
      "\x7b/each\x7d!").toList := by
  decide

/-! ## Trees of a sketch -/

variable (t : Text)

/-- Plain text that may be there comes first among these nodes, and the others
after it. -/
def LeadDepicted (lead : Option PlainText) (ns rest : List Node) : Prop :=
  match lead with
  | none => ns = rest
  | some w => ∃ x, ns = .other .text x [] :: rest ∧ t.slice? x = some w.text

/-- A binding has the name of an identifier and stands where it was written. -/
def BindingDepicted (v : Identifier) (b : Binding) : Prop :=
  b.name = v.text ∧ t.slice? b.span = some v.text

/-- A value is named just when there is an identifier for it. -/
def ValueDepicted : Option Identifier → Option Binding → Prop
  | none, b => b = none
  | some v, b => ∃ b', b = some b' ∧ BindingDepicted t v b'

/-- A key is recorded just when there is an identifier for it. -/
def KeyDepicted : Option Identifier → Option Span → Prop
  | none, x => x = none
  | some k, x => ∃ x', x = some x' ∧ t.slice? x' = some k.text

/-- The span of a fragment cuts out a text, and its nodes are as they should
be. -/
def Framed (w : Text) (nodes : List Node → Prop) (f : Fragment) : Prop :=
  t.slice? f.span = some w ∧ nodes f.nodes

mutual

/-- A node is a sketch with spans in it: the same kind, the same names, and
every span cuts out of the text what was written for its part. -/
def Sketch.Depicted : Sketch → Node → Prop
  | .mustache e, n =>
    ∃ x, n = .other .expression x [] ∧ t.slice? x =
      some (Sketch.mustache e).print
  | .element name content, n =>
    ∃ x f, n = .other (.element name.text) x [f] ∧
      t.slice? x = some (Sketch.element name content).print ∧
      Framed t content.print content.Depicted f
  | .block name content, n =>
    ∃ x f, n = .other (.block name.text) x [f] ∧
      t.slice? x = some (Sketch.block name content).print ∧
      Framed t content.print content.Depicted f
  | .conditional e body rest, n =>
    ∃ b, n = .block (.conditional b) ∧ t.slice? b.head.span =
      some (Sketch.conditional e body rest).print ∧
      t.slice? b.head.tag = some (ifTagText e) ∧
      t.slice? b.head.expression = some e.text ∧
      Framed t body.print body.Depicted b.head.body ∧
      rest.Depicted b.links b.otherwise
  | .each e context index key body fallback, n =>
    ∃ b, n = .block (.each b) ∧ t.slice? b.span =
      some (Sketch.each e context index key body fallback).print ∧
      t.slice? b.tag = some (eachTagText e context index key) ∧
      t.slice? b.expression = some e.text ∧
      BindingDepicted t context b.context ∧
      b.index = index.map Identifier.text ∧ KeyDepicted t key b.key ∧
      Framed t body.print body.Depicted b.body ∧ fallback.Depicted b.fallback
  | .await e pending value body rescue, n =>
    ∃ b, n = .block (.await b) ∧ t.slice? b.span =
      some (Sketch.await e pending value body rescue).print ∧
      t.slice? b.tag = some (awaitTagText e) ∧
      t.slice? b.expression = some e.text ∧
      (∃ f, b.pending = some f ∧ Framed t pending.print pending.Depicted f) ∧
      (∃ x, b.thenTag = some x ∧ t.slice? x =
        some (valueTagText "\x7b:then".toList value)) ∧
      ValueDepicted t value b.value ∧ Framed t body.print body.Depicted b.body ∧
      rescue.Depicted b.rescue
  | .awaitThen e value body rescue, n =>
    ∃ b, n = .block (.await b) ∧ t.slice? b.span =
      some (Sketch.awaitThen e value body rescue).print ∧
      t.slice? b.tag = some (shortTagText e value) ∧
      t.slice? b.expression = some e.text ∧ b.pending = none ∧
      b.thenTag = none ∧ ValueDepicted t value b.value ∧
      Framed t body.print body.Depicted b.body ∧
      rescue.Depicted b.rescue

/-- Nodes are a run of nodes with spans in them. -/
def Content.Depicted : Content → List Node → Prop
  | .done lead, ns => LeadDepicted t lead ns []
  | .next lead node rest, ns =>
    ∃ n ms, LeadDepicted t lead ns (n :: ms) ∧ node.Depicted n ∧
      rest.Depicted ms

def Alternative.Depicted :
    Alternative → List (Arm Fragment) → Option (Clause Fragment) → Prop
  | .none, arms, c => arms = [] ∧ c = none
  | .otherwise body, arms, c =>
    arms = [] ∧ ∃ c', c = some c' ∧ t.slice? c'.tag =
      some (wordTagText "\x7b:else".toList) ∧
      Framed t body.print body.Depicted c'.body
  | .link e body rest, arms, c =>
    ∃ arm arms', arms = arm :: arms' ∧ t.slice? arm.tag = some (linkTagText e) ∧
      t.slice? arm.expression = some e.text ∧
      Framed t body.print body.Depicted arm.body ∧ rest.Depicted arms' c

def Fallback.Depicted : Fallback → Option (Clause Fragment) → Prop
  | .none, c => c = none
  | .otherwise body, c =>
    ∃ c', c = some c' ∧ t.slice? c'.tag =
      some (wordTagText "\x7b:else".toList) ∧
      Framed t body.print body.Depicted c'.body

def Rescue.Depicted : Rescue → Option (Handler Fragment) → Prop
  | .none, h => h = none
  | .handler value body, h =>
    ∃ h', h = some h' ∧ t.slice? h'.tag =
      some (valueTagText "\x7b:catch".toList value) ∧
      ValueDepicted t value h'.value ∧ Framed t body.print body.Depicted h'.body

end

end TemplateJsx.Markup
