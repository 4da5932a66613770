import TemplateJsx.Markup.Tree
import TemplateJsx.Proofs.Text.Blank

/-!
# How a tree lies in its text

A tree that was read from a text fits it in two ways.  The tags of a block read
as the block says: `Block.Tagged`.  And nothing of the text is left over between
the parts of a tree: the nodes of a fragment abut and cover it, and so do the
tags and bodies of a block together with its closing tag: `Fragment.Tiled` and
`Block.Laid`.  What a node of another kind has around its children ends each
time as a tag does: `Fenced`.

`Node.Sound` asks both of a node and of all that is nested in it.  What holds of
every sound node is proved by induction on this relation.
-/

namespace TemplateJsx.Markup

/-! ## Spans in a row -/

/-- Spans that lie one after another from an offset to another, with nothing
between them. -/
def Abut : Nat → List Span → Nat → Prop
  | s, [], e => e = s
  | s, x :: xs, e => x.start = s ∧ Abut x.stop xs e

/-- Spans that lie one after another between two offsets, perhaps with something
between them. -/
def Ascend : Nat → List Span → Nat → Prop
  | s, [], e => s ≤ e
  | s, x :: xs, e => s ≤ x.start ∧ Ascend x.stop xs e

@[simp] theorem abut_nil {s e : Nat} : Abut s [] e ↔ e = s := Iff.rfl

@[simp] theorem abut_cons {s e : Nat} {x : Span} {xs : List Span} :
    Abut s (x :: xs) e ↔ x.start = s ∧ Abut x.stop xs e := Iff.rfl

theorem abut_append {s e : Nat} {xs ys : List Span} :
    Abut s (xs ++ ys) e ↔ ∃ m, Abut s xs m ∧ Abut m ys e := by
  induction xs generalizing s with
  | nil => simp
  | cons x xs ih =>
      simp only [List.cons_append, abut_cons, ih]
      constructor
      · rintro ⟨hstart, m, hxs, hys⟩
        exact ⟨m, ⟨hstart, hxs⟩, hys⟩
      · rintro ⟨m, ⟨hstart, hxs⟩, hys⟩
        exact ⟨hstart, m, hxs, hys⟩

/-! ## Ends of tags -/

/-- The text from one offset to another ends in a bracket that closes a tag.
Between the parts of a node that the tree does not record there is always such a
stretch. -/
def EndsTag (t : Text) (s e : Nat) : Prop :=
  ∃ w c, (c = '>' ∨ c = '}') ∧ t.Stands s (w ++ [c]) e

/-- The text before, between and after spans that lie one after another ends as
tags do.  The spans are the fragments of a node, and what lies around them is
its tags. -/
def Fenced (t : Text) : Nat → List Span → Nat → Prop
  | s, [], e => EndsTag t s e
  | s, x :: xs, e => EndsTag t s x.start ∧ Fenced t x.stop xs e

theorem EndsTag.lt {t : Text} {s e : Nat} (h : EndsTag t s e) : s < e := by
  obtain ⟨w, c, -, hstands⟩ := h
  exact hstands.lt (by simp)

theorem EndsTag.prepend {t w : Text} {s m e : Nat} (hw : t.Stands s w m)
    (h : EndsTag t m e) : EndsTag t s e := by
  obtain ⟨v, c, hc, hstands⟩ := h
  refine ⟨w ++ v, c, hc, ?_⟩
  simpa using hw.append hstands

theorem Fenced.ascend {t : Text} {s e : Nat} {xs : List Span}
    (h : Fenced t s xs e) : Ascend s xs e := by
  induction xs generalizing s with
  | nil => exact Nat.le_of_lt (EndsTag.lt h)
  | cons x xs ih => exact ⟨Nat.le_of_lt h.1.lt, ih h.2⟩

/-! ## Tags -/

/-- A tag with an expression: the opening words, white space, the expression,
white space and the brace.  The expression is trimmed, which settles where it
begins and ends. -/
structure ExpressionTag (t opening : Text) (tag expression : Span) : Prop where
  opens : ∃ g, Text.Gap g ∧ t.Stands tag.start (opening ++ g) expression.start
  inside : t.TrimmedAt expression
  closes : ∃ w, Text.Blank w ∧ t.Stands expression.stop (w ++ ['}']) tag.stop

/-- The tag of a later arm of a conditional, with white space between its two
words and in front of the expression. -/
def LinkTag (t : Text) (tag expression : Span) : Prop :=
  ∃ g, Text.Gap g ∧ ExpressionTag t ("\x7b:else".toList ++ g ++ "if".toList)
    tag expression

/-- A tag of one word. -/
def WordTag (t opening : Text) (s e : Nat) : Prop :=
  ∃ w, Text.Blank w ∧ t.Stands s (opening ++ (w ++ ['}'])) e

def ClosingTag (t keyword : Text) (s e : Nat) : Prop :=
  WordTag t ('{' :: '/' :: keyword) s e

theorem WordTag.lt {t opening : Text} {s e : Nat} (h : WordTag t opening s e) :
    s < e := by
  obtain ⟨w, -, hstands⟩ := h
  exact hstands.lt (by simp)

def ValuePart (t : Text) (s : Nat) (value : Option Binding) (e : Nat) : Prop :=
  match value with
  | none => e = s
  | some b =>
    (∃ g, Text.Gap g ∧ t.Stands s g b.span.start) ∧
      t.Stands b.span.start b.name b.span.stop ∧ e = b.span.stop

/-- A tag of one word that may name a value. -/
structure ValueTag (t opening : Text) (tag : Span) (value : Option Binding) :
    Prop where
  opens : ∃ m e, t.Stands tag.start opening m ∧ ValuePart t m value e ∧
    ∃ w, Text.Blank w ∧ t.Stands e (w ++ ['}']) tag.stop

def startsIdentifier (c : Char) : Bool := c.isAlpha || c == '_' || c == '$'

/-- The characters that an identifier may go on with. -/
def continuesIdentifier (c : Char) : Bool :=
  c.isAlphanum || c == '_' || c == '$'

theorem isAlphanum_of_isAlpha {c : Char} (h : c.isAlpha = true) :
    c.isAlphanum = true := by
  change (c.isAlpha || c.isDigit) = true
  rw [h, Bool.true_or]

theorem continuesIdentifier_of_starts {c : Char}
    (h : startsIdentifier c = true) : continuesIdentifier c = true := by
  simp only [startsIdentifier, Bool.or_eq_true] at h
  rcases h with (h | h) | h
  · simp [continuesIdentifier, isAlphanum_of_isAlpha h]
  · simp [continuesIdentifier, h]
  · simp [continuesIdentifier, h]

def IndexPart (t : Text) (s : Nat) (index : Option Text) (e : Nat) : Prop :=
  match index with
  | none => e = s
  | some i =>
    ∃ v w, Text.Blank v ∧ Text.Blank w ∧
      (∃ c ∈ i.head?, startsIdentifier c = true) ∧
      (∀ c ∈ i, continuesIdentifier c = true) ∧
      t.Stands s (v ++ (',' :: w ++ i)) e

/-- A key that the tag of an iteration may have between parentheses. -/
def KeyPart (t : Text) (s : Nat) (key : Option Span) (e : Nat) : Prop :=
  match key with
  | none => e = s
  | some k =>
    ∃ v g h, Text.Blank v ∧ Text.Blank g ∧ Text.Blank h ∧
      t.Stands s (v ++ '(' :: g) k.start ∧
      t.TrimmedAt k ∧ t.Stands k.stop (h ++ [')']) e

/-- The opening tag of an iteration: the list, the word `as`, the binding, and
perhaps an index and a key.  Between them stands white space, as far as the
grammar asks for it. -/
structure EachTag (t : Text) (tag expression : Span) (context : Binding)
    (index : Option Text) (key : Option Span) : Prop where
  opens : ∃ g, Text.Gap g ∧ t.Stands tag.start ("\x7b#each".toList ++ g)
    expression.start
  inside : t.TrimmedAt expression
  joins : ∃ g h, Text.Gap g ∧ Text.Gap h ∧
    t.Stands expression.stop (g ++ ("as".toList ++ h)) context.span.start
  binds : t.Stands context.span.start context.name context.span.stop
  closes : ∃ m e, IndexPart t context.span.stop index m ∧ KeyPart t m key e ∧
    ∃ w, Text.Blank w ∧ t.Stands e (w ++ ['}']) tag.stop

/-- The opening tag of an await block in the short form, which names the value
at once and leaves out the part to show meanwhile. -/
structure ShortTag (t : Text) (tag expression : Span) (value : Option Binding) :
    Prop where
  opens : ∃ g, Text.Gap g ∧ t.Stands tag.start ("\x7b#await".toList ++ g)
    expression.start
  inside : t.TrimmedAt expression
  closes : ∃ g m e, Text.Gap g ∧
    t.Stands expression.stop (g ++ "then".toList) m ∧
    ValuePart t m value e ∧ ∃ w, Text.Blank w ∧ t.Stands e (w ++ ['}']) tag.stop

/-! ## Blocks -/

namespace Block

variable {F : Type}

/-- The tags of a block read as the block says.  With `Laid` this determines the
text of a block but for its bodies. -/
def Tagged (t : Text) : Block F → Prop
  | conditional b =>
    ExpressionTag t "\x7b#if".toList b.head.tag b.head.expression ∧
      (∀ a ∈ b.links, LinkTag t a.tag a.expression) ∧
      ∀ c ∈ b.otherwise, WordTag t "\x7b:else".toList c.tag.start c.tag.stop
  | each b =>
    EachTag t b.tag b.expression b.context b.index b.key ∧
      ∀ c ∈ b.fallback, WordTag t "\x7b:else".toList c.tag.start c.tag.stop
  | await b =>
    (match b.pending, b.thenTag with
      | some _, some tag =>
        ExpressionTag t "\x7b#await".toList b.tag b.expression ∧
          ValueTag t "\x7b:then".toList tag b.value
      | none, none => ShortTag t b.tag b.expression b.value
      | _, _ => False) ∧
      ∀ h ∈ b.rescue, ValueTag t "\x7b:catch".toList h.tag h.value

/-- The tags and bodies of a block in the order of the text, without the closing
tag. -/
def parts : Block Fragment → List Span
  | conditional b =>
    [b.head.tag, b.head.body.span] ++ b.links.flatMap
      (fun a => [a.tag, a.body.span]) ++
      b.otherwise.toList.flatMap fun c => [c.tag, c.body.span]
  | each b =>
    [b.tag, b.body.span] ++ b.fallback.toList.flatMap fun c =>
      [c.tag, c.body.span]
  | await b =>
    b.tag :: (b.pending.toList.map FragmentOf.span ++ b.thenTag.toList ++
      b.body.span :: b.rescue.toList.flatMap fun h => [h.tag, h.body.span])

def laterArms : Block F → List (Arm F)
  | conditional b => b.links
  | _ => []

/-- The tags and bodies of a block abut, its closing tag comes right after them
and ends it, and every later arm runs from its own tag to the end of the
block. -/
structure Laid (t : Text) (b : Block Fragment) : Prop where
  parts : ∃ e, Abut b.span.start b.parts e ∧
    ClosingTag t b.keyword e b.span.stop
  arms : ∀ a ∈ b.laterArms, a.span = ⟨a.tag.start, b.span.stop⟩

end Block

/-! ## Trees -/

/-- Plain text cannot go on here: the text ends, or a tag, a comment or a brace
comes next.  An angle bracket with a blank after it is plain text. -/
def stopsText : Text → Bool
  | [] => true
  | x :: rest =>
    x == '{' || (x == '<' && rest.head?.any fun c =>
      c.isAlpha || c == '/' || c == '!')

/-- Plain text goes as far as it can: it may begin at the start of the span and
not go on at its end. -/
def TextRun (t : Text) (x : Span) : Prop :=
  (∃ rest, t.dropTo? x.start = some rest ∧ stopsText rest = false) ∧
    ∃ rest, t.dropTo? x.stop = some rest ∧ stopsText rest = true

namespace Node

def isText : Node → Bool
  | other .text _ _ => true
  | _ => false

/-- The parts that a node records lie in the text as they should: the tags and
bodies of a block, the children of an element, the run of plain text. -/
def PartsPlaced (t : Text) : Node → Prop
  | block b => b.Laid t ∧ b.Tagged t
  | other kind span children =>
    Ascend span.start (children.map FragmentOf.span) span.stop ∧
      (kind = .text → children = [] ∧ TextRun t span) ∧
      (kind ≠ .text → Fenced t span.start
        (children.map FragmentOf.span) span.stop)

structure Placed (t : Text) (n : Node) : Prop where
  covers : ∃ w, w ≠ [] ∧ t.Stands n.span.start w n.span.stop
  parts : n.PartsPlaced t

end Node

/-- The nodes of a fragment abut and cover its span. -/
structure FragmentOf.Tiled (t : Text) (f : Fragment) : Prop where
  covers : ∃ w, t.Stands f.span.start w f.span.stop
  nodes : Abut f.span.start (f.nodes.map Node.span) f.span.stop

/-- A node that is placed in the text together with all that is nested in it.
It is an inductive predicate, so that the induction over a tree is the induction
over this. -/
inductive Node.Sound (t : Text) : Node → Prop
  | intro {n : Node} (placed : n.Placed t)
      (tiled : ∀ f ∈ n.fragments, f.Tiled t)
      (nested : ∀ f ∈ n.fragments, ∀ m ∈ f.nodes, Node.Sound t m) :
      Node.Sound t n

structure FragmentOf.Sound (t : Text) (f : Fragment) : Prop where
  tiled : f.Tiled t
  nodes : ∀ n ∈ f.nodes, n.Sound t

namespace Node.Sound

variable {t : Text} {n : Node}

theorem placed (h : n.Sound t) : n.Placed t := by
  cases h with
  | intro placed tiled nested => exact placed

theorem fragments (h : n.Sound t) : ∀ f ∈ n.fragments, f.Sound t := by
  cases h with
  | intro placed tiled nested => exact fun f hf => ⟨tiled f hf, nested f hf⟩

/-- A placed node around sound fragments is sound. -/
theorem of_fragments (hplaced : n.Placed t)
    (hfragments : ∀ f ∈ n.fragments, f.Sound t) : n.Sound t :=
  .intro hplaced (fun f hf => (hfragments f hf).tiled)
    (fun f hf => (hfragments f hf).nodes)

end Node.Sound

end TemplateJsx.Markup
