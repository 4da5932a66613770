import TemplateJsx.Proofs.Markup.Tiling

/-!
# The parts of tags

A tag is made of parts one after another: fixed words, white space that may or
must be there, and the spans and names that its block records.  `Tag.Reads` says
that the text of a tag is just such a list of parts, with nothing between them,
and the lists for the tags of each kind of block are below.

`parse_tags_read` says that in the tree of a text every tag reads as its block
says.  The two forms of an await block are told apart by it: after the
expression comes either the closing brace or the word `then`
(`Tag.Reads.not_short`).
-/

namespace TemplateJsx.Markup

/-- A part of a tag: a given word, white space that may or must be there, an
expression, or a binding. -/
inductive TagPart where
  /-- Just these characters. -/
  | word (w : Text)
  /-- White space, perhaps none. -/
  | blank
  /-- White space that has to be there. -/
  | gap
  /-- The span of an expression, which has no white space at its ends. -/
  | expression (x : Span)
  /-- A binding, whose name is the text at its span. -/
  | binding (b : Binding)

/-- A part stands between two offsets of a text. -/
def TagPart.At (t : Text) (s : Nat) : TagPart → Nat → Prop
  | word w, e => t.Stands s w e
  | blank, e => ∃ w, Text.Blank w ∧ t.Stands s w e
  | gap, e => ∃ w, Text.Gap w ∧ t.Stands s w e
  | expression x, e => x = ⟨s, e⟩ ∧ t.TrimmedAt x
  | binding b, e => b.span = ⟨s, e⟩ ∧ t.Stands s b.name e

namespace Tag

/-- Parts stand one after another from an offset to another, with nothing
between them.  Each kind of tag is then a list of parts, which can be read like
the tag itself. -/
def Reads (t : Text) : Nat → List TagPart → Nat → Prop
  | s, [], e => e = s
  | s, part :: parts, e => ∃ m, part.At t s m ∧ Reads t m parts e

/-! ## The tags of blocks -/

/-- A word, an expression and the brace at the end. -/
def ofExpression (opening : Text) (x : Span) : List TagPart :=
  [.word opening, .gap, .expression x, .blank, .word "\x7d".toList]

def ofLink (x : Span) : List TagPart :=
  [.word "\x7b:else".toList, .gap, .word "if".toList, .gap, .expression x,
    .blank, .word "\x7d".toList]

def ofWord (opening : Text) : List TagPart :=
  [.word opening, .blank, .word "\x7d".toList]

def ofIndex : Option Text → List TagPart
  | none => []
  | some i => [.blank, .word ",".toList, .blank, .word i]

def ofKey : Option Span → List TagPart
  | none => []
  | some k =>
    [.blank, .word "(".toList, .blank, .expression k, .blank, .word ")".toList]

/-- The opening tag of an iteration. -/
def ofEach (x : Span) (context : Binding) (index : Option Text)
    (key : Option Span) : List TagPart :=
  [.word "\x7b#each".toList, .gap, .expression x, .gap, .word "as".toList, .gap,
    .binding context] ++
    (ofIndex index ++ (ofKey key ++ [.blank, .word "\x7d".toList]))

def ofValue : Option Binding → List TagPart
  | none => []
  | some b => [.gap, .binding b]

def ofHandler (opening : Text) (value : Option Binding) : List TagPart :=
  .word opening :: (ofValue value ++ [.blank, .word "\x7d".toList])

def ofShort (x : Span) (value : Option Binding) : List TagPart :=
  [.word "\x7b#await".toList, .gap, .expression x, .gap] ++
    ofHandler "then".toList value

end Tag

/-- The tags of an await block read as the block says, and the form of the
opening one tells whether there is a body to show meanwhile. -/
structure AwaitBlock.TagsRead {F : Type} (t : Text) (b : AwaitBlock F) :
    Prop where
  long : b.pending.isSome = true ↔ Tag.Reads t b.tag.start
    (Tag.ofExpression "\x7b#await".toList b.expression) b.tag.stop
  short : b.pending.isSome = false ↔
    ∃ value, Tag.Reads t b.tag.start (Tag.ofShort b.expression value) b.tag.stop
  /-- The value that the short form names is the one that the block records. -/
  value : b.pending.isSome = false →
    Tag.Reads t b.tag.start (Tag.ofShort b.expression b.value) b.tag.stop
  /-- Just the long form has a tag of its own for the value. -/
  continued : b.pending.isSome = b.thenTag.isSome
  thenTag : ∀ tag ∈ b.thenTag,
    Tag.Reads t tag.start (Tag.ofHandler "\x7b:then".toList b.value) tag.stop
  rescue : ∀ h ∈ b.rescue, Tag.Reads t h.tag.start
    (Tag.ofHandler "\x7b:catch".toList h.value) h.tag.stop

/-- The tags of a block read as the block says.  This is stated in lists of
parts alone, and can be checked against the text without a look at the
grammar. -/
def Block.TagsRead {F : Type} (t : Text) : Block F → Prop
  | conditional b =>
    Tag.Reads t b.head.tag.start
      (Tag.ofExpression "\x7b#if".toList b.head.expression) b.head.tag.stop ∧
      (∀ a ∈ b.links, Tag.Reads t a.tag.start (Tag.ofLink a.expression)
        a.tag.stop) ∧
      ∀ c ∈ b.otherwise, Tag.Reads t c.tag.start
        (Tag.ofWord "\x7b:else".toList) c.tag.stop
  | each b =>
    Tag.Reads t b.tag.start
      (Tag.ofEach b.expression b.context b.index b.key) b.tag.stop ∧
      ∀ c ∈ b.fallback, Tag.Reads t c.tag.start
        (Tag.ofWord "\x7b:else".toList) c.tag.stop
  | await b => b.TagsRead t

/-! ## Rows of parts -/

variable {t : Text} {s m e : Nat} {parts rest : List TagPart}

namespace Tag

theorem Reads.append (h : Reads t s parts m) (hrest : Reads t m rest e) :
    Reads t s (parts ++ rest) e := by
  induction parts generalizing s with
  | nil => rwa [show m = s from h] at hrest
  | cons part parts ih =>
      obtain ⟨k, hpart, hparts⟩ := h
      exact ⟨k, hpart, ih hparts⟩

theorem reads_blank_word {w v : Text} (hw : Text.Blank w)
    (h : t.Stands s (w ++ v) e) :
    Reads t s [.blank, .word v] e := by
  obtain ⟨hfirst, hlast⟩ := h.split
  exact ⟨_, ⟨w, hw, hfirst⟩, _, hlast, rfl⟩

theorem reads_word_gap {v g : Text} (hg : Text.Gap g)
    (h : t.Stands s (v ++ g) e) : Reads t s [.word v, .gap] e := by
  obtain ⟨hfirst, hlast⟩ := h.split
  exact ⟨_, hfirst, _, ⟨g, hg, hlast⟩, rfl⟩

theorem reads_expression {x : Span} (h : t.TrimmedAt x) :
    Reads t x.start [.expression x] x.stop :=
  ⟨_, ⟨rfl, h⟩, rfl⟩

theorem reads_binding {b : Binding}
    (h : t.Stands b.span.start b.name b.span.stop) :
    Reads t b.span.start [.binding b] b.span.stop :=
  ⟨_, ⟨rfl, h⟩, rfl⟩

end Tag

/-! ## Each sort of tag -/

open Tag

theorem ExpressionTag.reads {opening : Text} {tag x : Span}
    (h : ExpressionTag t opening tag x) :
    Reads t tag.start (ofExpression opening x) tag.stop := by
  obtain ⟨⟨g, hg, hopens⟩, hinside, w, hw, hcloses⟩ := h
  exact (reads_word_gap hg hopens).append
    ((reads_expression hinside).append (reads_blank_word hw hcloses))

theorem LinkTag.reads {tag x : Span} (h : LinkTag t tag x) :
    Reads t tag.start (ofLink x) tag.stop := by
  obtain ⟨k, hk, ⟨g, hg, hopens⟩, hinside, w, hw, hcloses⟩ := h
  rw [List.append_assoc] at hopens
  obtain ⟨helse, hif⟩ := hopens.split
  exact (reads_word_gap hk helse).append ((reads_word_gap hg hif).append
    ((reads_expression hinside).append (reads_blank_word hw hcloses)))

theorem WordTag.reads {opening : Text} (h : WordTag t opening s e) :
    Reads t s (ofWord opening) e := by
  obtain ⟨w, hw, hstands⟩ := h
  obtain ⟨hword, hend⟩ := hstands.split
  exact ⟨_, hword, reads_blank_word hw hend⟩

theorem IndexPart.reads {index : Option Text} (h : IndexPart t s index e) :
    Reads t s (ofIndex index) e := by
  cases index with
  | none => exact h
  | some i =>
      obtain ⟨v, w, hv, hw, -, -, hstands⟩ := h
      obtain ⟨hblank, hrest⟩ := hstands.split
      obtain ⟨hcomma, hindex⟩ :=
        (show t.Stands _ ([','] ++ (w ++ i)) e by simpa using hrest).split
      exact ⟨_, ⟨v, hv, hblank⟩, _, hcomma, reads_blank_word hw hindex⟩

theorem KeyPart.reads {key : Option Span} (h : KeyPart t s key e) :
    Reads t s (ofKey key) e := by
  cases key with
  | none => exact h
  | some k =>
      obtain ⟨v, g, w, hv, hg, hw, hopens, hinside, hcloses⟩ := h
      obtain ⟨hblank, hrest⟩ := hopens.split
      obtain ⟨hopen, hgap⟩ :=
        (show t.Stands _ (['('] ++ g) k.start from hrest).split
      exact ⟨_, ⟨v, hv, hblank⟩, _, hopen, _, ⟨g, hg, hgap⟩,
        (reads_expression hinside).append (reads_blank_word hw hcloses)⟩

theorem EachTag.reads {tag x : Span} {context : Binding} {index : Option Text}
    {key : Option Span} (h : EachTag t tag x context index key) :
    Reads t tag.start (ofEach x context index key) tag.stop := by
  obtain ⟨⟨g, hg, hopens⟩, hinside, ⟨g₁, g₂, hg₁, hg₂, hjoins⟩, hbinds, m, e,
      hindex, hkey, w, hw, hcloses⟩ := h
  obtain ⟨hgap, has⟩ := hjoins.split
  have hhead : Reads t tag.start
      [.word "\x7b#each".toList, .gap, .expression x] x.stop :=
    (reads_word_gap hg hopens).append (reads_expression hinside)
  have hjoin : Reads t x.stop [.gap, .word "as".toList, .gap, .binding context]
      context.span.stop :=
    ⟨_, ⟨g₁, hg₁, hgap⟩, (reads_word_gap hg₂ has).append (reads_binding hbinds)⟩
  exact (hhead.append hjoin).append
    (hindex.reads.append (hkey.reads.append (reads_blank_word hw hcloses)))

theorem ValuePart.reads {value : Option Binding} (h : ValuePart t s value e) :
    Reads t s (ofValue value) e := by
  cases value with
  | none => exact h
  | some b =>
      obtain ⟨hgap, hname, rfl⟩ := h
      exact ⟨_, hgap, reads_binding hname⟩

theorem ValuePart.reads_handler {opening : Text} {value : Option Binding}
    {k : Nat} (hword : t.Stands s opening m) (hvalue : ValuePart t m value k)
    (hend : ∃ w, Text.Blank w ∧ t.Stands k (w ++ ['}']) e) :
    Reads t s (ofHandler opening value) e := by
  obtain ⟨w, hw, hcloses⟩ := hend
  exact ⟨_, hword, hvalue.reads.append (reads_blank_word hw hcloses)⟩

theorem ValueTag.reads {opening : Text} {tag : Span} {value : Option Binding}
    (h : ValueTag t opening tag value) :
    Reads t tag.start (ofHandler opening value) tag.stop := by
  obtain ⟨m, k, hword, hvalue, hend⟩ := h.opens
  exact hvalue.reads_handler hword hend

theorem ShortTag.reads {tag x : Span} {value : Option Binding}
    (h : ShortTag t tag x value) :
    Reads t tag.start (ofShort x value) tag.stop := by
  obtain ⟨⟨g, hg, hopens⟩, hinside, g', m, k, hg', hthen, hvalue, hend⟩ := h
  obtain ⟨hgap, hword⟩ := hthen.split
  have hhead : Reads t tag.start
      [.word "\x7b#await".toList, .gap, .expression x] x.stop :=
    (reads_word_gap hg hopens).append (reads_expression hinside)
  have hjoin : Reads t x.stop [.gap] (x.stop + g'.byteLength) :=
    ⟨_, ⟨g', hg', hgap⟩, rfl⟩
  exact (hhead.append hjoin).append (hvalue.reads_handler hword hend)

/-! ## The two forms of an await block -/

theorem Text.Blank.next_eq {v w u r : Text} {c d : Char} (hv : Text.Blank v)
    (hw : Text.Blank w) (hc : isBlank c = false) (hd : isBlank d = false)
    (h : v ++ c :: u = w ++ d :: r) : c = d := by
  have htake := congrArg (List.takeWhile isBlank) h
  rw [Text.takeWhile_blank_append hv (by simpa using hc),
    Text.takeWhile_blank_append hw (by simpa using hd)] at htake
  subst htake
  exact (List.cons.inj (List.append_cancel_left h)).1

/-- A tag does not read in both forms around one expression, so the form is
settled by the text. -/
theorem Tag.Reads.not_short {opening : Text} {x : Span}
    (h : Reads t s (ofExpression opening x) e) (value : Option Binding) :
    ¬Reads t s (ofShort x value) e := by
  rintro ⟨_, -, _, -, stop', ⟨hx', -⟩, _, ⟨g, hg, hgap⟩, _, hthen, -⟩
  obtain ⟨_, -, _, -, stop, ⟨hx, -⟩, _, ⟨w, hw, hblank⟩, _, hbrace, -⟩ := h
  obtain rfl : stop = stop' := congrArg Span.stop (hx.symm.trans hx')
  obtain ⟨r, hr, -⟩ := (hblank.append hbrace).dropTo?
  obtain ⟨r', hr', -⟩ := (hgap.append hthen).dropTo?
  have hnext := Option.some.inj (hr.symm.trans hr')
  rw [List.append_assoc, List.append_assoc] at hnext
  have hsame : '}' = 't' :=
    Text.Blank.next_eq hw hg.1 (by decide) (by decide) hnext
  exact absurd hsame (by decide)

theorem AwaitBlock.tagsRead {b : AwaitBlock Fragment}
    (h : (Block.await b).Tagged t) : b.TagsRead t := by
  obtain ⟨hopens, hrescue⟩ := h
  have hhandlers : ∀ h ∈ b.rescue,
      Reads t h.tag.start (ofHandler "\x7b:catch".toList h.value) h.tag.stop :=
    fun h hh => (hrescue h hh).reads
  cases hpending : b.pending with
  | some pending =>
      cases hthen : b.thenTag with
      | none => simp [hpending, hthen] at hopens
      | some tag =>
          simp only [hpending, hthen] at hopens
          have hlong := hopens.1.reads
          have hnot : ∀ value, ¬Reads t b.tag.start (ofShort b.expression value)
              b.tag.stop := hlong.not_short
          refine ⟨?_, ?_, ?_, ?_, ?_, hhandlers⟩
          · simpa [hpending] using hlong
          · simpa [hpending] using hnot
          · simp [hpending]
          · simp [hpending, hthen]
          · simpa [hthen] using hopens.2.reads
  | none =>
      cases hthen : b.thenTag with
      | some tag => simp [hpending, hthen] at hopens
      | none =>
          simp only [hpending, hthen] at hopens
          have hshort := hopens.reads
          have hnot : ¬Reads t b.tag.start
              (ofExpression "\x7b#await".toList b.expression) b.tag.stop :=
            fun hlong => hlong.not_short _ hshort
          refine ⟨?_, ?_, ?_, ?_, ?_, hhandlers⟩
          · simpa [hpending] using hnot
          · simpa [hpending] using ⟨b.value, hshort⟩
          · exact fun _ => hshort
          · simp [hpending, hthen]
          · simp [hthen]

theorem Block.Tagged.tagsRead {b : Block Fragment} (h : b.Tagged t) :
    b.TagsRead t := by
  cases b with
  | conditional b =>
      obtain ⟨hhead, hlinks, hotherwise⟩ := h
      exact ⟨hhead.reads, fun a ha => (hlinks a ha).reads, fun c hc =>
        (hotherwise c hc).reads⟩
  | each b =>
      obtain ⟨htag, hfallback⟩ := h
      exact ⟨htag.reads, fun c hc => (hfallback c hc).reads⟩
  | await b => exact AwaitBlock.tagsRead h

/-- **In the tree of a text every tag reads as its block says**, at every depth.
An expression has no white space at its ends, the words of a tag stand where
they should, and what a tag may leave out is recorded just when it is there. -/
theorem parse_tags_read {text : Text} {tree : Fragment}
    (h : parse text = .ok tree) :
    ∀ f, Within tree f → ∀ b, Node.block b ∈ f.nodes → b.TagsRead text := by
  intro f hf b hb
  have hsound := (hf.sound (sound_of_parse h).2).nodes _ hb
  exact hsound.placed.parts.2.tagsRead

def Node.await? : Node → Option (AwaitBlock Fragment)
  | block (.await b) => some b
  | _ => none

/-- What looks like the short form is the long one when a tag for the value
follows: the word `then` is part of the expression here. -/
theorem parse_tags_read_then_inside :
    ∃ text tree b,
      text = "\x7b#await p then v \x7da\x7b:then w\x7db\x7b/await\x7d".toList ∧
      parse text = .ok tree ∧
      Node.block (.await b) ∈ tree.nodes ∧ b.expression = ⟨8, 16⟩ ∧
      Tag.Reads text b.tag.start (Tag.ofExpression "\x7b#await".toList ⟨8, 16⟩)
        b.tag.stop := by
  obtain ⟨text, htext⟩ : ∃ text,
      text = "\x7b#await p then v \x7da\x7b:then w\x7db\x7b/await\x7d".toList :=
    ⟨_, rfl⟩
  have hforms : (parse text).toOption.map (fun tree =>
      (tree.nodes.filterMap Node.await?).map fun b =>
        (b.expression, b.pending.isSome)) =
        some [(⟨8, 16⟩, true)] := by
    rw [htext]
    decide +kernel
  obtain ⟨tree, htree, hform⟩ := exists_tree_of_map hforms
  obtain ⟨b, others, hblocks, hb, -⟩ := List.map_eq_cons_iff.1 hform
  obtain ⟨hexpression, hpending⟩ := Prod.mk.inj hb
  have hmem : b ∈ tree.nodes.filterMap Node.await? := by
    rw [hblocks]
    exact List.mem_cons_self
  obtain ⟨n, hn, hawait⟩ := List.mem_filterMap.1 hmem
  obtain rfl : n = .block (.await b) := by
    unfold Node.await? at hawait
    split at hawait
    · rw [Option.some.inj hawait]
    · cases hawait
  have hread : b.TagsRead text := parse_tags_read htree tree .root (.await b) hn
  exact ⟨text, tree, b, htext, htree, hn, hexpression,
    hexpression ▸ hread.long.1 hpending⟩

end TemplateJsx.Markup
