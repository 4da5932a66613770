import TemplateJsx.Proofs.Lowering.Faults
import TemplateJsx.Proofs.Markup.Origins
import TemplateJsx.Proofs.Markup.SourceOrder

/-!
# Searches find the tokens of the grammar

A tree does not record where every token stands: the closing tag of a block, the
brace at the end of a tag, the index of an iteration and the word `then` are
searched for in the text.  The grammar matched each of them once, and left a
capture for it.  `Block.Located` says that the searches come to the very offsets
of these captures.

The closing tag is the last capture of a block, and whatever is nested in the
block ends before it.  The opening tags have captures of their own, that of a
later arm somewhere inside.  An index and the word `then` are found where their
captures begin, since nothing but white space and a comma may stand in front of
them.
-/

namespace TemplateJsx

open Markup
open Peg (Capture Match Cursor)
open Peg.Pattern

/-! ## Tokens of a block -/

namespace Markup.Block

variable {F : Type}

def closeRule : Block F → Rule
  | conditional _ => .ifClose
  | each _ => .eachClose
  | await _ => .awaitClose

def openRule : Block F → Rule
  | conditional _ => .ifOpen
  | each _ => .eachOpen
  | await b => if b.thenTag.isSome then .awaitOpen else .awaitShortOpen

def openTag : Block F → Span
  | conditional b => b.head.tag
  | each b => b.tag
  | await b => b.tag

/-- The opening tags of a block with their rules; every arm of a conditional has
one. -/
def openings (b : Block F) : List (Rule × Span) :=
  (b.openRule, b.openTag) :: b.laterArms.map fun a => (.elseIfOpen, a.tag)

/-- The words that are searched for in the opening tag are found where the
grammar matched them.  Here `ks` are the captures inside that of the block. -/
def WordsLocated (t : Text) (ks : List (Capture Rule)) : Block F → Prop
  | conditional _ => True
  | each b =>
    ∀ i ∈ b.index, ∃ tokens x inner, Capture.mk .eachOpen b.tag tokens ∈ ks ∧
      Capture.mk .eachIndex x inner ∈ tokens ∧
      t.slice? x = some i ∧
      findWord t b.context.span.stop b.tag.stop i = .ok x.start
  | await b =>
    b.thenTag = none → ∃ tokens x inner,
      Capture.mk .awaitShortOpen b.tag tokens ∈ ks ∧
      Capture.mk .thenKeyword x inner ∈ tokens ∧
      findWord t b.expression.stop b.tag.stop "then".toList = .ok x.start ∧
      ∀ v ∈ b.value, x.stop ≤ v.span.start

/-- The closing tag is found where the grammar matched it: it is the last
capture of the block, and whatever is nested in the block ends before it. -/
def ClosingLocated (t : Text) (ks : List (Capture Rule)) (b : Block Fragment) :
    Prop :=
  ∃ s inner, ks.getLast? = some (.mk b.closeRule ⟨s, b.span.stop⟩ inner) ∧
    TemplateJsx.terminator t b.span b.keyword = .ok s ∧
    (∀ a ∈ b.laterArms, TemplateJsx.terminator t a.span b.keyword = .ok s) ∧
    ∀ f ∈ b.bodies, ∀ b' ∈ f.blocks, b'.span.stop ≤ s

/-- What is searched for in the tags of a block is found where the grammar
matched it.  The searches work on the text alone, and could have found another
token of the same form. -/
structure Located (t : Text) (ks : List (Capture Rule)) (b : Block Fragment) :
    Prop where
  closing : b.ClosingLocated t ks
  braces : ∀ x ∈ b.openings, (∃ tokens, (Capture.mk x.1 x.2 tokens).Inside ks) ∧
    closingBrace t x.2 = .ok (x.2.stop - 1) ∧
    t.Stands (x.2.stop - 1) "\x7d".toList x.2.stop
  words : b.WordsLocated t ks

end Markup.Block

variable {t : Text} {c : Cursor} {m : Match Rule} {ps : List Piece}

/-! ## Closing tags -/

/-- The last rule of a row leaves the last capture, and what the items before it
take lies in front of it. -/
theorem last_capture (items : List Pat) {r : Rule}
    (named : grammar.isNamed r = true) (hc : c.At t)
    (h : (seq (items ++ [.rule r])).recognise recognised c = some m) :
    ∃ s before inner qs piece, m.captures =
      before ++ [.mk r ⟨s, m.cursor.offset⟩ inner] ∧
      Piece.ofCaptures? t m.captures = some (qs ++ [piece]) ∧
      (∃ u, t.Stands c.offset u s) ∧
      Leaves t r s m.cursor.offset [piece] := by
  induction items generalizing c m with
  | nil =>
      obtain ⟨inner, _, piece, rfl, hpiece, hopened⟩ :=
        opened_of_recognised named hc h
      exact ⟨c.offset, [], inner.captures, [], piece, rfl, hpiece,
        ⟨[], (Text.Stands.of_dropTo? hc).left⟩, hopened.leaves⟩
  | cons item items ih =>
      obtain ⟨next, more, hnext⟩ : ∃ next more,
          items ++ [.rule r] = next :: more :=
        List.exists_cons_of_ne_nil (by simp)
      rw [hnext] at ih
      rw [List.cons_append, hnext] at h
      obtain ⟨m₁, hitem, hrest⟩ := Option.bind_eq_some_iff.1 h
      obtain ⟨m₂, hmore, rfl⟩ := Option.map_eq_some_iff.1 hrest
      obtain ⟨hc₁, ps, hps, hreads⟩ := held_of_recognised hc hitem
      obtain ⟨w, hw⟩ := reads_stands hreads
      obtain ⟨s, before, inner, qs, piece, hcaptures, hqs, ⟨u, hu⟩, hleaves⟩ :=
        ih hc₁ hmore
      have hall := ofCaptures?_append hps hqs
      rw [← List.append_assoc] at hall
      exact ⟨s, m₁.captures ++ before, inner, ps ++ qs, piece,
        by simp [hcaptures], hall, ⟨w ++ u, hw.append hu⟩,
        hleaves⟩

/-- **The closing tag that the grammar matched is the one that is found.**  Both
lead to a closing tag that ends with the block, and there is one only. -/
theorem Markup.Block.closingLocated (hbound : t.byteLength < offsetBound)
    {b : Block Fragment} (hsound : (Node.block b).Sound t)
    {before inner : List (Capture Rule)} {s : Nat} {u : Text}
    (hu : t.Stands b.span.start u s)
    (hcloses : ClosingTag t b.keyword s b.span.stop) :
    b.ClosingLocated t (before ++
      [.mk b.closeRule ⟨s, b.span.stop⟩ inner]) := by
  obtain ⟨hlaid, htagged⟩ := hsound.placed.parts
  obtain ⟨e, hrow, hcloses'⟩ := hlaid.parts
  have hcuts := htagged.cuts_parts fun f hf => (hsound.fragments f hf).cuts
  have hbounds := hrow.ascend.bounds fun x hx => (hcuts x hx).1
  -- Both the parts of the block and the capture lead to a closing tag, and
  -- there is one only to be found.
  have hstart : t.isBoundary b.span.start = true :=
    Text.isBoundary_iff.2 hu.left
  have hwhole : TemplateJsx.terminator t b.span b.keyword = .ok e :=
    hcloses'.terminator hbound hstart hbounds.1
  have hsame : TemplateJsx.terminator t b.span b.keyword = .ok s :=
    hcloses.terminator hbound hstart hu.le
  obtain rfl : e = s := by
    rw [hsame] at hwhole
    cases hwhole
    rfl
  refine ⟨e, inner, List.getLast?_concat, hsame, ?_, ?_⟩
  · intro a ha
    have hmem := tag_mem_parts ha
    have htag := hbounds.2 a.tag hmem
    have hcut := hcuts a.tag hmem
    rw [hlaid.arms a ha]
    exact hcloses.terminator hbound hcut.2.1 (Nat.le_trans hcut.1 htag.2)
  · intro f hf b' hb'
    have hinner :=
      (hsound.fragments f hf).nested_within (FragmentOf.mem_blocks_iff.1 hb')
    exact Nat.le_trans hinner.2 ((bodies_lie hsound hrow).1 f hf).2

/-! ## Braces -/

theorem EndsInBrace.located (hbound : t.byteLength < offsetBound) {tag : Span}
    (h : EndsInBrace t tag) :
    closingBrace t tag = .ok (tag.stop - 1) ∧
      t.Stands (tag.stop - 1) "\x7d".toList tag.stop := by
  obtain ⟨s, w, hs, hstands⟩ := h
  refine ⟨closingBrace_eq_ok hbound hs hstands, ?_⟩
  have hbrace : t.Stands (s + Text.byteLength w) ['}'] tag.stop :=
    hstands.split.2
  have hsize : Text.byteLength ['}'] = 1 := by decide
  have hstop := hbrace.stop_eq
  rw [hsize] at hstop
  have hstart : s + Text.byteLength w = tag.stop - 1 := by omega
  rw [hstart] at hbrace
  exact hbrace

theorem Markup.Block.Tagged.openings_endInBrace {b : Block Fragment}
    (h : b.Tagged t) :
    ∀ x ∈ b.openings, EndsInBrace t x.2 := by
  intro x hx
  rcases List.mem_cons.1 hx with rfl | hx
  · cases b with
    | conditional b => exact h.1.endsInBrace
    | each b => exact h.1.endsInBrace
    | await b =>
        obtain ⟨htags, -⟩ := h
        split at htags
        · exact htags.1.endsInBrace
        · exact htags.endsInBrace
        · exact htags.elim
  · obtain ⟨a, ha, rfl⟩ := List.mem_map.1 hx
    cases b with
    | conditional b =>
        obtain ⟨g, -, hlink⟩ := h.2.1 a ha
        exact hlink.endsInBrace
    | each b => cases ha
    | await b => cases ha

/-! ## Words in opening tags -/

theorem index_captured {i : Text} (hc : c.At t)
    (h : (Peg.Pattern.optional (seq
      [blanks, lit ",", blanks, .rule .eachIndex])).recognise recognised c =
        some m)
    (hpieces : Piece.ofCaptures? t m.captures = some [.name .eachIndex i]) :
    ∃ s inner, Capture.mk .eachIndex ⟨s, m.cursor.offset⟩ inner ∈ m.captures ∧
      t.Stands s i m.cursor.offset := by
  rcases Option.or_eq_some_iff.1 h with hindex | ⟨-, hnone⟩
  · obtain ⟨s, before, inner, qs, piece, hcaptures, hqs, -, i', hname, -,
        -, hstands⟩ :=
      last_capture [blanks, lit ",", blanks] (by decide) hc hindex
    have hsame : qs ++ [piece] = [.name .eachIndex i] :=
      Option.some.inj (hqs.symm.trans hpieces)
    obtain rfl : piece = .name .eachIndex i := by
      simpa using congrArg List.getLast? hsame
    cases hname
    exact ⟨s, inner, by simp [hcaptures], hstands⟩
  · cases hnone
    cases hpieces

/-- The index of an iteration is found where the grammar matched it. -/
theorem index_located {tag x : Span} {context : Binding} {i : Text}
    {key : Option Span}
    (h : Opened t .eachOpen c m ps (.eachOpening tag x context (some i) key)) :
    ∃ y inner, Capture.mk .eachIndex y inner ∈ m.captures ∧
      t.slice? y = some i ∧
      findWord t context.span.stop tag.stop i = .ok y.start := by
  obtain ⟨m₁, _, hopen, ⟨m₂, _, hgap,
      ⟨m₃, _, hexpression, ⟨m₄, _, has,
          ⟨m₅, _, hbinding, ⟨m₆, m₇, hindex, hrest, rfl⟩, rfl⟩, rfl⟩, rfl⟩,
      rfl⟩, rfl⟩ := (splits_iff _).2 h.body
  obtain ⟨hc₁, _, hps₁, -, rfl⟩ := held_of_recognised h.lands hopen
  obtain ⟨hc₂, _, hps₂, hgap'⟩ := held_of_recognised hc₁ hgap
  obtain ⟨rfl, -⟩ := reads_gap hgap'
  obtain ⟨hc₃, _, hps₃, -, y, rfl, -⟩ := held_of_recognised hc₂ hexpression
  obtain ⟨hc₄, _, hps₄, _, _, _, hgap₁, ⟨_, _, _, ⟨-, rfl⟩, hgap₂, rfl⟩, rfl⟩ :=
    held_of_recognised hc₃ has
  obtain ⟨rfl, -⟩ := reads_gap hgap₁
  obtain ⟨rfl, -⟩ := reads_gap hgap₂
  obtain ⟨hc₅, _, hps₅, -, b, rfl, hspan, -⟩ := held_of_recognised hc₄ hbinding
  obtain ⟨hc₆, _, hps₆, hindex'⟩ := held_of_recognised hc₅ hindex
  obtain ⟨i', rfl, hpart⟩ := reads_index hindex'
  obtain ⟨-, _, hps₇, _, _, _, hkey, hend, rfl⟩ :=
    held_of_recognised hc₆ ((splits_iff _).1 hrest)
  obtain ⟨k, rfl, hkeyPart⟩ := reads_key hkey
  obtain ⟨rfl, w, hw, hends⟩ := reads_tagEnd hend
  have hall :=
    ofCaptures?_append hps₁ (ofCaptures?_append hps₂
      (ofCaptures?_append hps₃ (ofCaptures?_append hps₄
          (ofCaptures?_append hps₅ (ofCaptures?_append hps₆ hps₇)))))
  obtain rfl := Option.some.inj (h.pieces.symm.trans hall)
  obtain ⟨r, hr, hhead⟩ := hkeyPart.after hw hends
  have hassembled := h.assembled
  cases i' with
  | none => cases k <;> cases hassembled
  | some i' =>
      obtain ⟨s, inner, hcapture, hstands⟩ := index_captured hc₅ hindex hps₆
      obtain ⟨start, hfound, hstop, -⟩ := hpart.found hr hhead
      -- The word that is found and the one that was matched are equally long
      -- and end in the same place.
      have hstart : start = s := by
        have hsize := hstands.stop_eq
        omega
      have hcontext : b.span.stop = m₅.cursor.offset := by rw [hspan]
      subst hstart
      rw [← hcontext] at hfound
      have hmem : Capture.mk .eachIndex ⟨start, m₆.cursor.offset⟩ inner ∈
          (m₁.andThen (m₂.andThen (m₃.andThen (m₄.andThen
            (m₅.andThen (m₆.andThen m₇)))))).captures := by
        simp [Match.andThen, hcapture]
      cases k <;> cases hassembled <;>
        exact ⟨_, inner, hmem, Text.slice?_eq_some.2 hstands, hfound⟩

/-- The word of an await block in the short form is found where the grammar
matched it, in front of the value. -/
theorem then_located {tag x : Span} {value : Option Binding}
    (h : Opened t .awaitShortOpen c m ps (.shortOpening tag x value)) :
    ∃ y inner, Capture.mk .thenKeyword y inner ∈ m.captures ∧
      findWord t x.stop tag.stop "then".toList = .ok y.start ∧
      ∀ v ∈ value, y.stop ≤ v.span.start := by
  obtain ⟨m₁, _, hopen, ⟨m₂, _, hgap,
      ⟨m₃, _, hexpression, ⟨m₄, _, hgap₁, ⟨m₅, m₆, hthen, hrest, rfl⟩, rfl⟩,
        rfl⟩, rfl⟩, rfl⟩ := (splits_iff _).2 h.body
  obtain ⟨hc₁, _, hps₁, -, rfl⟩ := held_of_recognised h.lands hopen
  obtain ⟨hc₂, _, hps₂, hgap'⟩ := held_of_recognised hc₁ hgap
  obtain ⟨rfl, -⟩ := reads_gap hgap'
  obtain ⟨hc₃, _, hps₃, -, y, rfl, htrim⟩ := held_of_recognised hc₂ hexpression
  obtain ⟨hc₄, _, hps₄, hgap₁'⟩ := held_of_recognised hc₃ hgap₁
  obtain ⟨rfl, g, hg, hgs⟩ := reads_gap hgap₁'
  obtain ⟨inner, _, piece, rfl, hps₅, hopened⟩ :=
    opened_of_recognised (by decide) hc₄ hthen
  obtain ⟨hpiece, hword⟩ := hopened.leaves
  cases hpiece
  have hc₅ := (held_of_recognised hc₄ hthen).1
  obtain ⟨-, _, hps₆, hrest'⟩ := held_of_recognised hc₅ ((splits_iff _).1 hrest)
  obtain ⟨v, rfl, e, hvalue, w, hw, hends⟩ := reads_valueEnd hrest'
  have hall :=
    ofCaptures?_append hps₁ (ofCaptures?_append hps₂
      (ofCaptures?_append hps₃ (ofCaptures?_append hps₄
          (ofCaptures?_append hps₅ hps₆))))
  obtain rfl := Option.some.inj (h.pieces.symm.trans hall)
  -- The expression leaves out white space at its end, which belongs to the gap
  -- before the word.
  obtain ⟨g', hg', hgs'⟩ := htrim.after
  have hfound :=
    hvalue.findWord_then (hg'.append_gap hg) (hgs'.append hgs) hword hw hends
  have hassembled := h.assembled
  cases v with
  | none =>
      cases hassembled
      exact ⟨⟨m₄.cursor.offset, inner.cursor.offset⟩, inner.captures,
        by simp [Match.andThen], hfound, by simp⟩
  | some b =>
      cases hassembled
      obtain ⟨⟨g'', -, hgap''⟩, -⟩ := hvalue
      refine ⟨⟨m₄.cursor.offset, inner.cursor.offset⟩, inner.captures,
        by simp [Match.andThen], hfound, ?_⟩
      intro v hv
      cases hv
      exact hgap''.le

/-! ## Blocks -/

def Markup.Block.openPiece {F : Type} : Block F → Piece
  | conditional b => .opening .ifOpen b.head.tag b.head.expression
  | each b => .eachOpening b.tag b.expression b.context b.index b.key
  | await b =>
    if b.thenTag.isSome then .opening .awaitOpen b.tag b.expression
    else .shortOpening b.tag b.expression b.value

theorem openPiece_of_assemble {x : Span} {p : Piece} {b : Block Fragment}
    (h : assemble t b.rule x (p :: ps) = some (.node (.block b))) :
    p = b.openPiece := by
  generalize hpieces : p :: ps = all at h
  cases b with
  | conditional b =>
      simp only [assemble, Block.rule, ifPiece] at h
      split at h <;> cases h <;> exact (List.cons.inj hpieces).1
  | each b =>
      simp only [assemble, Block.rule, eachPiece] at h
      split at h <;> cases h <;> exact (List.cons.inj hpieces).1
  | await b =>
      simp only [assemble, Block.rule, awaitPiece] at h
      split at h <;> cases h <;> exact (List.cons.inj hpieces).1

theorem Markup.Opened.block_sound {r : Rule} {b : Block Fragment}
    (h : Opened t r c m ps (.node (.block b))) :
    b.span = ⟨c.offset, m.cursor.offset⟩ ∧ (Node.block b).Sound t := by
  have hleaves := h.leaves
  obtain rfl := h.rule_eq
  cases b <;>
    · obtain ⟨n, hn, hspan, hsound⟩ := hleaves
      cases hn
      exact ⟨hspan, hsound⟩

theorem Markup.Opened.ends_in_close {r : Rule} {b : Block Fragment}
    (h : Opened t r c m ps (.node (.block b))) :
    ∃ items, (seq (items ++ [.rule b.closeRule])).recognise recognised c =
      some m := by
  have hbody := h.body
  obtain rfl := h.rule_eq
  cases b with
  | conditional b =>
      exact ⟨[.rule .ifOpen, .rule .fragment, .optional alternate], hbody⟩
  | each b =>
      exact ⟨[.rule .eachOpen, .rule .fragment, .optional (.rule .elseClause)],
        hbody⟩
  | await b =>
      rcases Option.or_eq_some_iff.1 hbody with hshort | ⟨-, hlong⟩
      · exact ⟨[.rule .awaitShortOpen, .rule .fragment,
          .optional (.rule .catchClause)], hshort⟩
      · exact ⟨[.rule .awaitOpen, .rule .fragment, .rule .thenClause,
          .optional (.rule .catchClause)], hlong⟩

theorem Markup.Block.closes_of_leaves {b : Block Fragment} {s e : Nat}
    (h : Leaves t b.closeRule s e ps) :
    ClosingTag t b.keyword s e := by
  cases b <;> exact h.2

theorem Markup.Opened.closingLocated (hbound : t.byteLength < offsetBound)
    {r : Rule} {b : Block Fragment} (h : Opened t r c m ps (.node (.block b))) :
    b.ClosingLocated t m.captures := by
  obtain ⟨hspan, hsound⟩ := h.block_sound
  obtain ⟨items, hitems⟩ := h.ends_in_close
  have named : grammar.isNamed b.closeRule = true := by cases b <;> rfl
  obtain ⟨s, before, inner, _, _, hcaptures, -, ⟨u, hu⟩, hleaves⟩ :=
    last_capture items named h.lands hitems
  have hcloses := Block.closes_of_leaves hleaves
  have hstart : b.span.start = c.offset := by rw [hspan]
  have hstop : b.span.stop = m.cursor.offset := by rw [hspan]
  rw [hcaptures, ← hstop]
  rw [← hstart] at hu
  rw [← hstop] at hcloses
  exact Block.closingLocated hbound hsound hu hcloses

/-- The first rule of a row leaves the first piece and the first capture. -/
theorem first_capture {r : Rule} (named : grammar.isNamed r = true) {item : Pat}
    {items : List Pat} (hc : c.At t)
    (h : (seq (.rule r :: item :: items)).recognise recognised c = some m)
    (hpieces : Piece.ofCaptures? t m.captures = some ps) :
    ∃ inner qs piece rest, ps = piece :: rest ∧
      Capture.mk r ⟨c.offset, inner.cursor.offset⟩ inner.captures ∈ m.captures ∧
      Opened t r c inner qs piece := by
  obtain ⟨m₁, hfirst, hrest⟩ := Option.bind_eq_some_iff.1 h
  obtain ⟨m₂, hmore, rfl⟩ := Option.map_eq_some_iff.1 hrest
  obtain ⟨hc₁, -⟩ := held_of_recognised hc hfirst
  obtain ⟨-, rest, hps, -⟩ := held_of_recognised hc₁ hmore
  obtain ⟨inner, qs, piece, rfl, hpiece, hopened⟩ :=
    opened_of_recognised named hc hfirst
  obtain rfl :=
    Option.some.inj (hpieces.symm.trans (ofCaptures?_append hpiece hps))
  exact ⟨inner, qs, piece, rest, rfl, by simp, hopened⟩

theorem Markup.Opened.openTag_eq {b : Block Fragment}
    (h : Opened t b.openRule c m ps b.openPiece) :
    b.openTag = ⟨c.offset, m.cursor.offset⟩ := by
  have hleaves := h.leaves
  cases b with
  | conditional b =>
      obtain ⟨x, hpiece, -⟩ := hleaves
      exact (Piece.opening.inj (List.cons.inj hpiece).1).2.1
  | each b =>
      obtain ⟨_, _, _, _, hpiece, -⟩ := hleaves
      exact (Piece.eachOpening.inj (List.cons.inj hpiece).1).1
  | await b =>
      cases hthen : b.thenTag with
      | none =>
          simp only [Block.openRule, Block.openPiece, hthen] at hleaves
          obtain ⟨_, _, hpiece, -⟩ := hleaves
          exact (Piece.shortOpening.inj (List.cons.inj hpiece).1).1
      | some tag =>
          simp only [Block.openRule, Block.openPiece, hthen] at hleaves
          obtain ⟨_, hpiece, -⟩ := hleaves
          exact (Piece.opening.inj (List.cons.inj hpiece).1).2.1

theorem Markup.Opened.starts_with_open {r : Rule} {b : Block Fragment}
    (h : Opened t r c m ps (.node (.block b))) :
    ∃ inner qs, Capture.mk b.openRule ⟨c.offset, inner.cursor.offset⟩
      inner.captures ∈ m.captures ∧
      Opened t b.openRule c inner qs b.openPiece := by
  have hbody := h.body
  have hassembled := h.assembled
  obtain rfl := h.rule_eq
  cases b with
  | conditional b =>
      obtain ⟨inner, qs, p, _, rfl, hmem, hopened⟩ :=
        first_capture (by decide) h.lands hbody h.pieces
      obtain rfl := openPiece_of_assemble hassembled
      exact ⟨inner, qs, hmem, hopened⟩
  | each b =>
      obtain ⟨inner, qs, p, _, rfl, hmem, hopened⟩ :=
        first_capture (by decide) h.lands hbody h.pieces
      obtain rfl := openPiece_of_assemble hassembled
      exact ⟨inner, qs, hmem, hopened⟩
  | await b =>
      -- The rule that matched leaves the piece of its own form, so the form of
      -- the block is known.
      rcases Option.or_eq_some_iff.1 hbody with hbody | ⟨-, hbody⟩
      · obtain ⟨inner, qs, p, _, rfl, hmem, hopened⟩ :=
          first_capture (by decide) h.lands hbody h.pieces
        obtain rfl := openPiece_of_assemble hassembled
        have hrule : (Block.await b).openRule = .awaitShortOpen := by
          obtain ⟨_, _, hpiece, -⟩ := hopened.leaves
          cases hthen : b.thenTag with
          | none => simp [Block.openRule, hthen]
          | some tag => simp [Block.openPiece, hthen] at hpiece
        rw [hrule]
        exact ⟨inner, qs, hmem, hopened⟩
      · obtain ⟨inner, qs, p, _, rfl, hmem, hopened⟩ :=
          first_capture (by decide) h.lands hbody h.pieces
        obtain rfl := openPiece_of_assemble hassembled
        have hrule : (Block.await b).openRule = .awaitOpen := by
          obtain ⟨_, hpiece, -⟩ := hopened.leaves
          cases hthen : b.thenTag with
          | none => simp [Block.openPiece, hthen] at hpiece
          | some tag => simp [Block.openRule, hthen]
        rw [hrule]
        exact ⟨inner, qs, hmem, hopened⟩

theorem Markup.Opened.opening {r : Rule} {b : Block Fragment}
    (h : Opened t r c m ps (.node (.block b))) :
    ∃ inner qs, Capture.mk b.openRule b.openTag inner.captures ∈ m.captures ∧
      Opened t b.openRule c inner qs b.openPiece := by
  obtain ⟨inner, qs, hmem, hopened⟩ := h.starts_with_open
  rw [← hopened.openTag_eq] at hmem
  exact ⟨inner, qs, hmem, hopened⟩

theorem Markup.Opened.wordsLocated {r : Rule} {b : Block Fragment}
    (h : Opened t r c m ps (.node (.block b))) :
    b.WordsLocated t m.captures := by
  obtain ⟨inner, qs, hmem, hopened⟩ := h.opening
  cases b with
  | conditional b => exact trivial
  | each b =>
      intro i hi
      simp only [Block.openPiece, Option.mem_def.1 hi] at hopened
      obtain ⟨x, tokens, hindex, hslice, hfound⟩ := index_located hopened
      exact ⟨inner.captures, x, tokens, hmem, hindex, hslice, hfound⟩
  | await b =>
      intro hshort
      simp only [Block.openRule, Block.openPiece, hshort] at hmem hopened
      obtain ⟨x, tokens, hthen, hfound, hvalue⟩ := then_located hopened
      exact ⟨inner.captures, x, tokens, hmem, hthen, hfound, hvalue⟩

/-! ## Later arms -/

theorem elseIfPiece_cons {x : Span} {p : Piece} {a : Arm Fragment}
    {arms : List (Arm Fragment)} {o : Option (Clause Fragment)}
    (h : elseIfPiece x (p :: ps) = some (.links (a :: arms) o)) :
    p = .opening .elseIfOpen a.tag a.expression ∧
      (arms = [] ∨ .links arms o ∈ ps) := by
  generalize hpieces : p :: ps = all at h
  unfold elseIfPiece at h
  split at h
  · cases h
    exact ⟨(List.cons.inj hpieces).1, Or.inl rfl⟩
  · cases h
    exact ⟨(List.cons.inj hpieces).1, Or.inl rfl⟩
  · cases h
    obtain ⟨rfl, rfl⟩ := List.cons.inj hpieces
    exact ⟨rfl, Or.inr (by simp)⟩
  · cases h

theorem Markup.Opened.links {r : Rule} {arms : List (Arm Fragment)}
    {o : Option (Clause Fragment)} (h : Opened t r c m ps (.links arms o)) :
    ∀ a ∈ arms, ∃ tokens, (Capture.mk .elseIfOpen a.tag tokens).Inside
      m.captures := by
  induction arms generalizing r c m ps with
  | nil => simp
  | cons first arms ih =>
      obtain rfl : r = .elseIf := by
        have hleaves := h.leaves
        cases r with
        | elseIf => rfl
        | balanced => exact absurd h.named (by decide)
        | _ => simp [Leaves] at hleaves
      have hbody := h.body
      have hassembled := h.assembled
      obtain ⟨inner, qs, p, _, rfl, hmem, hopened⟩ :=
        first_capture (by decide) h.lands hbody h.pieces
      obtain ⟨rfl, hmore⟩ := elseIfPiece_cons hassembled
      obtain ⟨_, hpiece, -⟩ := hopened.leaves
      have htag := (Piece.opening.inj (List.cons.inj hpiece).1).2.1
      rw [← htag] at hmem
      intro a ha
      rcases List.mem_cons.1 ha with rfl | ha
      · exact ⟨inner.captures, .here hmem⟩
      · rcases hmore with rfl | hlinks
        · cases ha
        · obtain ⟨r', c', m', ps', hk, hnext⟩ :=
            h.inner (List.mem_cons_of_mem _ hlinks)
          obtain ⟨tokens, hinside⟩ := ih hnext a ha
          exact ⟨tokens, .deeper hk hinside⟩

theorem ifPiece_links {x : Span} {b : IfBlock Fragment}
    (h : ifPiece x ps = some (.node (.block (.conditional b))))
    {a : Arm Fragment} (ha : a ∈ b.links) :
    ∃ arms o, Piece.links arms o ∈ ps ∧ ∃ a' ∈ arms, a'.tag = a.tag := by
  unfold ifPiece at h
  split at h
  · cases h
    cases ha
  · cases h
    cases ha
  · next arms o =>
      cases h
      obtain ⟨a', ha', rfl⟩ := List.mem_map.1 ha
      exact ⟨arms, o, by simp, a', ha', rfl⟩
  · cases h

/-- The opening tags of a block have captures inside that of the block. -/
theorem Markup.Opened.openings {r : Rule} {b : Block Fragment}
    (h : Opened t r c m ps (.node (.block b))) :
    ∀ x ∈ b.openings, ∃ tokens,
      (Capture.mk x.1 x.2 tokens).Inside m.captures := by
  intro x hx
  rcases List.mem_cons.1 hx with rfl | hx
  · obtain ⟨inner, qs, hmem, -⟩ := h.opening
    exact ⟨inner.captures, .here hmem⟩
  · obtain ⟨a, ha, rfl⟩ := List.mem_map.1 hx
    have hassembled := h.assembled
    obtain rfl := h.rule_eq
    cases b with
    | conditional b =>
        obtain ⟨arms, o, hlinks, a', ha', htag⟩ := ifPiece_links hassembled ha
        obtain ⟨r', c', m', ps', hk, hopened⟩ := h.inner hlinks
        obtain ⟨tokens, hinside⟩ := hopened.links a' ha'
        rw [htag] at hinside
        exact ⟨tokens, .deeper hk hinside⟩
    | each b => cases ha
    | await b => cases ha

theorem Markup.Opened.located (hbound : t.byteLength < offsetBound) {r : Rule}
    {b : Block Fragment} (h : Opened t r c m ps (.node (.block b))) :
    b.Located t m.captures where
  closing := h.closingLocated hbound
  braces := by
    intro x hx
    obtain ⟨-, htagged⟩ := h.block_sound.2.placed.parts
    exact ⟨h.openings x hx, (htagged.openings_endInBrace x hx).located hbound⟩
  words := h.wordsLocated

/-- **The searches in the blocks of a tree find the very tokens that the grammar
matched**, never those of a block inside or a word that happens to look the
same.  A tree need not record where these tokens stand, and nothing is lost by
it. -/
theorem parse_tokens_located {text : Text} {tree : Fragment}
    (hbound : text.byteLength < offsetBound) (h : parse text = .ok tree) :
    ∃ m, (matchDocument text).result = some m ∧ ∀ b ∈ tree.blocks, ∃ ks,
      (Capture.mk b.rule b.span ks).Inside m.captures ∧
      Piece.ofCapture? text (.mk b.rule b.span ks) = some (.node (.block b)) ∧
      b.Located text ks := by
  obtain ⟨m, hresult, horigin⟩ := origin_of_parse h
  refine ⟨m, hresult, ?_⟩
  intro b hb
  obtain ⟨k, hinside, hmatched, hpiece⟩ :=
    horigin (.block b) (FragmentOf.mem_blocks_iff.1 hb)
  obtain ⟨r, c, inner, ps, rfl, hopened⟩ := opened_of_matched hmatched hpiece
  have hlocated := hopened.located hbound
  obtain rfl := hopened.rule_eq
  rw [← hopened.block_sound.1] at hinside hpiece
  exact ⟨inner.captures, hinside, hpiece, hlocated⟩

/-- An iteration whose key names its index, an `else if` next to a block inside,
and a value that begins with the word `then`. -/
def tokensNested : Text :=
  ("\x7b#each xs as x, i (i)\x7d\x7b#if a\x7d\x7b#if b\x7d\x7b/if\x7d" ++
    "\x7b:else if c\x7dy\x7b/if\x7d\x7b/each\x7d" ++
    "\x7b#await p then then1\x7dz\x7b/await\x7d").toList

/-- The index is found in front of the key, the outer conditional is closed
behind the inner one, and the word `then` is found in front of the value. -/
theorem parse_tokens_located_nested :
    ∃ tree m, parse tokensNested = .ok tree ∧
      (matchDocument tokensNested).result = some m ∧
      tree.blocks.map Block.rule =
        [.eachBlock, .ifBlock, .ifBlock, .awaitBlock] ∧
      ∀ b ∈ tree.blocks, ∃ ks, (Capture.mk b.rule b.span ks).Inside m.captures ∧
        Piece.ofCapture? tokensNested (.mk b.rule b.span ks) =
          some (.node (.block b)) ∧
        b.Located tokensNested ks := by
  obtain ⟨tree, htree, hblocks⟩ : ∃ tree, parse tokensNested = .ok tree ∧
      tree.blocks.map Block.rule =
        [.eachBlock, .ifBlock, .ifBlock, .awaitBlock] :=
    exists_tree_of_map (by decide +kernel)
  obtain ⟨m, hm, hlocated⟩ := parse_tokens_located (by decide +kernel) htree
  exact ⟨tree, m, htree, hm, hblocks, hlocated⟩

end TemplateJsx
