import TemplateJsx.Markup.Grammar
import TemplateJsx.Markup.Piece
import TemplateJsx.Proofs.Markup.Layout
import TemplateJsx.Proofs.Peg.Reading

/-!
# Reading tags

`Leaves` says what each rule of the grammar leaves behind when it matches from
one offset to another: a piece of the tree that fits the text there.  This
module proves it of the rules for tags and the parts of tags, assuming it of the
rules they refer to.
-/

namespace TemplateJsx.Markup

open Peg (Rounds)
open Peg.Pattern

/-- What a rule that matched from `s` to `e` leaves behind: the one piece that
belongs to it, with the parts of the text that the piece records in their
places. -/
def Leaves (t : Text) (r : Rule) (s e : Nat) (ps : List Piece) : Prop :=
  match r with
  | .document =>
    ∃ f, ps = [.document f] ∧ f.span = ⟨0, t.byteLength⟩ ∧ f.Sound t
  | .fragment => ∃ f, ps = [.fragment f] ∧ f.span = ⟨s, e⟩ ∧ f.Sound t
  | .text | .comment | .mustache | .voidElement | .rawElement | .element
  | .otherBlock | .ifBlock | .eachBlock | .awaitBlock =>
    ∃ n, ps = [.node n] ∧ n.span = ⟨s, e⟩ ∧ n.Sound t
  | .rawName | .voidName | .tagName | .blockName =>
    ∃ n, ps = [.name r n] ∧ t.Stands s n e
  | .eachIndex =>
    ∃ i, ps = [.name r i] ∧ (∃ c ∈ i.head?, startsIdentifier c = true) ∧
      (∀ c ∈ i, continuesIdentifier c = true) ∧ t.Stands s i e
  | .expression | .eachExpression | .awaitExpression =>
    ∃ x, ps = [.expression r x] ∧ t.TrimmedTo s e x
  | .eachKey => ∃ x, ps = [.key x] ∧ t.TrimmedTo s e x
  | .binding => ∃ b, ps = [.binding b] ∧ b.span = ⟨s, e⟩ ∧ t.Stands s b.name e
  | .ifOpen =>
    ∃ x, ps = [.opening r ⟨s, e⟩ x] ∧ ExpressionTag t "\x7b#if".toList ⟨s, e⟩ x
  | .elseIfOpen => ∃ x, ps = [.opening r ⟨s, e⟩ x] ∧ LinkTag t ⟨s, e⟩ x
  | .awaitOpen =>
    ∃ x, ps = [.opening r ⟨s, e⟩ x] ∧
      ExpressionTag t "\x7b#await".toList ⟨s, e⟩ x
  | .eachOpen =>
    ∃ x b i k, ps = [.eachOpening ⟨s, e⟩ x b i k] ∧ EachTag t ⟨s, e⟩ x b i k
  | .awaitShortOpen =>
    ∃ x v, ps = [.shortOpening ⟨s, e⟩ x v] ∧ ShortTag t ⟨s, e⟩ x v
  | .elseTag => ps = [.tag ⟨s, e⟩] ∧ WordTag t "\x7b:else".toList s e
  | .thenTag =>
    ∃ v, ps = [.valueTag r ⟨s, e⟩ v] ∧ ValueTag t "\x7b:then".toList ⟨s, e⟩ v
  | .catchTag =>
    ∃ v, ps = [.valueTag r ⟨s, e⟩ v] ∧ ValueTag t "\x7b:catch".toList ⟨s, e⟩ v
  | .elseClause =>
    ∃ c : Clause Fragment, ps = [.clause c] ∧ Abut s [c.tag, c.body.span] e ∧
      WordTag t "\x7b:else".toList c.tag.start c.tag.stop ∧ c.body.Sound t
  | .thenClause =>
    ∃ h : Handler Fragment, ps = [.handler r h] ∧
      Abut s [h.tag, h.body.span] e ∧
      ValueTag t "\x7b:then".toList h.tag h.value ∧ h.body.Sound t
  | .catchClause =>
    ∃ h : Handler Fragment, ps = [.handler r h] ∧
      Abut s [h.tag, h.body.span] e ∧
      ValueTag t "\x7b:catch".toList h.tag h.value ∧ h.body.Sound t
  | .elseIf =>
    ∃ (arms : List (Arm Fragment)) (o : Option (Clause Fragment)),
      ps = [.links arms o] ∧
      Abut s (arms.flatMap (fun a => [a.tag, a.body.span]) ++
        o.toList.flatMap fun c => [c.tag, c.body.span]) e ∧
      (∀ a ∈ arms, a.span.start = a.tag.start ∧ LinkTag t a.tag a.expression ∧
        a.body.Sound t) ∧
      ∀ c ∈ o, WordTag t "\x7b:else".toList c.tag.start c.tag.stop ∧
      c.body.Sound t
  | .ifClose => ps = [.unrecorded r] ∧ ClosingTag t "if".toList s e
  | .eachClose => ps = [.unrecorded r] ∧ ClosingTag t "each".toList s e
  | .awaitClose => ps = [.unrecorded r] ∧ ClosingTag t "await".toList s e
  | .endOfInput => ps = [.unrecorded r] ∧ s = t.byteLength
  | .thenKeyword => ps = [.unrecorded r] ∧ t.Stands s "then".toList e
  | .attr | .attributeName | .attributeValue | .doubleQuotedValue
  | .doubleQuotedText | .singleQuotedValue | .singleQuotedText
  | .unquotedValue | .rawText =>
    ps = [.unrecorded r]
  | .balanced => True

/-- A rule lies in the text and leaves behind what it should.  It is the reading
that all patterns of the grammar are given. -/
def Rests (t : Text) (r : Rule) (s e : Nat) (ps : List Piece) : Prop :=
  (∃ w, t.Stands s w e) ∧ Leaves t r s e ps

variable {t : Text} {s m e : Nat} {ps : List Piece}

theorem reads_stands {p : Pat} (h : p.Reads t (Rests t) s e ps) :
    ∃ w, t.Stands s w e :=
  Peg.Pattern.Reads.stands (fun _ _ _ _ h => h.1) h

/-! ## White space and single characters -/

theorem reads_blank (h : blank.Reads t (Rests t) s e ps) :
    ps = [] ∧ ∃ c, isBlank c = true ∧ t.Stands s [c] e := by
  obtain ⟨⟨c, hc, hstands⟩, rfl⟩ := h
  have hmem : c = ' ' ∨ c = '\t' ∨ c = '\r' ∨ c = '\n' := by simpa using hc
  refine ⟨rfl, c, ?_, hstands⟩
  rcases hmem with rfl | rfl | rfl | rfl <;> rfl

theorem reads_blanks (h : blanks.Reads t (Rests t) s e ps) :
    ps = [] ∧ ∃ w, Text.Blank w ∧ t.Stands s w e := by
  have hrounds : Rounds t (blank.Reads t (Rests t)) s e ps := h
  clear h
  induction hrounds with
  | done h => exact ⟨rfl, [], Text.blank_nil, h⟩
  | next first rest ih =>
      obtain ⟨rfl, c, hc, hstands⟩ := reads_blank first
      obtain ⟨rfl, w, hw, hrest⟩ := ih
      have hone : Text.Blank [c] := by simpa [Text.Blank] using hc
      exact ⟨rfl, [c] ++ w, hone.append hw, hstands.append hrest⟩

theorem reads_gap (h : gap.Reads t (Rests t) s e ps) :
    ps = [] ∧ ∃ w, Text.Gap w ∧ t.Stands s w e := by
  obtain ⟨m, qs, rs, hone, hmany, rfl⟩ := h
  obtain ⟨rfl, c, hc, hstands⟩ := reads_blank hone
  obtain ⟨rfl, w, hw, hrest⟩ := reads_blanks hmany
  have hgap : Text.Gap [c] := ⟨by simpa [Text.Blank] using hc, by simp⟩
  exact ⟨rfl, [c] ++ w, hgap.append hw, hstands.append hrest⟩

theorem reads_tagEnd (h : (seq [blanks, lit "\x7d"]).Reads t (Rests t) s e ps) :
    ps = [] ∧ ∃ w, Text.Blank w ∧ t.Stands s (w ++ ['}']) e := by
  obtain ⟨m, qs, rs, hblanks, ⟨hbrace, rfl⟩, rfl⟩ := h
  obtain ⟨rfl, w, hw, hstands⟩ := reads_blanks hblanks
  exact ⟨rfl, w, hw, hstands.append hbrace⟩

/-! ## Parts of tags -/

/-- An identifier begins with a character that may begin one and goes on with
such as may go on with it. -/
theorem reads_identifier (h : identifier.Reads t (Rests t) s e ps) :
    ps = [] ∧ ∃ i, (∃ c ∈ i.head?, startsIdentifier c = true) ∧
      (∀ c ∈ i, continuesIdentifier c = true) ∧
      t.Stands s i e := by
  obtain ⟨m, _, _, ⟨⟨c, hc, hstands⟩, rfl⟩, hmany, rfl⟩ := h
  have hrounds : Rounds t (identifierChar.Reads t (Rests t)) m e ps := hmany
  have hnil : ps = [] ∧ ∃ w, (∀ c ∈ w, continuesIdentifier c = true) ∧
      t.Stands m w e := by
    clear hmany hstands
    induction hrounds with
    | done h => exact ⟨rfl, [], by simp, h⟩
    | next first rest ih =>
        obtain ⟨⟨x, hx, hxs⟩, rfl⟩ := first
        obtain ⟨rfl, w, hw, hws⟩ := ih
        exact ⟨rfl, [x] ++ w, List.forall_mem_cons.2 ⟨hx, hw⟩, hxs.append hws⟩
  obtain ⟨rfl, w, hw, hws⟩ := hnil
  have hall : ∀ x ∈ [c] ++ w, continuesIdentifier x = true :=
    List.forall_mem_cons.2 ⟨continuesIdentifier_of_starts hc, hw⟩
  exact ⟨rfl, [c] ++ w, ⟨c, by simp, hc⟩, hall, hstands.append hws⟩

/-- The part of a tag from the white space before an expression on. -/
theorem reads_expressionEnd
    (h : (seq [gap, .rule .expression, blanks, lit "\x7d"]).Reads t
      (Rests t) s e ps) :
    ∃ x, ps = [.expression .expression x] ∧
      (∃ g, Text.Gap g ∧ t.Stands s g x.start) ∧ t.TrimmedAt x ∧
      ∃ w, Text.Blank w ∧ t.Stands x.stop (w ++ ['}']) e := by
  obtain ⟨m₁, _, _, hgap, ⟨m₂, _, _, ⟨-, x, rfl, htrim⟩, hend, rfl⟩, rfl⟩ := h
  obtain ⟨rfl, g, hg, hgs⟩ := reads_gap hgap
  obtain ⟨rfl, w, hw, hws⟩ := reads_tagEnd hend
  obtain ⟨g', hg', hgs'⟩ := htrim.before
  obtain ⟨w', hw', hws'⟩ := htrim.after
  refine ⟨x, rfl, ⟨g ++ g', hg.append hg', hgs.append hgs'⟩, htrim.inside,
    ⟨w' ++ w, hw'.append hw, ?_⟩⟩
  simpa using hws'.append hws

/-- The part of a tag from where it may name a value on. -/
theorem reads_valueEnd
    (h : (seq [.optional (.sequence gap (.rule .binding)), blanks,
      lit "\x7d"]).Reads t (Rests t) s e ps) :
    ∃ v : Option Binding, ps = v.toList.map Piece.binding ∧
      ∃ m, ValuePart t s v m ∧
      ∃ w, Text.Blank w ∧ t.Stands m (w ++ ['}']) e := by
  obtain ⟨m, _, _, hvalue, hend, rfl⟩ := h
  obtain ⟨rfl, hw⟩ := reads_tagEnd hend
  rcases hvalue with ⟨n, _, _, hgap, ⟨-, b, rfl, hspan, hname⟩, rfl⟩ |
    ⟨hnone, rfl⟩
  · obtain ⟨rfl, g, hg, hgs⟩ := reads_gap hgap
    refine ⟨some b, rfl, m, ⟨⟨g, hg, ?_⟩, ?_, ?_⟩, hw⟩
    · rw [hspan]
      exact hgs
    · rw [hspan]
      exact hname
    · rw [hspan]
  · exact ⟨none, rfl, m, hnone.eq_of_nil, hw⟩

theorem reads_index
    (h : (Peg.Pattern.optional (seq
      [blanks, lit ",", blanks, .rule .eachIndex])).Reads t (Rests t) s e ps) :
    ∃ i : Option Text, ps = i.toList.map (Piece.name .eachIndex) ∧
      IndexPart t s i e := by
  rcases h with ⟨m₁, _, _, hblanks,
    ⟨m₂, _, _, ⟨hcomma, rfl⟩, ⟨m₃, _, _, hblanks', ⟨-, i, rfl, hi, hall, hname⟩,
        rfl⟩, rfl⟩, rfl⟩ | ⟨hnone, rfl⟩
  · obtain ⟨rfl, v, hv, hvs⟩ := reads_blanks hblanks
    obtain ⟨rfl, w, hw, hws⟩ := reads_blanks hblanks'
    refine ⟨some i, rfl, v, w, hv, hw, hi, hall, ?_⟩
    simpa using hvs.append (hcomma.append (hws.append hname))
  · exact ⟨none, rfl, hnone.eq_of_nil⟩

theorem reads_key
    (h : (Peg.Pattern.optional (seq
      [blanks, lit "(", .rule .eachKey, lit ")"])).Reads t (Rests t) s e ps) :
    ∃ k : Option Span, ps = k.toList.map Piece.key ∧ KeyPart t s k e := by
  rcases h with ⟨m₁, _, _, hblanks,
    ⟨m₂, _, _, ⟨hopen, rfl⟩, ⟨m₃, _, _, ⟨-, k, rfl, htrim⟩, ⟨hclose, rfl⟩, rfl⟩,
      rfl⟩, rfl⟩ | ⟨hnone, rfl⟩
  · obtain ⟨rfl, v, hv, hvs⟩ := reads_blanks hblanks
    obtain ⟨g, hg, hgs⟩ := htrim.before
    obtain ⟨h, hh, hhs⟩ := htrim.after
    refine ⟨some k, rfl, v, g, h, hv, hg, hh, ?_, htrim.inside, ?_⟩
    · simpa using hvs.append (hopen.append hgs)
    · exact hhs.append hclose
  · exact ⟨none, rfl, hnone.eq_of_nil⟩

/-! ## Rules -/

/-- The pieces inside a match make up a piece of the rule, and it is what the
rule should leave behind.  There is one such lemma for each rule, and each looks
at the pattern of that rule only. -/
def Assembles (t : Text) (r : Rule) (s e : Nat) (ps : List Piece) : Prop :=
  ∃ piece, assemble t r ⟨s, e⟩ ps = some piece ∧ Leaves t r s e [piece]

theorem name_assembles {r : Rule}
    (hr : r ∈ [Rule.rawName, .voidName, .tagName, .blockName])
    (h : (ruleBody r).Reads t (Rests t) s e ps) : Assembles t r s e ps := by
  obtain ⟨w, hw⟩ := reads_stands h
  have hslice := Text.slice?_eq_some.2 hw
  simp only [List.mem_cons, List.not_mem_nil, or_false] at hr
  rcases hr with rfl | rfl | rfl | rfl <;>
    exact ⟨.name _ w, by simp [assemble, hslice], w, rfl, hw⟩

theorem eachIndex_assembles
    (h : (ruleBody .eachIndex).Reads t (Rests t) s e ps) :
    Assembles t .eachIndex s e ps := by
  obtain ⟨-, i, hi, hall, hstands⟩ := reads_identifier h
  have hslice := Text.slice?_eq_some.2 hstands
  exact ⟨.name .eachIndex i, by simp [assemble, hslice], i, rfl, hi,
    hall, hstands⟩

/-- An expression is the text of its match without the white space around it. -/
theorem expression_assembles {r : Rule}
    (hr : r ∈ [Rule.expression, .eachExpression, .awaitExpression])
    (h : (ruleBody r).Reads t (Rests t) s e ps) : Assembles t r s e ps := by
  obtain ⟨w, hw⟩ := reads_stands h
  obtain ⟨x, hx, htrim⟩ := Text.trimSpan?_eq_some hw
  simp only [List.mem_cons, List.not_mem_nil, or_false] at hr
  rcases hr with rfl | rfl | rfl <;>
    exact ⟨.expression _ x, by simp [assemble, hx], x, rfl, htrim⟩

theorem eachKey_assembles (h : (ruleBody .eachKey).Reads t (Rests t) s e ps) :
    Assembles t .eachKey s e ps := by
  obtain ⟨w, hw⟩ := reads_stands h
  obtain ⟨x, hx, htrim⟩ := Text.trimSpan?_eq_some hw
  exact ⟨.key x, by simp [assemble, hx], x, rfl, htrim⟩

theorem binding_assembles (h : (ruleBody .binding).Reads t (Rests t) s e ps) :
    Assembles t .binding s e ps := by
  obtain ⟨w, hw⟩ := reads_stands h
  have hslice := Text.slice?_eq_some.2 hw
  exact ⟨.binding ⟨w, ⟨s, e⟩⟩, by simp [assemble, hslice], _, rfl, rfl, hw⟩

theorem reads_expressionTag {opening : String}
    (h : (expressionTag [lit opening]).Reads t (Rests t) s e ps) :
    ∃ x, ps = [.expression .expression x] ∧
      ExpressionTag t opening.toList ⟨s, e⟩ x := by
  obtain ⟨m, _, _, ⟨hopen, rfl⟩, htail, rfl⟩ := h
  obtain ⟨x, rfl, ⟨g, hg, hgs⟩, hinside, hend⟩ := reads_expressionEnd htail
  exact ⟨x, rfl, ⟨⟨g, hg, hopen.append hgs⟩, hinside, hend⟩⟩

theorem ifOpen_assembles (h : (ruleBody .ifOpen).Reads t (Rests t) s e ps) :
    Assembles t .ifOpen s e ps := by
  obtain ⟨x, rfl, htag⟩ := reads_expressionTag h
  exact ⟨.opening _ ⟨s, e⟩ x, rfl, x, rfl, htag⟩

theorem awaitOpen_assembles
    (h : (ruleBody .awaitOpen).Reads t (Rests t) s e ps) :
    Assembles t .awaitOpen s e ps := by
  obtain ⟨x, rfl, htag⟩ := reads_expressionTag h
  exact ⟨.opening _ ⟨s, e⟩ x, rfl, x, rfl, htag⟩

theorem elseIfOpen_assembles
    (h : (ruleBody .elseIfOpen).Reads t (Rests t) s e ps) :
    Assembles t .elseIfOpen s e ps := by
  obtain ⟨m₁, _, _, ⟨hopen, rfl⟩,
      ⟨m₂, _, _, hgap, ⟨m₃, _, _, ⟨hif, rfl⟩, htail, rfl⟩, rfl⟩, rfl⟩ := h
  obtain ⟨rfl, k, hk, hks⟩ := reads_gap hgap
  obtain ⟨x, rfl, ⟨g, hg, hgs⟩, hinside, hend⟩ := reads_expressionEnd htail
  refine ⟨.opening _ ⟨s, e⟩ x, rfl, x, rfl, k, hk, ⟨⟨g, hg, ?_⟩, hinside, hend⟩⟩
  exact ((hopen.append hks).append hif).append hgs

/-- A tag of one word is the word, white space and the brace. -/
theorem reads_wordTag {opening : String}
    (h : (wordTag opening).Reads t (Rests t) s e ps) :
    ps = [] ∧ WordTag t opening.toList s e := by
  obtain ⟨m, _, _, ⟨hopen, rfl⟩, hend, rfl⟩ := h
  obtain ⟨rfl, w, hw, hws⟩ := reads_tagEnd hend
  exact ⟨rfl, w, hw, hopen.append hws⟩

theorem reads_bindingTag {opening : String}
    (h : (bindingTag opening).Reads t (Rests t) s e ps) :
    ∃ v : Option Binding, ps = v.toList.map Piece.binding ∧
      ValueTag t opening.toList ⟨s, e⟩ v := by
  obtain ⟨m, _, _, ⟨hopen, rfl⟩, hend, rfl⟩ := h
  obtain ⟨v, rfl, n, hvalue, hw⟩ := reads_valueEnd hend
  exact ⟨v, rfl, ⟨m, n, hopen, hvalue, hw⟩⟩

theorem valueTagPiece_map (r : Rule) (x : Span) (v : Option Binding) :
    valueTagPiece r x (v.toList.map Piece.binding) =
      some (.valueTag r x v) := by
  cases v <;> rfl

theorem thenTag_assembles (h : (ruleBody .thenTag).Reads t (Rests t) s e ps) :
    Assembles t .thenTag s e ps := by
  obtain ⟨v, rfl, htag⟩ := reads_bindingTag h
  exact ⟨.valueTag _ ⟨s, e⟩ v, valueTagPiece_map _ _ v, v, rfl, htag⟩

theorem catchTag_assembles (h : (ruleBody .catchTag).Reads t (Rests t) s e ps) :
    Assembles t .catchTag s e ps := by
  obtain ⟨v, rfl, htag⟩ := reads_bindingTag h
  exact ⟨.valueTag _ ⟨s, e⟩ v, valueTagPiece_map _ _ v, v, rfl, htag⟩

theorem eachOpen_assembles (h : (ruleBody .eachOpen).Reads t (Rests t) s e ps) :
    Assembles t .eachOpen s e ps := by
  obtain ⟨m₁, _, _, ⟨hopen, rfl⟩,
      ⟨m₂, _, _, hgap, ⟨m₃, _, _, ⟨-, x, rfl, htrim⟩,
          ⟨m₄, _, _, ⟨n₁, _, _, hgap₁, ⟨n₂, _, _, ⟨has, rfl⟩, hgap₂, rfl⟩, rfl⟩,
            ⟨m₅, _, _, ⟨-, b, rfl, hspan, hname⟩,
            ⟨m₆, _, _, hindex, ⟨m₇, _, _, hkey, hend, rfl⟩, rfl⟩, rfl⟩, rfl⟩,
          rfl⟩, rfl⟩, rfl⟩ := h
  obtain ⟨rfl, g, hg, hgs⟩ := reads_gap hgap
  obtain ⟨rfl, g₁, hg₁, hgs₁⟩ := reads_gap hgap₁
  obtain ⟨rfl, g₂, hg₂, hgs₂⟩ := reads_gap hgap₂
  obtain ⟨i, rfl, hi⟩ := reads_index hindex
  obtain ⟨k, rfl, hk⟩ := reads_key hkey
  obtain ⟨rfl, hw⟩ := reads_tagEnd hend
  obtain ⟨g₀, hg₀, hgs₀⟩ := htrim.before
  obtain ⟨k₀, hk₀, hks₀⟩ := htrim.after
  refine ⟨.eachOpening ⟨s, e⟩ x b i k, ?_, x, b, i, k, rfl, ?_⟩
  · cases i <;> cases k <;> rfl
  · refine ⟨⟨g ++ g₀, hg.append hg₀, ?_⟩, htrim.inside,
      ⟨k₀ ++ g₁, g₂, hk₀.append_gap hg₁, hg₂, ?_⟩, ?_, ⟨m₆, m₇, ?_, hk, hw⟩⟩
    · simpa using (hopen.append hgs).append hgs₀
    · rw [hspan]
      simpa using (hks₀.append hgs₁).append (has.append hgs₂)
    · rw [hspan]
      exact hname
    · rw [hspan]
      exact hi

theorem awaitShortOpen_assembles
    (h : (ruleBody .awaitShortOpen).Reads t (Rests t) s e ps) :
    Assembles t .awaitShortOpen s e ps := by
  obtain ⟨m₁, _, _, ⟨hopen, rfl⟩,
      ⟨m₂, _, _, hgap, ⟨m₃, _, _, ⟨-, x, rfl, htrim⟩,
          ⟨m₄, _, _, hgap₁, ⟨m₅, _, _, ⟨-, rfl, hthen⟩, hend, rfl⟩, rfl⟩, rfl⟩,
        rfl⟩, rfl⟩ := h
  obtain ⟨rfl, g, hg, hgs⟩ := reads_gap hgap
  obtain ⟨rfl, g₁, hg₁, hgs₁⟩ := reads_gap hgap₁
  obtain ⟨v, rfl, n, hvalue, hw⟩ := reads_valueEnd hend
  obtain ⟨g₀, hg₀, hgs₀⟩ := htrim.before
  obtain ⟨k₀, hk₀, hks₀⟩ := htrim.after
  refine ⟨.shortOpening ⟨s, e⟩ x v, ?_, x, v, rfl, ?_⟩
  · cases v <;> rfl
  · refine ⟨⟨g ++ g₀, hg.append hg₀, ?_⟩, htrim.inside,
      ⟨k₀ ++ g₁, m₅, n, hk₀.append_gap hg₁, ?_, hvalue, hw⟩⟩
    · simpa using (hopen.append hgs).append hgs₀
    · exact (hks₀.append hgs₁).append hthen

end TemplateJsx.Markup
