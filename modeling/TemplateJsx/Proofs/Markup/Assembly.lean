import TemplateJsx.Markup.Parse
import TemplateJsx.Proofs.Markup.Tags

/-!
# Reading nodes and blocks

The rules for nodes, bodies and blocks leave behind sound pieces of the tree,
assuming that the rules they refer to do.  Plain text stands apart: that it goes
as far as it can is not said by what is read, so it is taken from the recogniser
itself (`text_run`).

By induction on the depth of calls every rule leaves behind what it should
(`recognise_rests`).  The tree of a text is therefore sound, and there is one
for every text that the grammar matches (`parse_sound`).
-/

namespace TemplateJsx.Markup

open Peg (Rounds Cursor Recogniser Match Capture)
open Peg.Pattern

variable {t : Text} {s m e : Nat} {ps : List Piece}

/-! ## Plain text -/

def textStops : List Pat :=
  [.sequence (lit "<") (.choice letter (oneOf "/!")), lit "\x7b"]

private theorem textStops_isSome (call : Rule → Recogniser Rule) (offset : Nat)
    (x : Char) (rest : Text) (names : List Text) :
    ((firstOf textStops).recognise call ⟨offset, x :: rest, names⟩).isSome =
      stopsText (x :: rest) := by
  by_cases hbrace : x = '{'
  · subst hbrace
    simp [textStops, firstOf, lit, recognise, Cursor.word?,
      Cursor.one?, stopsText]
  · by_cases hless : x = '<'
    · subst hless
      cases rest with
      | nil =>
          simp [textStops, firstOf, lit, letter, oneOf, recognise, Cursor.word?,
            Cursor.one?, stopsText, Match.plain]
      | cons y rest =>
          by_cases hletter : y.isAlpha = true <;> by_cases hslash : y = '/' <;>
            by_cases hmark : y = '!' <;>
            simp [textStops, firstOf, lit, letter, oneOf, recognise,
              Cursor.word?, Cursor.one?, stopsText, Match.plain, hletter,
              hslash, hmark]
    · simp [textStops, firstOf, lit, recognise, Cursor.word?, Cursor.one?,
        stopsText, hbrace, hless, Ne.symm hbrace, Ne.symm hless]

/-- One character of plain text is taken where plain text does not stop. -/
theorem textItem_recognise (call : Rule → Recogniser Rule) (c : Cursor) :
    (anythingBut textStops).recognise call c =
      if stopsText c.rest then none
      else (c.one? fun _ => true).map .plain := by
  rcases c with ⟨offset, rest, names⟩
  cases rest with
  | nil =>
      simp only [anythingBut, anything, recognise, stopsText, if_true]
      split <;> simp [Cursor.one?, Match.plain]
  | cons x rest =>
      have hstops := textStops_isSome call offset x rest names
      simp only [anythingBut, anything, recognise, hstops]
      cases stopsText (x :: rest) <;> simp [Cursor.one?, Match.plain]

/-- Plain text begins where it may and goes as far as it can, so two nodes of
plain text never stand side by side. -/
theorem text_run {call : Rule → Recogniser Rule} {c : Cursor} {r : Match Rule}
    (hc : c.At t) (h : (ruleBody .text).recognise call c = some r)
    (hr : r.cursor.At t) :
    TextRun t ⟨c.offset, r.cursor.offset⟩ := by
  have hbody : (many1 (anythingBut textStops)).recognise call c = some r := h
  simp only [many1, recognise, Option.bind_eq_some_iff, Option.map_eq_some_iff,
    Option.some.injEq] at hbody
  obtain ⟨first, hfirst, rest, hrest, rfl⟩ := hbody
  have hstart : stopsText c.rest = false := by
    by_cases hstops : stopsText c.rest = true
    · rw [textItem_recognise, if_pos hstops] at hfirst
      cases hfirst
    · simpa using hstops
  have hshort : ∀ d n, (anythingBut textStops).recognise call d = some n →
      n.cursor.rest.length < d.rest.length := by
    intro d n hn
    rw [textItem_recognise] at hn
    split at hn
    · cases hn
    · obtain ⟨d', hd', rfl⟩ := Option.map_eq_some_iff.1 hn
      obtain ⟨x, -, hrest, -, -⟩ := Cursor.one?_eq_some hd'
      simp [Match.plain, hrest]
  have hstop :=
    Recogniser.repeat_stops hshort _ first.cursor (Nat.lt_succ_self _)
  rw [hrest, textItem_recognise] at hstop
  refine ⟨⟨c.rest, hc, hstart⟩, ⟨rest.cursor.rest, hr, ?_⟩⟩
  cases hrest' : rest.cursor.rest with
  | nil => rfl
  | cons x xs =>
      rw [← hrest']
      by_cases hstops : stopsText rest.cursor.rest = true
      · exact hstops
      · rw [if_neg hstops] at hstop
        simp [Cursor.one?, hrest'] at hstop

/-! ## Fragments -/

theorem reads_node (h : node.Reads t (Rests t) s e ps) :
    ∃ n, ps = [.node n] ∧ n.span = ⟨s, e⟩ ∧ n.Sound t := by
  rcases h with ⟨-, h⟩ | ⟨-, h⟩ | ⟨-, h⟩ | ⟨-, h⟩ | ⟨-, h⟩ | ⟨-, h⟩ | ⟨-, h⟩ |
    ⟨-, h⟩ | ⟨-, h⟩ | ⟨-, h⟩ <;>
    exact h

theorem reads_nodes (h : Rounds t (node.Reads t (Rests t)) s e ps) :
    ∃ ns : List Node, ps = ns.map Piece.node ∧ Abut s (ns.map Node.span) e ∧
      ∀ n ∈ ns, n.Sound t := by
  induction h with
  | done h => exact ⟨[], rfl, h.eq_of_nil, by simp⟩
  | next first rest ih =>
      obtain ⟨n, rfl, hspan, hsound⟩ := reads_node first
      obtain ⟨ns, rfl, habut, hsounds⟩ := ih
      refine ⟨n :: ns, rfl, ?_, by simpa using ⟨hsound, hsounds⟩⟩
      simpa [hspan] using habut

theorem mapM_node? (ns : List Node) :
    (ns.map Piece.node).mapM Piece.node? = some ns := by
  induction ns with
  | nil => rfl
  | cons n ns ih => simp [List.mapM_cons, ih, Piece.node?]

theorem fragment_assembles (h : (ruleBody .fragment).Reads t (Rests t) s e ps) :
    Assembles t .fragment s e ps := by
  have hstands := reads_stands h
  obtain ⟨ns, rfl, habut, hsounds⟩ := reads_nodes h
  refine ⟨.fragment ⟨⟨s, e⟩, ns⟩, ?_, _, rfl, rfl, ⟨⟨hstands, habut⟩, hsounds⟩⟩
  simp only [assemble, fragmentPiece, mapM_node?, Option.map_some]

theorem document_assembles (h : (ruleBody .document).Reads t (Rests t) s e ps) :
    Assembles t .document s e ps := by
  obtain ⟨m₁, _, _, ⟨hstart, hzero, rfl⟩,
      ⟨m₂, _, _, ⟨-, f, rfl, hspan, hsound⟩, ⟨-, rfl, hend⟩, rfl⟩, rfl⟩ := h
  have hm : m₁ = 0 := hstart.eq_of_nil.trans hzero
  exact ⟨.document f, rfl, f, rfl, by rw [hspan, hm, hend], hsound⟩

/-! ## Nodes that are no control-flow blocks -/

/-- A node around sound fragments is sound if the text outside them ends as tags
do.  Elements and blocks that are no control-flow blocks are all put together by
way of this. -/
theorem other_sound {kind : OtherKind} {children : List Fragment}
    (hkind : kind ≠ .text) (hstands : ∃ w, t.Stands s w e) (hlt : s < e)
    (hfenced : Fenced t s (children.map FragmentOf.span) e)
    (hsound : ∀ f ∈ children, f.Sound t) :
    (Node.other kind ⟨s, e⟩ children).Sound t := by
  obtain ⟨w, hw⟩ := hstands
  exact .of_fragments ⟨⟨w, hw.ne_nil hlt, hw⟩, hfenced.ascend, (absurd · hkind),
    fun _ => hfenced⟩ hsound

theorem endsTag_lit {word : String}
    (hword : word.toList.getLast? = some '>' ∨ word.toList.getLast? = some '}')
    (h : (lit word).Reads t (Rests t) s e ps) : EndsTag t s e := by
  rcases hword with hword | hword
  · obtain ⟨w, hw⟩ := List.getLast?_eq_some_iff.1 hword
    exact ⟨w, '>', Or.inl rfl, hw ▸ h.1⟩
  · obtain ⟨w, hw⟩ := List.getLast?_eq_some_iff.1 hword
    exact ⟨w, '}', Or.inr rfl, hw ▸ h.1⟩

theorem endsTag_seq (items : List Pat) {last : Pat}
    (hlast : ∀ {m ps}, last.Reads t (Rests t) m e ps → EndsTag t m e)
    (h : (seq (items ++ [last])).Reads t (Rests t) s e ps) : EndsTag t s e := by
  induction items generalizing s ps with
  | nil => exact hlast h
  | cons item items ih =>
      obtain ⟨next, more, hnext⟩ : ∃ next more,
          items ++ [last] = next :: more :=
        List.exists_cons_of_ne_nil (by simp)
      rw [hnext] at ih
      rw [List.cons_append, hnext] at h
      obtain ⟨m, _, _, hitem, hrest, -⟩ := h
      obtain ⟨w, hw⟩ := reads_stands hitem
      exact (ih hrest).prepend hw

theorem lt_of_reads_literal {w : Text} {q : Pat} (hw : w ≠ [])
    (h : (Peg.Pattern.sequence (.literal w) q).Reads t (Rests t) s e ps) :
    s < e := by
  obtain ⟨m, _, _, ⟨hword, -⟩, hrest, -⟩ := h
  obtain ⟨v, hv⟩ := reads_stands hrest
  have hlt := hword.lt hw
  have hle := hv.le
  omega

theorem reads_attributes (h : attributes.Reads t (Rests t) s e ps) :
    ps.filterMap Piece.fragment? = [] := by
  have hrounds : Rounds t
      ((Peg.Pattern.sequence gap (.rule .attr)).Reads t (Rests t)) s e ps := h
  clear h
  induction hrounds with
  | done h => rfl
  | next first rest ih =>
      obtain ⟨m, _, _, hgap, ⟨-, rfl⟩, rfl⟩ := first
      obtain ⟨rfl, -⟩ := reads_gap hgap
      simpa [Piece.fragment?] using ih

theorem reads_closing {opening stop : String}
    (h : (closing opening stop).Reads t (Rests t) s e ps) :
    ps = [] := by
  obtain ⟨_, _, _, ⟨-, rfl⟩, ⟨_, _, _, ⟨-, rfl⟩,
      ⟨_, _, _, hblanks, ⟨-, rfl⟩, rfl⟩, rfl⟩, rfl⟩ := h
  simpa using (reads_blanks hblanks).1

theorem endsTag_closing {opening stop : String}
    (hstop : stop.toList.getLast? = some '>' ∨ stop.toList.getLast? = some '}')
    (h : (closing opening stop).Reads t (Rests t) s e ps) : EndsTag t s e :=
  endsTag_seq [_, _, _] (endsTag_lit hstop) h

theorem comment_assembles (h : (ruleBody .comment).Reads t (Rests t) s e ps) :
    Assembles t .comment s e ps :=
  ⟨leaf .comment ⟨s, e⟩, rfl, _, rfl, rfl,
    other_sound nofun (reads_stands h) (lt_of_reads_literal (by decide) h)
      (endsTag_seq [_, _] (endsTag_lit (by decide)) h) (by simp)⟩

theorem mustache_assembles (h : (ruleBody .mustache).Reads t (Rests t) s e ps) :
    Assembles t .mustache s e ps :=
  ⟨leaf .expression ⟨s, e⟩, rfl, _, rfl, rfl,
    other_sound nofun (reads_stands h) (lt_of_reads_literal (by decide) h)
      (endsTag_seq [_, _, _] (endsTag_lit (by decide)) h) (by simp)⟩

theorem named_leaves (rule : Rule) (kind : Text → OtherKind) {name : Text}
    {rest : List Piece} (children : List Fragment) (hkind : kind name ≠ .text)
    (hchildren : rest.filterMap Piece.fragment? = children)
    (hstands : ∃ w, t.Stands s w e) (hlt : s < e)
    (hfenced : Fenced t s (children.map FragmentOf.span) e)
    (hsound : ∀ f ∈ children, f.Sound t) :
    ∃ piece,
      namedPiece rule kind ⟨s, e⟩ (.name rule name :: rest) = some piece ∧
      ∃ n, [piece] = [.node n] ∧ n.span = ⟨s, e⟩ ∧ n.Sound t := by
  subst hchildren
  exact ⟨_, if_pos rfl, _, rfl, rfl,
    other_sound hkind hstands hlt hfenced hsound⟩

theorem voidElement_assembles
    (h : (ruleBody .voidElement).Reads t (Rests t) s e ps) :
    Assembles t .voidElement s e ps := by
  have hstands := reads_stands h
  have hends : EndsTag t s e :=
    endsTag_seq [_, _, _, _, _] (endsTag_lit (by decide)) h
  obtain ⟨_, _, _, ⟨-, rfl⟩, ⟨_, _, _, ⟨-, n, rfl, -⟩,
      ⟨_, _, _, hattributes, ⟨_, _, _, hblanks,
          ⟨_, slash, _, hslash, ⟨-, rfl⟩, rfl⟩, rfl⟩, rfl⟩, rfl⟩, rfl⟩ := h
  obtain ⟨rfl, -⟩ := reads_blanks hblanks
  have hslash' : slash = [] := by rcases hslash with ⟨-, h⟩ | ⟨-, h⟩ <;> exact h
  refine named_leaves .voidName .element [] (by simp) ?_ hstands hends.lt
    hends (by simp)
  simp [hslash', reads_attributes hattributes]

theorem rawElement_assembles
    (h : (ruleBody .rawElement).Reads t (Rests t) s e ps) :
    Assembles t .rawElement s e ps := by
  have hstands := reads_stands h
  have hends : EndsTag t s e :=
    endsTag_seq [_, _, _, _, _, _] (endsTag_closing (by decide)) h
  obtain ⟨_, _, _, ⟨-, rfl⟩, ⟨_, _, _, ⟨-, n, rfl, -⟩,
      ⟨_, _, _, hattributes, ⟨_, _, _, hblanks,
          ⟨_, _, _, ⟨-, rfl⟩, ⟨_, _, _, ⟨-, rfl⟩, hclosing, rfl⟩, rfl⟩, rfl⟩,
        rfl⟩, rfl⟩, rfl⟩ := h
  obtain ⟨rfl, -⟩ := reads_blanks hblanks
  obtain rfl := reads_closing hclosing
  refine named_leaves .rawName .rawText [] (by simp) ?_ hstands hends.lt
    hends (by simp)
  simp [reads_attributes hattributes, Piece.fragment?]

theorem element_assembles (h : (ruleBody .element).Reads t (Rests t) s e ps) :
    Assembles t .element s e ps := by
  have hstands := reads_stands h
  have hlt : s < e := lt_of_reads_literal (by decide) h
  obtain ⟨m₁, _, _, ⟨hopen, rfl⟩,
      ⟨m₂, _, _, ⟨⟨_, hname⟩, n, rfl, -⟩,
        ⟨m₃, _, _, hattributes, ⟨m₄, _, _, hblanks, hend, rfl⟩, rfl⟩, rfl⟩,
      rfl⟩ := h
  obtain ⟨_, hattributes'⟩ := reads_stands hattributes
  obtain ⟨rfl, _, -, hblanks'⟩ := reads_blanks hblanks
  have hbefore := ((hopen.append hname).append hattributes').append hblanks'
  rcases hend with ⟨m₅, _, _, ⟨hmark, rfl⟩, ⟨hdrop, rfl⟩, rfl⟩ |
    ⟨m₅, _, _, ⟨hmark, rfl⟩, ⟨m₆, _, _, ⟨-, f, rfl, hspan, hsound⟩,
        hclosing, rfl⟩, rfl⟩
  · obtain rfl : e = m₅ := hdrop.eq_of_nil
    have hends : EndsTag t s e :=
      .prepend hbefore ⟨['/'], '>', Or.inl rfl, hmark⟩
    refine named_leaves .tagName .element [] (by simp) ?_ hstands hlt
      hends (by simp)
    simp [reads_attributes hattributes]
  · have hends : EndsTag t s m₅ := .prepend hbefore ⟨[], '>', Or.inl rfl, hmark⟩
    have hends' : EndsTag t m₆ e := endsTag_closing (by decide) hclosing
    obtain rfl := reads_closing hclosing
    refine named_leaves .tagName .element [f] (by simp) ?_ hstands hlt ?_
      (by simpa using hsound)
    · simp [reads_attributes hattributes, Piece.fragment?]
    · simp only [List.map_cons, List.map_nil, Fenced, hspan]
      exact ⟨hends, hends'⟩

theorem otherBlock_assembles
    (h : (ruleBody .otherBlock).Reads t (Rests t) s e ps) :
    Assembles t .otherBlock s e ps := by
  have hstands := reads_stands h
  have hlt : s < e := lt_of_reads_literal (by decide) h
  obtain ⟨m₁, _, _, ⟨hopen, rfl⟩,
      ⟨m₂, _, _, ⟨hno, rfl⟩, ⟨m₃, _, _, ⟨⟨_, hname⟩, n, rfl, -⟩,
          ⟨m₄, head, _, hhead, ⟨m₅, _, _, hblanks,
            ⟨m₆, _, _, ⟨hbrace, rfl⟩,
            ⟨m₇, _, _, ⟨-, f, rfl, hspan, hsound⟩, hclosing, rfl⟩, rfl⟩, rfl⟩,
            rfl⟩, rfl⟩, rfl⟩, rfl⟩ := h
  obtain ⟨_, hhead'⟩ := reads_stands hhead
  obtain ⟨rfl, _, -, hblanks'⟩ := reads_blanks hblanks
  have hbefore :=
    (((hopen.append hno).append hname).append hhead').append hblanks'
  have hends : EndsTag t s m₆ := .prepend hbefore ⟨[], '}', Or.inr rfl, hbrace⟩
  have hends' : EndsTag t m₇ e := endsTag_closing (by decide) hclosing
  obtain rfl := reads_closing hclosing
  have hnone : head.filterMap Piece.fragment? = [] := by
    rcases hhead with ⟨_, _, _, hgap, ⟨-, x, rfl, -⟩, rfl⟩ | ⟨-, rfl⟩
    · obtain ⟨rfl, -⟩ := reads_gap hgap
      rfl
    · rfl
  refine named_leaves .blockName .block [f] (by simp) ?_ hstands hlt ?_
    (by simpa using hsound)
  · simp [hnone, Piece.fragment?]
  · simp only [List.map_cons, List.map_nil, Fenced, hspan]
    exact ⟨hends, hends'⟩

/-! ## Clauses -/

theorem elseClause_assembles
    (h : (ruleBody .elseClause).Reads t (Rests t) s e ps) :
    Assembles t .elseClause s e ps := by
  obtain ⟨m, _, _, ⟨-, rfl, htag⟩, ⟨-, f, rfl, hspan, hsound⟩, rfl⟩ := h
  exact ⟨.clause ⟨⟨s, m⟩, f⟩, rfl, _, rfl, by simp [hspan], htag, hsound⟩

theorem thenClause_assembles
    (h : (ruleBody .thenClause).Reads t (Rests t) s e ps) :
    Assembles t .thenClause s e ps := by
  obtain ⟨m, _, _, ⟨-, v, rfl, htag⟩, ⟨-, f, rfl, hspan, hsound⟩, rfl⟩ := h
  exact ⟨.handler _ ⟨⟨s, m⟩, v, f⟩, rfl, _, rfl, by simp [hspan], htag, hsound⟩

theorem catchClause_assembles
    (h : (ruleBody .catchClause).Reads t (Rests t) s e ps) :
    Assembles t .catchClause s e ps := by
  obtain ⟨m, _, _, ⟨-, v, rfl, htag⟩, ⟨-, f, rfl, hspan, hsound⟩, rfl⟩ := h
  exact ⟨.handler _ ⟨⟨s, m⟩, v, f⟩, rfl, _, rfl, by simp [hspan], htag, hsound⟩

/-- Later arms and an `else` clause that lie one after another, all of them
sound.  The grammar nests an arm in the one before it, while the tree has them
in a row. -/
structure LinksLaid (t : Text) (s : Nat) (arms : List (Arm Fragment))
    (o : Option (Clause Fragment)) (e : Nat) : Prop where
  parts : Abut s (arms.flatMap (fun a => [a.tag, a.body.span]) ++
    o.toList.flatMap fun c => [c.tag, c.body.span]) e
  arms : ∀ a ∈ arms, a.span.start = a.tag.start ∧ LinkTag t a.tag a.expression ∧
    a.body.Sound t
  otherwise : ∀ c ∈ o, WordTag t "\x7b:else".toList c.tag.start c.tag.stop ∧
    c.body.Sound t

/-- What may follow the body of an arm, and the pieces that it leaves behind: a
further arm, which brings all later ones along, an `else` clause, or nothing. -/
theorem reads_alternate
    (h : (Peg.Pattern.optional alternate).Reads t (Rests t) s e ps) :
    ∃ arms o, LinksLaid t s arms o e ∧
      (ps = [.links arms o] ∨ (arms = [] ∧ ps =
        o.toList.map Piece.clause)) := by
  rcases h with (⟨-, arms, o, rfl, hparts, harms, ho⟩ |
    ⟨-, c, rfl, hparts, htag, hsound⟩) | ⟨hnone, rfl⟩
  · exact ⟨arms, o, ⟨hparts, harms, ho⟩, Or.inl rfl⟩
  · refine ⟨[], some c, ⟨by simpa using hparts, by simp, ?_⟩, Or.inr ⟨rfl, rfl⟩⟩
    rintro c' hc'
    cases hc'
    exact ⟨htag, hsound⟩
  · exact ⟨[], none, ⟨hnone.eq_of_nil, by simp, by simp⟩, Or.inr ⟨rfl, rfl⟩⟩

theorem elseIf_assembles (h : (ruleBody .elseIf).Reads t (Rests t) s e ps) :
    Assembles t .elseIf s e ps := by
  obtain ⟨m₁, _, _, ⟨-, x, rfl, htag⟩,
      ⟨m₂, _, _, ⟨-, f, rfl, hspan, hsound⟩, halternate, rfl⟩, rfl⟩ := h
  obtain ⟨arms, o, hlaid, hps⟩ := reads_alternate halternate
  refine ⟨.links (⟨⟨s, e⟩, ⟨s, m₁⟩, x, f⟩ :: arms) o, ?_, _, _, rfl, ?_, ?_,
    hlaid.otherwise⟩
  · rcases hps with rfl | ⟨rfl, rfl⟩
    · rfl
    · cases o <;> rfl
  · simpa [hspan] using hlaid.parts
  · intro a ha
    rcases List.mem_cons.1 ha with rfl | ha
    · exact ⟨rfl, htag, hsound⟩
    · exact hlaid.arms a ha

/-! ## Control-flow blocks -/

theorem block_sound {b : Block Fragment}
    (hstands : ∃ w, t.Stands b.span.start w b.span.stop)
    (hlt : b.span.start < b.span.stop) (hlaid : b.Laid t) (htagged : b.Tagged t)
    (hsound : ∀ f ∈ b.bodies, f.Sound t) : (Node.block b).Sound t := by
  obtain ⟨w, hw⟩ := hstands
  exact .of_fragments ⟨⟨w, hw.ne_nil hlt, hw⟩, hlaid, htagged⟩ hsound

theorem ifBlock_assembles (h : (ruleBody .ifBlock).Reads t (Rests t) s e ps) :
    Assembles t .ifBlock s e ps := by
  have hstands := reads_stands h
  obtain ⟨m₁, _, _, ⟨⟨_, hopen⟩, x, rfl, htag⟩,
      ⟨m₂, _, _, ⟨⟨_, hbody⟩, f, rfl, hspan, hsound⟩,
        ⟨m₃, _, _, halternate, ⟨-, rfl, hclose⟩, rfl⟩, rfl⟩, rfl⟩ := h
  have hlt : s < e := by
    obtain ⟨_, hlinks⟩ := reads_stands halternate
    have h₁ := hopen.le
    have h₂ := hbody.le
    have h₃ := hlinks.le
    have h₄ := hclose.lt
    omega
  obtain ⟨arms, o, hlaid, hps⟩ := reads_alternate halternate
  refine ⟨conditional ⟨s, e⟩ ⟨s, m₁⟩ x f arms o, ?_, _, rfl, rfl, ?_⟩
  · rcases hps with rfl | ⟨rfl, rfl⟩
    · rfl
    · cases o <;> rfl
  · refine block_sound hstands hlt ⟨⟨m₃, ?_, hclose⟩, ?_⟩ ⟨htag, ?_, ?_⟩ ?_
    · simpa [Block.parts, Block.span, IfBlock.span, hspan, List.flatMap_map]
        using hlaid.parts
    · intro a ha
      obtain ⟨arm, harm, rfl⟩ := List.mem_map.1 ha
      simp [(hlaid.arms arm harm).1, Block.span, IfBlock.span]
    · intro a ha
      obtain ⟨arm, harm, rfl⟩ := List.mem_map.1 ha
      exact (hlaid.arms arm harm).2.1
    · intro c hc
      exact (hlaid.otherwise c hc).1
    · intro body hbody
      simp only [Block.bodies, IfBlock.bodies, List.mem_cons, List.mem_append,
        List.map_map, List.mem_map, Option.mem_toList,
        Option.map_eq_some_iff] at hbody
      rcases hbody with rfl | ⟨arm, harm, rfl⟩ | ⟨c, hc, rfl⟩
      · exact hsound
      · exact (hlaid.arms arm harm).2.2
      · exact (hlaid.otherwise c hc).2

theorem reads_fallback
    (h : (Peg.Pattern.optional (.rule .elseClause)).Reads t (Rests t) s e ps) :
    ∃ o : Option (Clause Fragment), ps = o.toList.map Piece.clause ∧
      Abut s (o.toList.flatMap fun c => [c.tag, c.body.span]) e ∧
      ∀ c ∈ o, WordTag t "\x7b:else".toList c.tag.start c.tag.stop ∧
      c.body.Sound t := by
  rcases h with ⟨-, c, rfl, hparts, htag, hsound⟩ | ⟨hnone, rfl⟩
  · refine ⟨some c, rfl, by simpa using hparts, ?_⟩
    rintro c' hc'
    cases hc'
    exact ⟨htag, hsound⟩
  · exact ⟨none, rfl, hnone.eq_of_nil, by simp⟩

theorem eachBlock_assembles
    (h : (ruleBody .eachBlock).Reads t (Rests t) s e ps) :
    Assembles t .eachBlock s e ps := by
  have hstands := reads_stands h
  obtain ⟨m₁, _, _, ⟨⟨_, hopen⟩, x, b, i, k, rfl, htag⟩,
      ⟨m₂, _, _, ⟨⟨_, hbody⟩, f, rfl, hspan, hsound⟩,
        ⟨m₃, _, _, hfallback, ⟨-, rfl, hclose⟩, rfl⟩, rfl⟩, rfl⟩ := h
  have hlt : s < e := by
    obtain ⟨_, hlinks⟩ := reads_stands hfallback
    have h₁ := hopen.le
    have h₂ := hbody.le
    have h₃ := hlinks.le
    have h₄ := hclose.lt
    omega
  obtain ⟨o, rfl, hparts, ho⟩ := reads_fallback hfallback
  refine ⟨iteration ⟨s, e⟩ ⟨s, m₁⟩ x b i k f o, by cases o <;> rfl, _,
    rfl, rfl, ?_⟩
  refine block_sound hstands hlt ⟨⟨m₃, ?_, hclose⟩, nofun⟩
    ⟨htag, fun c hc => (ho c hc).1⟩ ?_
  · simpa [Block.parts, Block.span, hspan] using hparts
  · intro body hbody
    simp only [Block.bodies, EachBlock.bodies, List.mem_cons, Option.mem_toList,
      Option.map_eq_some_iff] at hbody
    rcases hbody with rfl | ⟨c, hc, rfl⟩
    · exact hsound
    · exact (ho c hc).2

theorem reads_rescue
    (h : (Peg.Pattern.optional (.rule .catchClause)).Reads t (Rests t) s e ps) :
    ∃ o : Option (Handler Fragment),
      ps = o.toList.map (Piece.handler .catchClause) ∧
      Abut s (o.toList.flatMap fun h => [h.tag, h.body.span]) e ∧
      ∀ h ∈ o, ValueTag t "\x7b:catch".toList h.tag h.value ∧
      h.body.Sound t := by
  rcases h with ⟨-, h, rfl, hparts, htag, hsound⟩ | ⟨hnone, rfl⟩
  · refine ⟨some h, rfl, by simpa using hparts, ?_⟩
    rintro h' hh'
    cases hh'
    exact ⟨htag, hsound⟩
  · exact ⟨none, rfl, hnone.eq_of_nil, by simp⟩

private theorem shortAwait_assembles
    (h : (seq [.rule .awaitShortOpen, .rule .fragment,
          .optional (.rule .catchClause), .rule .awaitClose]).Reads t
      (Rests t) s e ps) : Assembles t .awaitBlock s e ps := by
  have hstands := reads_stands h
  obtain ⟨m₁, _, _, ⟨⟨_, hopen⟩, x, v, rfl, htag⟩,
      ⟨m₂, _, _, ⟨⟨_, hbody⟩, f, rfl, hspan, hsound⟩,
        ⟨m₃, _, _, hrescue, ⟨-, rfl, hclose⟩, rfl⟩, rfl⟩, rfl⟩ := h
  have hlt : s < e := by
    obtain ⟨_, hlinks⟩ := reads_stands hrescue
    have h₁ := hopen.le
    have h₂ := hbody.le
    have h₃ := hlinks.le
    have h₄ := hclose.lt
    omega
  obtain ⟨o, rfl, hparts, ho⟩ := reads_rescue hrescue
  refine ⟨shortAwait ⟨s, e⟩ ⟨s, m₁⟩ x v f o, by cases o <;> rfl, _,
    rfl, rfl, ?_⟩
  refine block_sound hstands hlt ⟨⟨m₃, ?_, hclose⟩, nofun⟩
    ⟨htag, fun c hc => (ho c hc).1⟩ ?_
  · simpa [Block.parts, Block.span, hspan] using hparts
  · intro body hbody
    simp only [Block.bodies, AwaitBlock.bodies, Option.toList_none,
      List.nil_append, List.mem_cons, Option.mem_toList,
      Option.map_eq_some_iff] at hbody
    rcases hbody with rfl | ⟨c, hc, rfl⟩
    · exact hsound
    · exact (ho c hc).2

private theorem longAwait_assembles
    (h : (seq [.rule .awaitOpen, .rule .fragment, .rule .thenClause,
          .optional (.rule .catchClause), .rule .awaitClose]).Reads t
      (Rests t) s e ps) : Assembles t .awaitBlock s e ps := by
  have hstands := reads_stands h
  obtain ⟨m₁, _, _, ⟨⟨_, hopen⟩, x, rfl, htag⟩,
      ⟨m₂, _, _, ⟨⟨_, hpending⟩, p, rfl, hspan, hsound⟩,
        ⟨m₃, _, _, ⟨⟨_, hsettled⟩, g, rfl, hthen, hthenTag, hbody⟩,
          ⟨m₄, _, _, hrescue, ⟨-, rfl, hclose⟩, rfl⟩, rfl⟩, rfl⟩, rfl⟩ := h
  have hlt : s < e := by
    obtain ⟨_, hlinks⟩ := reads_stands hrescue
    have h₁ := hopen.le
    have h₂ := hpending.le
    have h₃ := hsettled.le
    have h₄ := hlinks.le
    have h₅ := hclose.lt
    omega
  obtain ⟨o, rfl, hparts, ho⟩ := reads_rescue hrescue
  refine ⟨longAwait ⟨s, e⟩ ⟨s, m₁⟩ x p g o, by cases o <;> rfl, _, rfl, rfl, ?_⟩
  refine block_sound hstands hlt ⟨⟨m₄, ?_, hclose⟩, nofun⟩
    ⟨⟨htag, hthenTag⟩, fun c hc => (ho c hc).1⟩ ?_
  · simp only [abut_cons, abut_nil] at hthen
    obtain ⟨htag₁, htag₂, rfl⟩ := hthen
    simpa [Block.parts, Block.span, hspan, htag₁, htag₂] using hparts
  · intro body hmem
    simp only [Block.bodies, AwaitBlock.bodies, Option.toList_some,
      List.cons_append, List.nil_append, List.mem_cons, Option.mem_toList,
      Option.map_eq_some_iff] at hmem
    rcases hmem with rfl | rfl | ⟨c, hc, rfl⟩
    · exact hsound
    · exact hbody
    · exact (ho c hc).2

theorem awaitBlock_assembles
    (h : (ruleBody .awaitBlock).Reads t (Rests t) s e ps) :
    Assembles t .awaitBlock s e ps := by
  rcases h with h | h
  · exact shortAwait_assembles h
  · exact longAwait_assembles h

/-! ## All rules -/

/-- Every rule but plain text leaves behind what it should, if the rules that it
refers to do.  One case for each rule of the grammar, and each of them reads its
own pattern only. -/
theorem rule_assembles (r : Rule) (hr : r ≠ .text)
    (h : (ruleBody r).Reads t (Rests t) s e ps) :
    Assembles t r s e ps := by
  cases r with
  | text => exact absurd rfl hr
  | document => exact document_assembles h
  | fragment => exact fragment_assembles h
  | comment => exact comment_assembles h
  | mustache => exact mustache_assembles h
  | voidElement => exact voidElement_assembles h
  | rawElement => exact rawElement_assembles h
  | element => exact element_assembles h
  | otherBlock => exact otherBlock_assembles h
  | rawName => exact name_assembles (by simp) h
  | voidName => exact name_assembles (by simp) h
  | tagName => exact name_assembles (by simp) h
  | blockName => exact name_assembles (by simp) h
  | eachIndex => exact eachIndex_assembles h
  | expression => exact expression_assembles (by simp) h
  | eachExpression => exact expression_assembles (by simp) h
  | awaitExpression => exact expression_assembles (by simp) h
  | eachKey => exact eachKey_assembles h
  | binding => exact binding_assembles h
  | ifOpen => exact ifOpen_assembles h
  | elseIfOpen => exact elseIfOpen_assembles h
  | awaitOpen => exact awaitOpen_assembles h
  | eachOpen => exact eachOpen_assembles h
  | awaitShortOpen => exact awaitShortOpen_assembles h
  | thenTag => exact thenTag_assembles h
  | catchTag => exact catchTag_assembles h
  | elseTag => exact ⟨_, rfl, rfl, (reads_wordTag h).2⟩
  | elseClause => exact elseClause_assembles h
  | thenClause => exact thenClause_assembles h
  | catchClause => exact catchClause_assembles h
  | elseIf => exact elseIf_assembles h
  | ifBlock => exact ifBlock_assembles h
  | eachBlock => exact eachBlock_assembles h
  | awaitBlock => exact awaitBlock_assembles h
  | ifClose => exact ⟨_, rfl, rfl, (reads_wordTag h).2⟩
  | eachClose => exact ⟨_, rfl, rfl, (reads_wordTag h).2⟩
  | awaitClose => exact ⟨_, rfl, rfl, (reads_wordTag h).2⟩
  | thenKeyword => exact ⟨_, rfl, rfl, h.1⟩
  | endOfInput => exact ⟨_, rfl, rfl, h.1.eq_of_nil.symm.trans h.2.1⟩
  | balanced => exact ⟨_, rfl, trivial⟩
  | _ => exact ⟨_, rfl, rfl⟩

theorem text_assembles {call : Rule → Recogniser Rule} {c : Cursor}
    {r : Match Rule} (hc : c.At t) (hr : r.cursor.At t)
    (h : (ruleBody .text).recognise call c = some r)
    (hreads : (ruleBody .text).Reads t (Rests t) c.offset r.cursor.offset ps) :
    Assembles t .text c.offset r.cursor.offset ps := by
  have hlt : c.offset < r.cursor.offset := by
    obtain ⟨m, _, _, ⟨_, _, _, ⟨hstop, -⟩, ⟨⟨x, -, hx⟩, -⟩, -⟩, hmany, -⟩ :=
      hreads
    obtain ⟨_, hrest⟩ := reads_stands hmany
    have h₁ := hstop.le
    have h₂ := hx.lt (by simp)
    have h₃ := hrest.le
    omega
  obtain ⟨w, hw⟩ := reads_stands hreads
  have hplaced : (Node.other .text ⟨c.offset, r.cursor.offset⟩ []).Placed t :=
    ⟨⟨w, hw.ne_nil hlt, hw⟩, hw.le, fun _ =>
      ⟨rfl, text_run hc h hr⟩, (absurd rfl ·)⟩
  exact ⟨leaf .text ⟨c.offset, r.cursor.offset⟩, rfl, _, rfl, rfl,
    .of_fragments hplaced (by simp [Node.fragments])⟩

theorem ofCaptures?_append {xs ys : List (Capture Rule)} {qs rs : List Piece}
    (hxs : Piece.ofCaptures? t xs = some qs)
    (hys : Piece.ofCaptures? t ys = some rs) :
    Piece.ofCaptures? t (xs ++ ys) = some (qs ++ rs) := by
  induction xs generalizing qs with
  | nil =>
      cases hxs
      exact hys
  | cons x xs ih =>
      simp only [Piece.ofCaptures?, Option.bind_eq_bind,
        Option.bind_eq_some_iff, Option.pure_def, Option.some.injEq] at hxs
      obtain ⟨piece, hpiece, pieces, hpieces, rfl⟩ := hxs
      simp [Piece.ofCaptures?, hpiece, ih hpieces]

/-- **Every rule leaves behind what it should**, however deep calls may go.  By
induction on the depth: the pattern of a rule reads what its rules have left,
and from that its own piece is put together. -/
theorem recognise_rests (depth : Nat) (r : Rule) (c : Cursor) (m : Match Rule)
    (hc : c.At t) (h : grammar.recognise depth r c = some m) :
    Peg.Held t (Piece.ofCaptures? t) (Rests t r) c m := by
  induction depth generalizing r c m with
  | zero => cases h
  | succ depth ih =>
      obtain ⟨inner, hinner, rfl⟩ := Option.map_eq_some_iff.1 h
      have hnil : Piece.ofCaptures? t [] = some [] := rfl
      obtain ⟨hcursor, ps, hps, hreads⟩ :=
        Peg.Pattern.recognise_reads hnil ofCaptures?_append ih (ruleBody r)
          c inner hc hinner
      have hstands := reads_stands hreads
      have hassembles : Assembles t r c.offset inner.cursor.offset ps := by
        by_cases htext : r = .text
        · subst htext
          exact text_assembles hc hcursor hinner hreads
        · exact rule_assembles r htext hreads
      obtain ⟨piece, hpiece, hleaves⟩ := hassembles
      by_cases hnamed : grammar.isNamed r = true
      · rw [if_pos hnamed]
        refine ⟨hcursor, [piece], ?_, hstands, hleaves⟩
        simp [Piece.ofCaptures?, Piece.ofCapture?, hps, hpiece]
      · -- Only balanced stretches are not named, and they leave behind whatever
        -- is inside.
        have hbalanced : r = .balanced := by simpa [grammar] using hnamed
        rw [if_neg hnamed]
        subst hbalanced
        exact ⟨hcursor, ps, hps, hstands, trivial⟩

/-- A text that the grammar matches is read as what its captures make up.
(`delta` keeps the matcher closed.) -/
theorem parse_eq_ok {text : Text} {attempts : Peg.Attempts Rule}
    {m : Match Rule} {f : Fragment}
    (h : matchDocument text = ⟨attempts, some m⟩)
    (hpieces : Piece.ofCaptures? text m.captures = some [.document f]) :
    parse text = .ok f := by
  delta parse
  rw [h]
  simp [hpieces]

theorem parse_eq_error {text : Text} {attempts : Peg.Attempts Rule}
    (h : matchDocument text = ⟨attempts, none⟩) :
    parse text = .error (.unexpected attempts.offset
      (expectedRules attempts)) := by
  delta parse
  rw [h]

private theorem parse_ne_ok {text : Text} {attempts : Peg.Attempts Rule}
    {f : Fragment} (h : matchDocument text = ⟨attempts, none⟩) :
    parse text ≠ .ok f := by
  rw [parse_eq_error h]
  simp

theorem exists_tree (text : Text) (h : (parse text).isOk = true) :
    ∃ tree, parse text = .ok tree := by
  cases htree : parse text with
  | error fault =>
      rw [htree] at h
      cases h
  | ok tree => exact ⟨tree, rfl⟩

theorem exists_tree_of_map {α : Type} {text : Text} {f : Fragment → α} {a : α}
    (h : (parse text).toOption.map f = some a) :
    ∃ tree, parse text = .ok tree ∧ f tree = a := by
  cases htree : parse text with
  | error fault =>
      rw [htree] at h
      cases h
  | ok tree =>
      rw [htree] at h
      exact ⟨tree, rfl, Option.some.inj h⟩

/-- The captures of a match of the whole text make up a tree, which covers the
text and is sound.  So reading never fails after the grammar has matched. -/
theorem tree_of_match {text : Text} {m : Match Rule}
    (h : (matchDocument text).result = some m) :
    ∃ f, Piece.ofCaptures? text m.captures = some [.document f] ∧
      f.span = ⟨0, text.byteLength⟩ ∧ f.Sound text := by
  have hrecognise : grammar.recognise (callDepth * (text.length + 1)) .document
      (.start text) = some m := by
    rw [← Peg.Grammar.call_result]
    exact h
  obtain ⟨-, ps, hps, -, f, rfl, hspan, hsound⟩ :=
    recognise_rests _ _ _ _ (Cursor.at_start text) hrecognise
  exact ⟨f, hps, hspan, hsound⟩

/-- **A tree fits the text that it was read from.**  Whenever the grammar
matches, there is a tree; it covers the whole text and is sound.  Every argument
on lowering starts from here, since it needs the spans and tags of a tree to be
where the tree says. -/
theorem parse_sound {text : Text} {attempts : Peg.Attempts Rule}
    {m : Match Rule} (h : matchDocument text = ⟨attempts, some m⟩) :
    ∃ tree, parse text = .ok tree ∧ tree.span = ⟨0, text.byteLength⟩ ∧
      tree.Sound text := by
  have hresult : (matchDocument text).result = some m := by rw [h]
  obtain ⟨f, hps, hspan, hsound⟩ := tree_of_match hresult
  exact ⟨f, parse_eq_ok h hps, hspan, hsound⟩

theorem sound_of_parse {text : Text} {tree : Fragment}
    (h : parse text = .ok tree) :
    tree.span = ⟨0, text.byteLength⟩ ∧ tree.Sound text := by
  cases hout : matchDocument text with
  | mk attempts result =>
      cases result with
      | none => exact absurd h (parse_ne_ok hout)
      | some m =>
          obtain ⟨tree', hparse, hsound⟩ := parse_sound hout
          rw [h] at hparse
          cases hparse
          exact hsound

end TemplateJsx.Markup
