import TemplateJsx.Proofs.Markup.Nesting
import TemplateJsx.Proofs.Markup.Shapes
import TemplateJsx.Proofs.Peg.Inside
import TemplateJsx.Proofs.Peg.Stack

/-!
# Where the nodes of a tree come from

A tree is put together from the rules that matched, each rule contributing one
piece.  The fragments that a piece brings along come from the pieces inside it,
and only a fragment takes up nodes, those of the pieces inside it.  So every
node of a tree, at any depth, is the piece of a capture of the match
(`origin_of_parse`), and that capture is a match of its rule.
-/

namespace TemplateJsx.Markup

open Peg (Capture Match Cursor Derives Held)
open Peg.Pattern

variable {t : Text}

/-! ## What a piece brings along -/

namespace Piece

/-- The fragments that a piece brings along. -/
def fragments : Piece → List Fragment
  | document f | fragment f => [f]
  | node n => n.fragments
  | clause c => [c.body]
  | links arms otherwise =>
    arms.map Arm.body ++ (otherwise.map Clause.body).toList
  | handler _ h => [h.body]
  | _ => []

/-- The nodes that a piece brings along, at any depth. -/
def nodes (p : Piece) : List Node :=
  p.node?.toList ++ p.fragments.flatMap FragmentOf.allNodes

theorem nodes_node (n : Node) : (node n).nodes = n.allNodes :=
  n.allNodes_eq.symm

theorem nodes_fragment (f : Fragment) : (fragment f).nodes = f.allNodes := by
  simp [nodes, node?, fragments]

theorem mem_nodes_of_fragments {p : Piece} {f : Fragment} {n : Node}
    (hf : f ∈ p.fragments) (hn : n ∈ f.allNodes) :
    n ∈ p.nodes :=
  List.mem_append_right _ (List.mem_flatMap.2 ⟨f, hf, hn⟩)

end Piece

theorem namedPiece_eq_some {rule : Rule} {kind : Text → OtherKind} {x : Span}
    {ps : List Piece} {piece : Piece}
    (h : namedPiece rule kind x ps = some piece) :
    ∃ n rest, ps = .name rule n :: rest ∧
      piece = .node (.other (kind n) x (rest.filterMap Piece.fragment?)) := by
  unfold namedPiece at h
  split at h
  · obtain ⟨rfl, heq⟩ := Option.ite_none_right_eq_some.1 h
    exact ⟨_, _, rfl, (Option.some.inj heq).symm⟩
  · cases h

theorem namedPiece_fragments {rule : Rule} {kind : Text → OtherKind} {x : Span}
    {ps : List Piece} {piece : Piece}
    (h : namedPiece rule kind x ps = some piece) :
    piece.fragments ⊆ ps.flatMap Piece.fragments := by
  obtain ⟨n, rest, rfl, rfl⟩ := namedPiece_eq_some h
  intro f hf
  obtain ⟨p, hp, hpf⟩ :=
    List.mem_filterMap.1 (show f ∈ rest.filterMap Piece.fragment? from hf)
  cases p with
  | fragment f' =>
      cases hpf
      exact List.mem_flatMap.2 ⟨_, List.mem_cons_of_mem _ hp,
        List.mem_singleton_self f⟩
  | _ => cases hpf

theorem assemble_fragments {r : Rule} {x : Span} {ps : List Piece}
    {piece : Piece} (hr : r ≠ .fragment) (h : assemble t r x ps = some piece) :
    piece.fragments ⊆ ps.flatMap Piece.fragments := by
  cases r with
  | fragment => exact absurd rfl hr
  | voidElement | rawElement | element | otherBlock =>
      exact namedPiece_fragments h
  | document =>
      simp only [assemble, documentPiece] at h
      split at h <;> cases h
      simp [Piece.fragments]
  | elseClause =>
      simp only [assemble, clausePiece] at h
      split at h <;> cases h
      simp [Piece.fragments]
  | thenClause | catchClause =>
      simp only [assemble, handlerPiece] at h
      split at h
      · obtain ⟨-, heq⟩ := Option.ite_none_right_eq_some.1 h
        cases heq
        simp [Piece.fragments]
      · cases h
  | elseIf =>
      simp only [assemble, elseIfPiece] at h
      split at h <;> cases h <;> simp [Piece.fragments]
  | ifBlock =>
      simp only [assemble, ifPiece] at h
      intro f hf
      split at h <;> cases h <;>
        simpa [conditional, Piece.fragments, Node.fragments, Block.bodies,
          IfBlock.bodies] using hf
  | eachBlock =>
      simp only [assemble, eachPiece] at h
      split at h <;> cases h <;>
        simp [iteration, Piece.fragments, Node.fragments, Block.bodies,
          EachBlock.bodies]
  | awaitBlock =>
      simp only [assemble, awaitPiece] at h
      split at h <;> cases h <;>
        simp [longAwait, shortAwait, Piece.fragments, Node.fragments,
          Block.bodies, AwaitBlock.bodies]
  | ifOpen | elseIfOpen | awaitOpen =>
      simp only [assemble, openingPiece] at h
      split at h <;> cases h
      exact List.nil_subset _
  | eachOpen =>
      simp only [assemble, eachOpeningPiece] at h
      split at h <;> cases h <;> exact List.nil_subset _
  | awaitShortOpen =>
      simp only [assemble, shortOpeningPiece] at h
      split at h <;> cases h <;> exact List.nil_subset _
  | thenTag | catchTag =>
      simp only [assemble, valueTagPiece] at h
      split at h <;> cases h <;> exact List.nil_subset _
  | rawName | voidName | tagName | blockName | eachIndex | expression
  | eachExpression | awaitExpression | eachKey | binding =>
      obtain ⟨y, -, rfl⟩ := Option.map_eq_some_iff.1 h
      exact List.nil_subset _
  | _ =>
      cases h
      exact List.nil_subset _

theorem mem_of_mapM_node? {ps : List Piece} {ns : List Node}
    (h : ps.mapM Piece.node? = some ns) {n : Node} (hn : n ∈ ns) :
    Piece.node n ∈ ps := by
  induction ps generalizing ns with
  | nil =>
      cases h
      cases hn
  | cons p ps ih =>
      simp only [List.mapM_cons, Option.bind_eq_bind, Option.bind_eq_some_iff,
        Option.pure_def, Option.some.injEq] at h
      obtain ⟨n', hn', ns', hns', rfl⟩ := h
      cases p with
      | node m =>
          cases hn'
          rcases List.mem_cons.1 hn with rfl | hn
          · exact List.mem_cons_self
          · exact List.mem_cons_of_mem _ (ih hns' hn)
      | _ => cases hn'

/-- **A node that a piece brings along is the piece itself, or one inside it
brings it along.**  Putting pieces together moves nodes around and makes one at
a time, but it makes up none and changes none. -/
theorem assemble_nodes {r : Rule} {x : Span} {ps : List Piece} {piece : Piece}
    (h : assemble t r x ps = some piece) {n : Node} (hn : n ∈ piece.nodes) :
    piece = .node n ∨ ∃ p ∈ ps, n ∈ p.nodes := by
  by_cases hr : r = .fragment
  · subst hr
    obtain ⟨ns, hns, rfl⟩ := Option.map_eq_some_iff.1 h
    rw [Piece.nodes_fragment, FragmentOf.allNodes_eq] at hn
    obtain ⟨m, hm, hnm⟩ := List.mem_flatMap.1 hn
    exact Or.inr ⟨.node m, mem_of_mapM_node? hns hm, by rwa [Piece.nodes_node]⟩
  · rcases List.mem_append.1 hn with hown | hinner
    · cases piece with
      | node m =>
          obtain rfl : n = m := by simpa [Piece.node?] using hown
          exact Or.inl rfl
      | _ => cases hown
    · obtain ⟨f, hf, hnf⟩ := List.mem_flatMap.1 hinner
      obtain ⟨p, hp, hfp⟩ := List.mem_flatMap.1 (assemble_fragments hr h hf)
      exact Or.inr ⟨p, hp, Piece.mem_nodes_of_fragments hfp hnf⟩

/-! ## Captures that are nodes -/

mutual

/-- A node that a capture brings along is the piece of that capture or of one
inside it. -/
theorem origin_of_capture (k : Capture Rule) {piece : Piece}
    (h : Piece.ofCapture? t k = some piece) {n : Node} (hn : n ∈ piece.nodes) :
    ∃ k', k'.Inside [k] ∧ Piece.ofCapture? t k' = some (.node n) := by
  match k with
  | .mk r x inner =>
      have hassemble := h
      rw [Piece.ofCapture?] at hassemble
      obtain ⟨ps, hps, hpiece⟩ := Option.bind_eq_some_iff.1 hassemble
      rcases assemble_nodes hpiece hn with rfl | ⟨p, hp, hnp⟩
      · exact ⟨.mk r x inner, .here (List.mem_singleton_self _), h⟩
      · obtain ⟨k', hinside, hk'⟩ := origin_of_captures inner hps hp hnp
        exact ⟨k', .deeper (List.mem_singleton_self _) hinside, hk'⟩

theorem origin_of_captures (ks : List (Capture Rule)) {ps : List Piece}
    (h : Piece.ofCaptures? t ks = some ps) {p : Piece} (hp : p ∈ ps) {n : Node}
    (hn : n ∈ p.nodes) :
    ∃ k', k'.Inside ks ∧ Piece.ofCapture? t k' = some (.node n) := by
  match ks with
  | [] =>
      cases h
      cases hp
  | k :: ks =>
      simp only [Piece.ofCaptures?, Option.bind_eq_bind,
        Option.bind_eq_some_iff, Option.pure_def, Option.some.injEq] at h
      obtain ⟨q, hq, qs, hqs, rfl⟩ := h
      rcases List.mem_cons.1 hp with rfl | hp
      · obtain ⟨k', hinside, hk'⟩ := origin_of_capture k hq hn
        exact ⟨k', hinside.mono (by simp), hk'⟩
      · obtain ⟨k', hinside, hk'⟩ := origin_of_captures ks hqs hp hn
        exact ⟨k', hinside.mono fun _ => List.mem_cons_of_mem _, hk'⟩

end

/-- **Every node of a tree is the piece of a capture of the match**, and that
capture is a match of its rule.  So whatever holds of every match of a rule
holds of the nodes of every tree. -/
theorem origin_of_parse {text : Text} {tree : Fragment}
    (h : parse text = .ok tree) :
    ∃ m, (matchDocument text).result = some m ∧
      ∀ n ∈ tree.allNodes, ∃ k : Capture Rule, k.Inside m.captures ∧
      k.Matched grammar text ∧ Piece.ofCapture? text k = some (.node n) := by
  cases hresult : (matchDocument text).result with
  | none =>
      obtain ⟨offset, expected, hparse⟩ := parse_of_no_match hresult
      rw [h] at hparse
      cases hparse
  | some m =>
      obtain ⟨f, hpieces, hparse⟩ := parse_of_match hresult
      rw [h] at hparse
      cases hparse
      have hderives := (derives_document_iff text _).2 hresult
      refine ⟨m, rfl, ?_⟩
      intro n hn
      rw [← Piece.nodes_fragment] at hn
      obtain ⟨k, hinside, hk⟩ :=
        origin_of_captures m.captures hpieces (List.mem_singleton_self _) hn
      exact ⟨k, hinside, hderives.inside (Cursor.at_start text) rfl hinside, hk⟩

/-! ## A match taken apart -/

theorem grammar_level : grammar.Level := by
  intro r
  cases r <;> rfl

variable {p : Pat} {c : Cursor} {m : Match Rule}

theorem held_of_recognised (hc : c.At t)
    (h : p.recognise recognised c = some m) :
    Held t (Piece.ofCaptures? t) (p.Reads t (Rests t)) c m := by
  have hnil : Piece.ofCaptures? t [] = some [] := rfl
  have hrules : ∀ r, (recognised r).Holds t (Piece.ofCaptures? t) (Rests t r) :=
    fun r c m => recognise_rests _ r c m
  exact recognise_reads hnil ofCaptures?_append hrules p c m hc h

theorem names_of_recognised (hp : p.height 0 = some 0)
    (h : p.recognise recognised c = some m) :
    m.cursor.names = c.names := by
  have hrules : ∀ r c m, recognised r c = some m → m.cursor.names = c.names :=
    fun r c m => grammar_level.recognise_names _ r c m
  exact recognise_names hrules hp h

theorem derives_iff_recognised (hp : p.repeatsTake mayBeEmpty = true)
    {result : Option (Match Rule)} :
    Derives grammar p c result ↔ p.recognise recognised c = result :=
  ranked.derives_pattern_iff grammar_repeatsTake hp c result

/-- A match of a rule, what its pattern reads, and the piece that is put
together from that.  It holds all that is known of a match, and is what the
proofs on single rules start from. -/
structure Opened (t : Text) (r : Rule) (c : Cursor) (m : Match Rule)
    (ps : List Piece) (piece : Piece) : Prop where
  named : grammar.isNamed r = true
  lands : c.At t
  body : (ruleBody r).recognise recognised c = some m
  pieces : Piece.ofCaptures? t m.captures = some ps
  reads : (ruleBody r).Reads t (Rests t) c.offset m.cursor.offset ps
  assembled : assemble t r ⟨c.offset, m.cursor.offset⟩ ps = some piece
  leaves : Leaves t r c.offset m.cursor.offset [piece]

/-- A named rule leaves one capture, and what it matched can be taken apart. -/
theorem opened_of_recognised {r : Rule} (named : grammar.isNamed r = true)
    (hc : c.At t) (h : recognised r c = some m) :
    ∃ inner ps piece, m = ⟨inner.cursor,
      [.mk r ⟨c.offset, inner.cursor.offset⟩ inner.captures]⟩ ∧
      Piece.ofCaptures? t m.captures = some [piece] ∧
      Opened t r c inner ps piece := by
  obtain ⟨-, qs, hqs, -, hleaves⟩ := recognise_rests _ _ _ _ hc h
  rw [recognised_eq] at h
  obtain ⟨inner, hinner, rfl⟩ := Option.map_eq_some_iff.1 h
  simp only [named, if_true] at hqs hleaves ⊢
  obtain ⟨-, ps, hps, hreads⟩ := held_of_recognised hc hinner
  simp only [Piece.ofCaptures?, Piece.ofCapture?, hps, Option.bind_some,
    Option.bind_eq_bind, Option.pure_def, Option.bind_eq_some_iff,
    Option.some.injEq] at hqs
  obtain ⟨piece, hpiece, rfl⟩ := hqs
  refine ⟨inner, ps, piece, rfl, ?_,
    ⟨named, hc, hinner, hps, hreads, hpiece, hleaves⟩⟩
  simp [Piece.ofCaptures?, Piece.ofCapture?, hps, hpiece]

/-- A capture that is a match of its rule can be taken apart. -/
theorem opened_of_matched {k : Capture Rule} (hk : k.Matched grammar t)
    {piece : Piece} (h : Piece.ofCapture? t k = some piece) :
    ∃ r c m ps, k = .mk r ⟨c.offset, m.cursor.offset⟩ m.captures ∧
      Opened t r c m ps piece := by
  cases hk with
  | @intro r c m named lands body =>
      have hbody := (derives_iff_recognised (grammar_repeatsTake r)).1 body
      have hrule : recognised r c =
          some ⟨m.cursor, [.mk r ⟨c.offset, m.cursor.offset⟩ m.captures]⟩ := by
        rw [recognised_eq]
        simp [show (ruleBody r).recognise recognised c = some m from
          hbody, named]
      obtain ⟨inner, ps, piece', -, hpiece', hopened⟩ :=
        opened_of_recognised named lands hrule
      obtain rfl : m = inner := Option.some.inj (hbody.symm.trans hopened.body)
      obtain rfl : piece = piece' := by
        simpa [Piece.ofCaptures?, h] using hpiece'
      exact ⟨r, c, m, ps, rfl, hopened⟩

/-- A piece of some captures is the piece of one of them. -/
theorem capture_of_piece {ks : List (Capture Rule)} {ps : List Piece}
    (h : Piece.ofCaptures? t ks = some ps) {p : Piece} (hp : p ∈ ps) :
    ∃ k ∈ ks, Piece.ofCapture? t k = some p := by
  induction ks generalizing ps with
  | nil =>
      cases h
      cases hp
  | cons k ks ih =>
      simp only [Piece.ofCaptures?, Option.bind_eq_bind,
        Option.bind_eq_some_iff, Option.pure_def, Option.some.injEq] at h
      obtain ⟨q, hq, qs, hqs, rfl⟩ := h
      rcases List.mem_cons.1 hp with rfl | hp
      · exact ⟨k, List.mem_cons_self, hq⟩
      · obtain ⟨k', hk', hpiece⟩ := ih hqs hp
        exact ⟨k', List.mem_cons_of_mem _ hk', hpiece⟩

/-- The pieces inside a match can be taken apart in turn, so an argument may go
down from a block to the tag that opens it. -/
theorem Opened.inner {r : Rule} {ps : List Piece} {piece p : Piece}
    (h : Opened t r c m ps piece) (hp : p ∈ ps) :
    ∃ r' c' m' ps', Capture.mk r' ⟨c'.offset, m'.cursor.offset⟩ m'.captures ∈
      m.captures ∧
      Opened t r' c' m' ps' p := by
  obtain ⟨k, hk, hpiece⟩ := capture_of_piece h.pieces hp
  have hderives : Derives grammar (ruleBody r) c (some m) :=
    (derives_iff_recognised (grammar_repeatsTake r)).2 h.body
  obtain ⟨r', c', m', ps', rfl, hopened⟩ :=
    opened_of_matched (hderives.inside h.lands rfl (.here hk)) hpiece
  exact ⟨r', c', m', ps', hk, hopened⟩

def Block.rule {F : Type} : Block F → Rule
  | conditional _ => .ifBlock
  | each _ => .eachBlock
  | await _ => .awaitBlock

theorem block_of_assemble {r : Rule}
    (hr : r ∈ [Rule.ifBlock, .eachBlock, .awaitBlock]) {x : Span}
    {ps : List Piece} {n : Node} (h : assemble t r x ps = some (.node n)) :
    ∃ b, n = .block b ∧ r = b.rule := by
  simp only [List.mem_cons, List.not_mem_nil, or_false] at hr
  rcases hr with rfl | rfl | rfl
  · simp only [assemble, ifPiece] at h
    split at h <;> cases h <;> exact ⟨_, rfl, rfl⟩
  · simp only [assemble, eachPiece] at h
    split at h <;> cases h <;> exact ⟨_, rfl, rfl⟩
  · simp only [assemble, awaitPiece] at h
    split at h <;> cases h <;> exact ⟨_, rfl, rfl⟩

/-- Only the rules for nodes leave nodes behind. -/
theorem Opened.mem_nodeRules {r : Rule} {ps : List Piece} {n : Node}
    (h : Opened t r c m ps (.node n)) :
    r ∈ nodeRules := by
  have hleaves := h.leaves
  cases r with
  | ifBlock | eachBlock | awaitBlock | otherBlock | comment | rawElement
  | voidElement | element | mustache | text => decide
  | balanced => exact absurd h.named (by decide)
  | _ => simp [Leaves] at hleaves

theorem Opened.rule_eq {r : Rule} {ps : List Piece} {b : Block Fragment}
    (h : Opened t r c m ps (.node (.block b))) :
    r = b.rule := by
  have hr := h.mem_nodeRules
  have hassembled := h.assembled
  cases r with
  | ifBlock | eachBlock | awaitBlock =>
      obtain ⟨b', hb, hrule⟩ := block_of_assemble (by decide) hassembled
      cases hb
      exact hrule
  | otherBlock | rawElement | voidElement | element =>
      obtain ⟨n, rest, -, hnode⟩ := namedPiece_eq_some hassembled
      cases hnode
  | comment | mustache | text => cases hassembled
  | _ => exact absurd hr (by decide)

end TemplateJsx.Markup
