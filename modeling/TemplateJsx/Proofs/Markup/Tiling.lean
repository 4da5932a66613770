import TemplateJsx.Proofs.Markup.Assembly

/-!
# The tree tiles the text

Nothing of a text is lost or counted twice by its tree: at every depth the nodes
of a fragment abut and cover it, the tags and bodies of a block abut from its
start to its closing tag, and every span that the tree records starts and stops
between two characters (`FragmentOf.Covers`).
-/

namespace TemplateJsx

namespace Markup

inductive Within (root : Fragment) : Fragment → Prop
  | root : Within root root
  | nested {f g : Fragment} {n : Node} (outer : Within root f)
      (hn : n ∈ f.nodes) (hg : g ∈ n.fragments) : Within root g

/-! ## Recorded spans -/

/-- Every span that a block records, those of its bodies included.  Whatever is
cut out of the text on behalf of a block is one of these. -/
def Block.recorded : Block Fragment → List Span
  | conditional b =>
    (b.head :: b.links).flatMap (fun a =>
      [a.span, a.tag, a.expression, a.body.span]) ++
      b.otherwise.toList.flatMap fun c => [c.tag, c.body.span]
  | each b =>
    [b.span, b.tag, b.expression, b.context.span, b.body.span] ++
      b.key.toList ++
      b.fallback.toList.flatMap fun c => [c.tag, c.body.span]
  | await b =>
    [b.span, b.tag, b.expression, b.body.span] ++
      b.pending.toList.map FragmentOf.span ++
      b.thenTag.toList ++ b.value.toList.map Binding.span ++
      b.rescue.toList.flatMap fun h =>
        h.tag :: h.body.span :: h.value.toList.map Binding.span

def Node.recorded : Node → List Span
  | block b => b.recorded
  | other _ span children => span :: children.map FragmentOf.span

variable {t : Text}

theorem ExpressionTag.cuts {opening : Text} {tag x : Span}
    (h : ExpressionTag t opening tag x) :
    t.Cuts tag := by
  obtain ⟨g, -, hopens⟩ := h.opens
  obtain ⟨w, -, hcloses⟩ := h.closes
  exact (hopens.cuts.trans h.inside.cuts).trans hcloses.cuts

theorem ValuePart.cuts {s e : Nat} {value : Option Binding}
    (hs : t.Stands s [] s) (h : ValuePart t s value e) :
    t.Cuts ⟨s, e⟩ ∧ ∀ b ∈ value, t.Cuts b.span := by
  cases value with
  | none =>
      obtain rfl : e = s := h
      exact ⟨hs.cuts, by simp⟩
  | some b =>
      obtain ⟨⟨g, -, hgap⟩, hname, rfl⟩ := h
      refine ⟨hgap.cuts.trans hname.cuts, ?_⟩
      rintro b' hb'
      cases hb'
      exact hname.cuts

theorem ValueTag.cuts {opening : Text} {tag : Span} {value : Option Binding}
    (h : ValueTag t opening tag value) :
    t.Cuts tag ∧ ∀ b ∈ value, t.Cuts b.span := by
  obtain ⟨m, e, hopens, hvalue, w, -, hcloses⟩ := h.opens
  obtain ⟨hcuts, hbinding⟩ := hvalue.cuts hopens.right
  exact ⟨(hopens.cuts.trans hcuts).trans hcloses.cuts, hbinding⟩

theorem WordTag.cuts {opening : Text} {s e : Nat} (h : WordTag t opening s e) :
    t.Cuts ⟨s, e⟩ := by
  obtain ⟨w, -, hstands⟩ := h
  exact hstands.cuts

theorem ShortTag.cuts {tag x : Span} {value : Option Binding}
    (h : ShortTag t tag x value) :
    t.Cuts tag ∧ ∀ b ∈ value, t.Cuts b.span := by
  obtain ⟨g, -, hopens⟩ := h.opens
  obtain ⟨k, m, e, -, hthen, hvalue, w, -, hcloses⟩ := h.closes
  obtain ⟨hcuts, hbinding⟩ := hvalue.cuts hthen.right
  have hinside := h.inside.cuts
  exact ⟨(((hopens.cuts.trans hinside).trans hthen.cuts).trans hcuts).trans
    hcloses.cuts, hbinding⟩

theorem IndexPart.cuts {s e : Nat} {index : Option Text} (hs : t.Stands s [] s)
    (h : IndexPart t s index e) : t.Cuts ⟨s, e⟩ := by
  cases index with
  | none =>
      obtain rfl : e = s := h
      exact hs.cuts
  | some i =>
      obtain ⟨v, w, -, -, -, -, hstands⟩ := h
      exact hstands.cuts

theorem KeyPart.cuts {s e : Nat} {key : Option Span} (hs : t.Stands s [] s)
    (h : KeyPart t s key e) :
    t.Cuts ⟨s, e⟩ ∧ ∀ k ∈ key, t.Cuts k := by
  cases key with
  | none =>
      obtain rfl : e = s := h
      exact ⟨hs.cuts, by simp⟩
  | some k =>
      obtain ⟨v, g, h, -, -, -, hopens, hinside, hcloses⟩ := h
      refine ⟨(hopens.cuts.trans hinside.cuts).trans hcloses.cuts, ?_⟩
      rintro k' hk'
      cases hk'
      exact hinside.cuts

theorem EachTag.cuts {tag x : Span} {b : Binding} {i : Option Text}
    {k : Option Span} (h : EachTag t tag x b i k) :
    t.Cuts tag ∧ t.Cuts b.span ∧ ∀ y ∈ k, t.Cuts y := by
  obtain ⟨g, -, hopens⟩ := h.opens
  obtain ⟨g', h', -, -, hjoins⟩ := h.joins
  obtain ⟨m, e, hindex, hkey, w, -, hcloses⟩ := h.closes
  have hindexCuts := hindex.cuts h.binds.right
  obtain ⟨hkeyCuts, hkeys⟩ := hkey.cuts (Text.isBoundary_iff.1 hindexCuts.2.2)
  have hcontext : t.Cuts b.span := h.binds.cuts
  refine ⟨?_, hcontext, hkeys⟩
  have hhead :=
    ((hopens.cuts.trans h.inside.cuts).trans hjoins.cuts).trans hcontext
  exact ((hhead.trans hindexCuts).trans hkeyCuts).trans hcloses.cuts

/-! ## Rows of spans -/

theorem Abut.ascend {s e : Nat} {xs : List Span} (h : Abut s xs e) :
    Ascend s xs e := by
  induction xs generalizing s with
  | nil => exact Nat.le_of_eq (Eq.symm h)
  | cons x xs ih => exact ⟨Nat.le_of_eq h.1.symm, ih h.2⟩

theorem Ascend.bounds {s e : Nat} {xs : List Span} (h : Ascend s xs e)
    (hxs : ∀ x ∈ xs, x.start ≤ x.stop) :
    s ≤ e ∧ ∀ x ∈ xs, s ≤ x.start ∧ x.stop ≤ e := by
  induction xs generalizing s with
  | nil => exact ⟨h, by simp⟩
  | cons x xs ih =>
      obtain ⟨hstart, hrest⟩ := h
      have hx : x.start ≤ x.stop := hxs x (by simp)
      obtain ⟨hle, hbounds⟩ := ih hrest fun y hy => hxs y (by simp [hy])
      refine ⟨by omega, ?_⟩
      intro y hy
      rcases List.mem_cons.1 hy with rfl | hy
      · omega
      · have := hbounds y hy
        omega

/-! ## Sound nodes -/

theorem FragmentOf.Sound.cuts {f : Fragment} (h : f.Sound t) :
    t.Cuts f.span := by
  obtain ⟨w, hw⟩ := h.tiled.covers
  exact hw.cuts

namespace Block

theorem Tagged.cuts_parts {b : Block Fragment} (h : b.Tagged t)
    (hb : ∀ f ∈ b.bodies, t.Cuts f.span) :
    ∀ x ∈ b.parts, t.Cuts x := by
  cases b with
  | conditional b =>
      obtain ⟨hhead, hlinks, hotherwise⟩ := h
      simp only [Block.bodies, IfBlock.bodies, List.forall_mem_cons,
        List.forall_mem_append, List.forall_mem_map, Option.toList_map,
        Option.mem_toList] at hb
      obtain ⟨hbody, hlinkBodies, hlastBody⟩ := hb
      simp only [Block.parts, List.forall_mem_cons, List.forall_mem_append,
        List.forall_mem_flatMap, Option.mem_toList, List.not_mem_nil,
        false_implies, implies_true, and_true]
      refine ⟨⟨⟨hhead.cuts, hbody⟩, ?_⟩, ?_⟩
      · intro a ha
        obtain ⟨g, -, htag⟩ := hlinks a ha
        exact ⟨htag.cuts, hlinkBodies a ha⟩
      · intro c hc
        exact ⟨(hotherwise c hc).cuts, hlastBody c hc⟩
  | each b =>
      obtain ⟨htag, hfallback⟩ := h
      simp only [Block.bodies, EachBlock.bodies, List.forall_mem_cons,
        List.forall_mem_map, Option.toList_map, Option.mem_toList] at hb
      obtain ⟨hbody, hlastBody⟩ := hb
      simp only [Block.parts, List.forall_mem_cons, List.forall_mem_append,
        List.forall_mem_flatMap, Option.mem_toList, List.not_mem_nil,
        false_implies, implies_true, and_true]
      exact ⟨⟨htag.cuts.1, hbody⟩, fun c hc =>
        ⟨(hfallback c hc).cuts, hlastBody c hc⟩⟩
  | await b =>
      obtain ⟨htags, hrescue⟩ := h
      simp only [Block.bodies, AwaitBlock.bodies, List.forall_mem_cons,
        List.forall_mem_append, List.forall_mem_map, Option.toList_map,
        Option.mem_toList] at hb
      obtain ⟨hpending, hbody, hlastBody⟩ := hb
      simp only [Block.parts, List.forall_mem_cons, List.forall_mem_append,
        List.forall_mem_flatMap, List.forall_mem_map, Option.mem_toList,
        List.not_mem_nil, false_implies, implies_true, and_true]
      have htags : t.Cuts b.tag ∧ ∀ x ∈ b.thenTag, t.Cuts x := by
        split at htags
        · rename_i hthen
          exact ⟨htags.1.cuts, by simpa [hthen] using htags.2.cuts.1⟩
        · rename_i hthen
          exact ⟨htags.cuts.1, by simp [hthen]⟩
        · exact htags.elim
      refine ⟨htags.1, ⟨hpending, htags.2⟩, hbody, ?_⟩
      intro h hh
      exact ⟨(hrescue h hh).cuts.1, hlastBody h hh⟩

theorem tag_mem_parts {b : Block Fragment} {a : Arm Fragment}
    (h : a ∈ b.laterArms) : a.tag ∈ b.parts := by
  cases b with
  | conditional b =>
      exact List.mem_append_left
        _ (List.mem_append_right _ (List.mem_flatMap.2
            ⟨a, h, List.mem_cons_self⟩))
  | each b => cases h
  | await b => cases h

theorem Laid.cuts_arm {b : Block Fragment} (hlaid : b.Laid t)
    (hspan : t.Cuts b.span) (hparts : ∀ x ∈ b.parts, t.Cuts x)
    {a : Arm Fragment} (ha : a ∈ b.laterArms) : t.Cuts a.span := by
  obtain ⟨e, hrow, hcloses⟩ := hlaid.parts
  have htag := tag_mem_parts ha
  have hbounds := (hrow.ascend.bounds fun x hx => (hparts x hx).1).2 a.tag htag
  have hstop : e < b.span.stop := hcloses.lt
  have htagCuts := hparts a.tag htag
  have hle := htagCuts.1
  rw [hlaid.arms a ha]
  exact ⟨by simp only; omega, htagCuts.2.1, hspan.2.2⟩

/-- Every span that a block records is cut out of the text. -/
theorem Tagged.cuts_recorded {b : Block Fragment} (h : b.Tagged t)
    (hb : ∀ f ∈ b.bodies, t.Cuts f.span) (hspan : t.Cuts b.span)
    (hlaid : b.Laid t) : ∀ x ∈ b.recorded, t.Cuts x := by
  have hparts := h.cuts_parts hb
  cases b with
  | conditional b =>
      obtain ⟨hhead, hlinks, -⟩ := h
      have hexpressions : ∀ a ∈ b.links, t.Cuts a.expression := by
        intro a ha
        obtain ⟨g, -, htag⟩ := hlinks a ha
        exact htag.inside.cuts
      have hlater : ∀ a ∈ b.links, t.Cuts a.span :=
        fun a ha => hlaid.cuts_arm hspan hparts ha
      simp only [Block.parts, List.forall_mem_cons, List.forall_mem_append,
        List.forall_mem_flatMap, List.not_mem_nil, false_implies, implies_true,
        and_true] at hparts
      obtain ⟨⟨⟨htag, hbody⟩, hlinkParts⟩, hlast⟩ := hparts
      simp only [Block.recorded, List.forall_mem_append,
        List.forall_mem_flatMap, List.forall_mem_cons, List.not_mem_nil,
        false_implies, implies_true, and_true]
      refine ⟨⟨⟨hspan, htag, hhead.inside.cuts, hbody⟩, ?_⟩, hlast⟩
      intro a ha
      exact ⟨hlater a ha, (hlinkParts a ha).1, hexpressions a ha,
        (hlinkParts a ha).2⟩
  | each b =>
      obtain ⟨htag, -⟩ := h
      obtain ⟨-, hcontext, hkey⟩ := htag.cuts
      simp only [Block.parts, List.forall_mem_cons, List.forall_mem_append,
        List.not_mem_nil, false_implies, implies_true, and_true] at hparts
      obtain ⟨⟨htagCuts, hbody⟩, hlast⟩ := hparts
      simp only [Block.recorded, List.forall_mem_append, List.forall_mem_cons,
        List.not_mem_nil, false_implies, implies_true, and_true,
        Option.mem_toList]
      exact ⟨⟨⟨hspan, htagCuts, htag.inside.cuts, hcontext, hbody⟩, hkey⟩,
        hlast⟩
  | await b =>
      obtain ⟨htags, hrescue⟩ := h
      have hvalues : t.Cuts b.expression ∧ ∀ v ∈ b.value, t.Cuts v.span := by
        split at htags
        · exact ⟨htags.1.inside.cuts, htags.2.cuts.2⟩
        · exact ⟨htags.inside.cuts, htags.cuts.2⟩
        · exact htags.elim
      simp only [Block.parts, List.forall_mem_cons, List.forall_mem_append,
        List.forall_mem_flatMap, List.not_mem_nil, false_implies, implies_true,
        and_true] at hparts
      obtain ⟨htag, ⟨hpending, hthen⟩, hbody, hlast⟩ := hparts
      simp only [Block.recorded, List.forall_mem_append,
        List.forall_mem_flatMap, List.forall_mem_cons, List.not_mem_nil,
        false_implies, implies_true, and_true]
      refine ⟨⟨⟨⟨⟨hspan, htag, hvalues.1, hbody⟩, hpending⟩, hthen⟩,
        by simpa using hvalues.2⟩, ?_⟩
      intro h hh
      refine ⟨(hlast h hh).1, (hlast h hh).2, ?_⟩
      simpa using (hrescue h (Option.mem_toList.1 hh)).cuts.2

end Block

theorem Node.Sound.cuts_recorded {n : Node} (h : n.Sound t) :
    ∀ x ∈ n.recorded, t.Cuts x := by
  obtain ⟨w, -, hw⟩ := h.placed.covers
  have hfragments : ∀ f ∈ n.fragments, t.Cuts f.span :=
    fun f hf => (h.fragments f hf).cuts
  cases n with
  | block b =>
      obtain ⟨hlaid, htagged⟩ := h.placed.parts
      exact htagged.cuts_recorded hfragments hw.cuts hlaid
  | other kind span children =>
      intro x hx
      rcases List.mem_cons.1 hx with rfl | hx
      · exact hw.cuts
      · obtain ⟨f, hf, rfl⟩ := List.mem_map.1 hx
        exact hfragments f hf

/-- Plain text stops where nothing more can be read as plain text, so no other
plain text follows it. -/
theorem not_isText_pair {a b : Node} (ha : a.Placed t) (hb : b.Placed t)
    (h : a.span.stop = b.span.start) :
    ¬(a.isText = true ∧ b.isText = true) := by
  rintro ⟨hat, hbt⟩
  cases a with
  | block b => simp [Node.isText] at hat
  | other ka sa ca =>
      cases b with
      | block b => simp [Node.isText] at hbt
      | other kb sb cb =>
          obtain rfl : ka = .text := by
            cases ka <;> simp_all [Node.isText]
          obtain rfl : kb = .text := by
            cases kb <;> simp_all [Node.isText]
          -- What follows the first would have to stop plain text and to begin
          -- the second.
          obtain ⟨-, -, rest, hstop, hstops⟩ := ha.parts.2.1 rfl
          obtain ⟨-, ⟨rest', hstart, hgoes⟩, -⟩ := hb.parts.2.1 rfl
          obtain rfl : rest = rest' := by
            have : t.dropTo? sa.stop = t.dropTo? sb.start := congrArg _ h
            simp_all
          simp_all

/-- What it is for a fragment to tile its span: nothing is missing between its
nodes or between the parts of a block, no node is empty, plain text is not
split, and no span cuts a character. -/
structure FragmentOf.Covers (t : Text) (f : Fragment) : Prop where
  nodes : Abut f.span.start (f.nodes.map Node.span) f.span.stop
  nonempty : ∀ n ∈ f.nodes, n.span.start < n.span.stop
  apart : ∀ before a b after, f.nodes = before ++ a :: b :: after →
    ¬(a.isText = true ∧ b.isText = true)
  blocks : ∀ b, Node.block b ∈ f.nodes → b.Laid t
  children : ∀ kind span children, Node.other kind span children ∈ f.nodes →
    ∀ g ∈ children, span.contains g.span = true
  recorded : ∀ n ∈ f.nodes, ∀ x ∈ n.recorded, t.Cuts x

theorem FragmentOf.Sound.covers {f : Fragment} (h : f.Sound t) :
    f.Covers t where
  nodes := h.tiled.nodes
  nonempty n hn := by
    obtain ⟨w, hne, hw⟩ := (h.nodes n hn).placed.covers
    exact hw.lt hne
  apart before a b after hnodes := by
    have ha := (h.nodes a (by simp [hnodes])).placed
    have hb := (h.nodes b (by simp [hnodes])).placed
    have hrow := h.tiled.nodes
    rw [hnodes, List.map_append, abut_append] at hrow
    obtain ⟨m, -, -, hmeet, -⟩ := hrow
    exact not_isText_pair ha hb hmeet.symm
  blocks b hb := (h.nodes _ hb).placed.parts.1
  children kind span children hn g hg := by
    have hsound := h.nodes _ hn
    have hcuts : ∀ x ∈ children.map FragmentOf.span, x.start ≤ x.stop := by
      intro x hx
      obtain ⟨f, hf, rfl⟩ := List.mem_map.1 hx
      exact (hsound.fragments f hf).cuts.1
    have hbounds :=
      (hsound.placed.parts.1.bounds hcuts).2 g.span (List.mem_map_of_mem hg)
    simpa [Span.contains] using hbounds
  recorded n hn := (h.nodes n hn).cuts_recorded

/-- Soundness goes down to every fragment of a tree. -/
theorem Within.sound {root f : Fragment} (h : Within root f)
    (hroot : root.Sound t) : f.Sound t := by
  induction h with
  | root => exact hroot
  | nested _ hn hg ih => exact (ih.nodes _ hn).fragments _ hg

/-- **The tree of a text covers it exactly, at every depth.**  Every byte of the
text belongs to one node of each fragment around it, so whatever splices a
template by the spans of its tree loses nothing and writes nothing twice. -/
theorem parse_tiles_text {text : Text} {tree : Fragment}
    (h : parse text = .ok tree) :
    tree.span = ⟨0, text.byteLength⟩ ∧ ∀ f, Within tree f → f.Covers text := by
  obtain ⟨hspan, hsound⟩ := sound_of_parse h
  exact ⟨hspan, fun f hf => (hf.sound hsound).covers⟩

/-- A chain of arms with an element in one of them. -/
def elementInChain : Text :=
  ("a\x7b#if b\x7d<p>é</p>\x7b:else if c\x7dd" ++
    "\x7b:else\x7d\x7b/if\x7d").toList

theorem parse_tiles_text_chain :
    ∃ tree, parse elementInChain = .ok tree ∧ tree.span = ⟨0, 42⟩ ∧
      ∀ f, Within tree f → f.Covers elementInChain := by
  obtain ⟨tree, htree⟩ := exists_tree elementInChain (by decide +kernel)
  exact ⟨tree, htree, parse_tiles_text htree⟩

end Markup

end TemplateJsx
