import TemplateJsx.Proofs.Markup.Nesting
import TemplateJsx.Proofs.Markup.Tiling

/-!
# Source order

The fragments of a sound node begin after it does, since a tag comes first, and
follow one another up to where it ends (`Node.Sound.fragments_lie`).  So a node
spans all that is nested in it (`Node.Sound.nested_within`), and in the list of
all nodes each one begins strictly after those before it
(`FragmentOf.Sound.starts_ascend`).
-/

namespace TemplateJsx.Markup

variable {t : Text}

/-! ## Rows of spans -/

theorem Ascend.pairwise {s e : Nat} {xs : List Span} (h : Ascend s xs e)
    (hxs : ∀ x ∈ xs, x.start ≤ x.stop) :
    xs.Pairwise fun x y => x.stop ≤ y.start := by
  induction xs generalizing s with
  | nil => exact .nil
  | cons x xs ih =>
      obtain ⟨-, hrest⟩ := h
      have hlater : ∀ y ∈ xs, y.start ≤ y.stop :=
        fun y hy => hxs y (List.mem_cons_of_mem x hy)
      exact List.pairwise_cons.2 ⟨fun y hy =>
        ((hrest.bounds hlater).2 y hy).1, ih hrest hlater⟩

theorem Fenced.lt_start {s e : Nat} {xs : List Span} (h : Fenced t s xs e)
    (hxs : ∀ x ∈ xs, x.start ≤ x.stop) :
    ∀ x ∈ xs, s < x.start := by
  intro x hx
  cases xs with
  | nil => cases hx
  | cons y ys =>
      obtain ⟨hfirst, hrest⟩ := h
      have hy := hxs y List.mem_cons_self
      rcases List.mem_cons.1 hx with rfl | hx
      · exact hfirst.lt
      · have hlater :=
          (hrest.ascend.bounds fun z hz =>
            hxs z (List.mem_cons_of_mem y hz)).2 x hx
        have := hfirst.lt
        omega

/-! ## Opening tags -/

theorem ExpressionTag.lt {opening : Text} {tag x : Span}
    (h : ExpressionTag t opening tag x) : tag.start < tag.stop := by
  obtain ⟨g, hg, hopens⟩ := h.opens
  obtain ⟨w, -, hcloses⟩ := h.closes
  have hstart := hopens.lt (by simp [hg.2])
  have hrest := h.inside.cuts.trans hcloses.cuts
  exact Nat.lt_of_lt_of_le hstart hrest.1

theorem EachTag.lt {tag x : Span} {b : Binding} {i : Option Text}
    {k : Option Span} (h : EachTag t tag x b i k) :
    tag.start < tag.stop := by
  obtain ⟨g, -, hopens⟩ := h.opens
  obtain ⟨g', h', -, -, hjoins⟩ := h.joins
  obtain ⟨m, e, hindex, hkey, w, -, hcloses⟩ := h.closes
  have hstart := hopens.lt (by simp)
  have hindexCuts := hindex.cuts h.binds.right
  have hkeyCuts := (hkey.cuts (Text.isBoundary_iff.1 hindexCuts.2.2)).1
  have hbinding := (h.inside.cuts.trans hjoins.cuts).trans h.binds.cuts
  have hrest := ((hbinding.trans hindexCuts).trans hkeyCuts).trans hcloses.cuts
  exact Nat.lt_of_lt_of_le hstart hrest.1

theorem ShortTag.lt {tag x : Span} {value : Option Binding}
    (h : ShortTag t tag x value) : tag.start < tag.stop := by
  obtain ⟨g, -, hopens⟩ := h.opens
  obtain ⟨k, m, e, -, hthen, hvalue, w, -, hcloses⟩ := h.closes
  have hstart := hopens.lt (by simp)
  have hvalueCuts := (hvalue.cuts hthen.right).1
  have hrest :=
    ((h.inside.cuts.trans hthen.cuts).trans hvalueCuts).trans hcloses.cuts
  exact Nat.lt_of_lt_of_le hstart hrest.1

namespace Block

private theorem map_sublist_flatMap_pair {α β : Type} (f g : α → β)
    (xs : List α) :
    (xs.map g).Sublist (xs.flatMap fun a => [f a, g a]) := by
  induction xs with
  | nil => exact .slnil
  | cons a xs ih => exact (ih.cons_cons (g a)).cons (f a)

theorem Tagged.parts_cons {b : Block Fragment} (h : b.Tagged t) :
    ∃ tag xs, b.parts = tag :: xs ∧ tag.start < tag.stop ∧
      (b.bodies.map FragmentOf.span).Sublist xs := by
  cases b with
  | conditional b =>
      refine ⟨b.head.tag, _, rfl, h.1.lt, ?_⟩
      have hlinks :=
        map_sublist_flatMap_pair Arm.tag (fun a => a.body.span) b.links
      have hotherwise :=
        map_sublist_flatMap_pair Clause.tag (fun c => c.body.span)
          b.otherwise.toList
      simpa [Block.bodies, IfBlock.bodies, Option.toList_map, Function.comp_def]
        using hlinks.append hotherwise
  | each b =>
      refine ⟨b.tag, _, rfl, h.1.lt, ?_⟩
      have hfallback :=
        map_sublist_flatMap_pair Clause.tag (fun c => c.body.span)
          b.fallback.toList
      simpa [Block.bodies, EachBlock.bodies, Option.toList_map,
        Function.comp_def] using hfallback
  | await b =>
      have htag : b.tag.start < b.tag.stop := by
        have htags := h.1
        split at htags
        · exact htags.1.lt
        · exact htags.lt
        · exact htags.elim
      refine ⟨b.tag, _, rfl, htag, ?_⟩
      have hrescue :=
        map_sublist_flatMap_pair Handler.tag (fun c => c.body.span)
          b.rescue.toList
      have hpending : (b.pending.toList.map FragmentOf.span).Sublist
          (b.pending.toList.map FragmentOf.span ++ b.thenTag.toList) :=
        List.sublist_append_left _ _
      simpa [Block.bodies, AwaitBlock.bodies, Option.toList_map,
        Function.comp_def] using hpending.append (hrescue.cons_cons b.body.span)

/-- The bodies of a block begin after it does, end before its closing tag and
follow one another. -/
theorem bodies_lie {b : Block Fragment} (h : (Node.block b).Sound t) {e : Nat}
    (hrow : Abut b.span.start b.parts e) :
    (∀ f ∈ b.bodies, b.span.start < f.span.start ∧ f.span.stop ≤ e) ∧
      b.bodies.Pairwise fun f g => f.span.stop ≤ g.span.start := by
  obtain ⟨-, htagged⟩ := h.placed.parts
  have hcuts := htagged.cuts_parts fun f hf => (h.fragments f hf).cuts
  obtain ⟨tag, xs, hparts, htag, hbodies⟩ := htagged.parts_cons
  rw [hparts] at hrow hcuts
  obtain ⟨hstart, hrest⟩ := hrow
  have hxs : ∀ x ∈ xs, x.start ≤ x.stop :=
    fun x hx => (hcuts x (List.mem_cons_of_mem tag hx)).1
  constructor
  · intro f hf
    have hbounds :=
      (hrest.ascend.bounds hxs).2 f.span
        (hbodies.subset (List.mem_map_of_mem hf))
    omega
  · exact List.pairwise_map.1 ((hrest.ascend.pairwise hxs).sublist hbodies)

end Block

/-! ## What is nested in a node -/

/-- The fragments of a sound node begin after it does, end where it does or
before, and follow one another.  For a block this comes from its parts, for any
other node from the tags around its children. -/
theorem Node.Sound.fragments_lie {n : Node} (h : n.Sound t) :
    (∀ f ∈ n.fragments, n.span.start < f.span.start ∧
      f.span.stop ≤ n.span.stop) ∧
      n.fragments.Pairwise fun f g => f.span.stop ≤ g.span.start := by
  cases n with
  | block b =>
      obtain ⟨e, hrow, hcloses⟩ := h.placed.parts.1.parts
      obtain ⟨hbounds, hordered⟩ := Block.bodies_lie h hrow
      refine ⟨?_, hordered⟩
      intro f hf
      have hclosing := hcloses.lt
      have hbody := hbounds f hf
      exact ⟨hbody.1, Nat.le_trans hbody.2 (Nat.le_of_lt hclosing)⟩
  | other kind span children =>
      obtain ⟨hrow, htext, hfenced⟩ := h.placed.parts
      have hcuts : ∀ x ∈ children.map FragmentOf.span, x.start ≤ x.stop := by
        intro x hx
        obtain ⟨g, hg, rfl⟩ := List.mem_map.1 hx
        exact (h.fragments g hg).cuts.1
      refine ⟨?_, List.pairwise_map.1 (hrow.pairwise hcuts)⟩
      intro f hf
      have hspan : f.span ∈ children.map FragmentOf.span :=
        List.mem_map_of_mem hf
      refine ⟨?_, ((hrow.bounds hcuts).2 f.span hspan).2⟩
      by_cases hkind : kind = .text
      · rw [(htext hkind).1] at hspan
        cases hspan
      · exact (hfenced hkind).lt_start hcuts f.span hspan

/-- The nodes of a sound fragment lie in it and follow one another. -/
theorem FragmentOf.Sound.nodes_lie {f : Fragment} (h : f.Sound t) :
    (∀ n ∈ f.nodes, f.span.start ≤ n.span.start ∧ n.span.stop ≤ f.span.stop) ∧
      f.nodes.Pairwise fun a b => a.span.stop ≤ b.span.start := by
  have hcuts : ∀ x ∈ f.nodes.map Node.span, x.start ≤ x.stop := by
    intro x hx
    obtain ⟨m, hm, rfl⟩ := List.mem_map.1 hx
    obtain ⟨w, -, hw⟩ := (h.nodes m hm).placed.covers
    exact hw.le
  have hrow := h.tiled.nodes.ascend
  refine ⟨?_, List.pairwise_map.1 (hrow.pairwise hcuts)⟩
  intro n hn
  exact (hrow.bounds hcuts).2 n.span (List.mem_map_of_mem hn)

/-- A sound node spans the nodes in it, at any depth. -/
theorem Node.Sound.nested_within {n m : Node} (h : n.Sound t)
    (hm : m ∈ n.allNodes) :
    n.span.start ≤ m.span.start ∧ m.span.stop ≤ n.span.stop := by
  induction n using Node.induct with
  | step n ih =>
      rcases Node.mem_allNodes.1 hm with rfl | ⟨f, hf, k, hk, hmk⟩
      · exact ⟨Nat.le_refl _, Nat.le_refl _⟩
      · have hsound := h.fragments f hf
        have hinner := ih f hf k hk (hsound.nodes k hk) hmk
        have hmiddle := hsound.nodes_lie.1 k hk
        have houter := h.fragments_lie.1 f hf
        omega

theorem FragmentOf.Sound.nested_within {f : Fragment} (h : f.Sound t) {m : Node}
    (hm : m ∈ f.allNodes) :
    f.span.start ≤ m.span.start ∧ m.span.stop ≤ f.span.stop := by
  rw [FragmentOf.allNodes_eq] at hm
  obtain ⟨n, hn, hmn⟩ := List.mem_flatMap.1 hm
  have hinner := (h.nodes n hn).nested_within hmn
  have houter := h.nodes_lie.1 n hn
  omega

/-! ## The order of all nodes -/

theorem Node.Sound.nested {n m : Node} (h : n.Sound t) (hm : m ∈ n.allNodes) :
    m.Sound t := by
  induction n using Node.induct with
  | step n ih =>
      rcases Node.mem_allNodes.1 hm with rfl | ⟨f, hf, k, hk, hmk⟩
      · exact h
      · exact ih f hf k hk ((h.fragments f hf).nodes k hk) hmk

theorem Node.Sound.start_lt_stop {n : Node} (h : n.Sound t) :
    n.span.start < n.span.stop := by
  obtain ⟨w, hne, hw⟩ := h.placed.covers
  exact hw.lt hne

/-- Lists of nodes that are each in order are in order together, if the nodes of
each end before those of the later ones begin. -/
theorem pairwise_start_flatMap {α : Type} {xs : List α} {span : α → Span}
    {nodes : α → List Node}
    (hown : ∀ x ∈ xs, (nodes x).Pairwise fun a b => a.span.start < b.span.start)
    (hwithin : ∀ x ∈ xs, ∀ m ∈ nodes x, m.span.start < m.span.stop ∧
      (span x).start ≤ m.span.start ∧
      m.span.stop ≤ (span x).stop)
    (hordered : xs.Pairwise fun x y => (span x).stop ≤ (span y).start) :
    (xs.flatMap nodes).Pairwise fun a b => a.span.start < b.span.start := by
  refine List.pairwise_flatMap.2 ⟨hown, hordered.imp_of_mem ?_⟩
  intro x y hx hy hxy a ha b hb
  have hleft := hwithin x hx a ha
  have hright := hwithin y hy b hb
  omega

/-- The nodes of a sound fragment, each with those in it, begin one after
another. -/
theorem FragmentOf.Sound.starts_ascend_of_nodes {f : Fragment} (h : f.Sound t)
    (hnodes : ∀ n ∈ f.nodes, n.allNodes.Pairwise fun a b =>
      a.span.start < b.span.start) :
    f.allNodes.Pairwise fun a b => a.span.start < b.span.start := by
  rw [FragmentOf.allNodes_eq]
  refine pairwise_start_flatMap hnodes ?_ h.nodes_lie.2
  intro n hn m hm
  have hsound := h.nodes n hn
  exact ⟨(hsound.nested hm).start_lt_stop, hsound.nested_within hm⟩

/-- **The nodes in a sound node begin one after another.**  By induction over
the node: those in one fragment come before those in the next, and the node
itself before all of them. -/
theorem Node.Sound.starts_ascend {n : Node} (h : n.Sound t) :
    n.allNodes.Pairwise fun a b => a.span.start < b.span.start := by
  induction n using Node.induct with
  | step n ih =>
      have hfragments : ∀ f ∈ n.fragments, f.allNodes.Pairwise fun a b =>
          a.span.start < b.span.start := by
        intro f hf
        have hsound := h.fragments f hf
        exact hsound.starts_ascend_of_nodes fun m hm =>
          ih f hf m hm (hsound.nodes m hm)
      have hwithin : ∀ f ∈ n.fragments, ∀ m ∈ f.allNodes,
          m.span.start < m.span.stop ∧
          f.span.start ≤ m.span.start ∧ m.span.stop ≤ f.span.stop := by
        intro f hf m hm
        have hnested : m ∈ n.allNodes := by
          rw [Node.allNodes_eq]
          exact List.mem_cons_of_mem n (List.mem_flatMap.2 ⟨f, hf, hm⟩)
        exact ⟨(h.nested hnested).start_lt_stop,
          (h.fragments f hf).nested_within hm⟩
      rw [Node.allNodes_eq]
      refine List.pairwise_cons.2
        ⟨?_, pairwise_start_flatMap hfragments hwithin h.fragments_lie.2⟩
      intro m hm
      obtain ⟨f, hf, hmf⟩ := List.mem_flatMap.1 hm
      exact Nat.lt_of_lt_of_le (h.fragments_lie.1 f hf).1
        (hwithin f hf m hmf).2.1

/-- **The nodes of a sound fragment begin one after another.**  So the order of
a walk is the order of the text, and no two nodes begin in one place. -/
theorem FragmentOf.Sound.starts_ascend {f : Fragment} (h : f.Sound t) :
    f.allNodes.Pairwise fun a b => a.span.start < b.span.start :=
  h.starts_ascend_of_nodes fun n hn => (h.nodes n hn).starts_ascend

end TemplateJsx.Markup
