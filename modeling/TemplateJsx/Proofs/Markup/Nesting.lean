import TemplateJsx.Markup.Walk

/-!
# What is nested in a node

The nodes in the fragments of a node are smaller than it, so what passes from
them to the node holds of all nodes (`Node.induct`).  By it a fold that carries
the tree along gives the tree back (`Algebra.Carries.node_fst`), and a walk goes
from a node to the walks over its fragments (`walkNode_eq`).

`FragmentOf.allNodes` lists the nodes of a tree and `FragmentOf.blocks` its
control-flow blocks, both in the order of a walk.
-/

namespace TemplateJsx.Markup

/-! ## Induction -/

theorem Block.sizeOf_body_lt {b : Block Fragment} {f : Fragment}
    (h : f ∈ b.bodies) : sizeOf f < sizeOf b := by
  cases b with
  | conditional b =>
      obtain ⟨⟨span, tag, expression, body⟩, links, otherwise⟩ := b
      simp only [Block.bodies, IfBlock.bodies, List.mem_cons, List.mem_append,
        List.mem_map, Option.mem_toList, Option.map_eq_some_iff] at h
      rcases h with rfl | ⟨a, ha, rfl⟩ | ⟨c, rfl, rfl⟩
      · simp +arith
      · have hlinks := List.sizeOf_lt_of_mem ha
        have hbody : sizeOf a.body < sizeOf a := by cases a; simp +arith
        simp +arith
        omega
      · cases c
        simp +arith
  | each b =>
      obtain ⟨span, tag, expression, context, index, key, body, fallback⟩ := b
      simp only [Block.bodies, EachBlock.bodies, List.mem_cons,
        Option.mem_toList, Option.map_eq_some_iff] at h
      rcases h with rfl | ⟨c, rfl, rfl⟩
      · simp +arith
      · cases c
        simp +arith
  | await b =>
      obtain ⟨span, tag, expression, pending, thenTag, value, body, rescue⟩ := b
      simp only [Block.bodies, AwaitBlock.bodies, List.mem_cons,
        List.mem_append, Option.mem_toList, Option.map_eq_some_iff] at h
      rcases h with rfl | rfl | ⟨c, rfl, rfl⟩
      · simp +arith
      · simp +arith
      · cases c
        simp +arith

theorem Node.sizeOf_nested_lt {n m : Node} {f : Fragment} (hf : f ∈ n.fragments)
    (hm : m ∈ f.nodes) :
    sizeOf m < sizeOf n := by
  have hm : sizeOf m < sizeOf f := by
    have := List.sizeOf_lt_of_mem hm
    cases f
    simp +arith at this ⊢
    omega
  cases n with
  | block b =>
      have := Block.sizeOf_body_lt hf
      simp +arith
      omega
  | other kind span children =>
      have hchild : sizeOf f < sizeOf children := List.sizeOf_lt_of_mem hf
      simp +arith
      omega

/-- What passes from the nested nodes to a node holds of every node.  Nodes and
fragments are nested through several list and option types, and this spares
later proofs all of them. -/
theorem Node.induct {P : Node → Prop}
    (step : ∀ n, (∀ f ∈ n.fragments, ∀ m ∈ f.nodes, P m) → P n) (n : Node) :
    P n :=
  step n fun _ hf m hm =>
    have _hlt := Node.sizeOf_nested_lt hf hm
    Node.induct step m
termination_by sizeOf n
decreasing_by exact _hlt

/-! ## Blocks around other bodies -/

namespace Block

variable {F G H : Type}

@[simp] theorem bodies_map (g : F → G) (b : Block F) :
    (b.map g).bodies = b.bodies.map g := by
  cases b with
  | conditional b =>
      cases hotherwise : b.otherwise <;>
        simp [Block.map, IfBlock.map, Block.bodies, IfBlock.bodies, Arm.map,
          Clause.map, hotherwise]
  | each b =>
      cases hfallback : b.fallback <;>
        simp [Block.map, EachBlock.map, Block.bodies, EachBlock.bodies,
          Clause.map, hfallback]
  | await b =>
      cases hpending : b.pending <;> cases hrescue : b.rescue <;>
        simp [Block.map, AwaitBlock.map, Block.bodies, AwaitBlock.bodies,
          Handler.map, hpending, hrescue]

theorem option_map_map_eq {α β : Type} {g : α → β} {h : β → α} {o : Option α}
    (hback : ∀ a ∈ o, h (g a) = a) : (o.map g).map h = o := by
  cases o with
  | none => rfl
  | some a => rw [Option.map_some, Option.map_some, hback a rfl]

theorem map_map_eq_self {g : F → G} {h : G → F} {b : Block F}
    (hback : ∀ f ∈ b.bodies, h (g f) = f) :
    (b.map g).map h = b := by
  cases b with
  | conditional b =>
      obtain ⟨⟨span, tag, expression, body⟩, links, otherwise⟩ := b
      simp only [Block.bodies, IfBlock.bodies, List.forall_mem_cons,
        List.forall_mem_append, List.forall_mem_map, Option.toList_map,
        Option.mem_toList] at hback
      obtain ⟨hbody, hlinks, hotherwise⟩ := hback
      have hlinks : (links.map (Arm.map g)).map (Arm.map h) = links := by
        rw [List.map_map]
        refine (List.map_congr_left fun a ha => ?_).trans (List.map_id links)
        simp [Arm.map, hlinks a ha]
      have hotherwise : (otherwise.map (Clause.map g)).map (Clause.map h) =
          otherwise :=
        option_map_map_eq fun c hc => by simp [Clause.map, hotherwise c hc]
      simp only [Block.map, IfBlock.map, hlinks, hotherwise, Arm.map, hbody]
  | each b =>
      obtain ⟨span, tag, expression, context, index, key, body, fallback⟩ := b
      simp only [Block.bodies, EachBlock.bodies, List.forall_mem_cons,
        List.forall_mem_map, Option.toList_map, Option.mem_toList] at hback
      obtain ⟨hbody, hfallback⟩ := hback
      have hfallback : (fallback.map (Clause.map g)).map (Clause.map h) =
          fallback :=
        option_map_map_eq fun c hc => by simp [Clause.map, hfallback c hc]
      simp only [Block.map, EachBlock.map, hfallback, hbody]
  | await b =>
      obtain ⟨span, tag, expression, pending, thenTag, value, body, rescue⟩ := b
      simp only [Block.bodies, AwaitBlock.bodies, List.forall_mem_cons,
        List.forall_mem_append, List.forall_mem_map, Option.toList_map,
        Option.mem_toList] at hback
      obtain ⟨hpending, hbody, hrescue⟩ := hback
      have hpending : (pending.map g).map h = pending :=
        option_map_map_eq hpending
      have hrescue : (rescue.map (Handler.map g)).map (Handler.map h) =
          rescue :=
        option_map_map_eq fun c hc => by simp [Handler.map, hrescue c hc]
      simp only [Block.map, AwaitBlock.map, hpending, hrescue, hbody]

end Block

/-! ## Folds that carry the tree along -/

/-- An algebra that makes the node or fragment itself beside another value.  A
fold with such an algebra can look at the node while it computes, which a plain
fold cannot. -/
structure Algebra.Carries {X Y : Type}
    (alg : Algebra (Fragment × X) (Node × Y)) : Prop where
  block : ∀ b, (alg.block b).1 = .block (b.map Prod.fst)
  other : ∀ kind span children, (alg.other kind span children).1 =
    .other kind span (children.map Prod.fst)
  fragment : ∀ span nodes, (alg.fragment span nodes).1 =
    ⟨span, nodes.map Prod.fst⟩

section Carried

variable {X Y : Type} {alg : Algebra (Fragment × X) (Node × Y)}

theorem Algebra.Carries.fragment_fst (halg : alg.Carries) {f : Fragment}
    (h : ∀ m ∈ f.nodes, (m.fold alg).1 = m) : (foldFragment alg f).1 = f := by
  obtain ⟨span, nodes⟩ := f
  have hnodes : (nodes.map (Node.fold alg)).map Prod.fst = nodes := by
    rw [List.map_map]
    exact (List.map_congr_left fun m hm => h m hm).trans (List.map_id nodes)
  rw [foldFragment, halg.fragment, foldNodes_eq_map, hnodes]

/-- The node that a fold carries along is the node itself. -/
theorem Algebra.Carries.node_fst (halg : alg.Carries) (n : Node) :
    (n.fold alg).1 = n := by
  induction n using Node.induct with
  | step n ih =>
      have hfragments : ∀ f ∈ n.fragments, (foldFragment alg f).1 = f := by
        intro f hf
        exact halg.fragment_fst (ih f hf)
      cases n with
      | block b =>
          rw [Node.fold, halg.block, foldBlock_eq_map,
            Block.map_map_eq_self hfragments]
      | other kind span children =>
          have hchildren : (children.map (foldFragment alg)).map Prod.fst =
              children := by
            rw [List.map_map]
            exact (List.map_congr_left fun f hf => hfragments f hf).trans
              (List.map_id children)
          rw [Node.fold, halg.other, foldFragments_eq_map, hchildren]

end Carried

/-! ## Walks -/

section Walks

variable {m : Type → Type} [Monad m] (enter : Node → m Step)

theorem walkAlgebra_carries : (walkAlgebra enter).Carries :=
  ⟨fun _ => rfl, fun _ _ _ => rfl, fun _ _ => rfl⟩

theorem walkFragment_eq (f : Fragment) :
    walkFragment enter f = runAll (f.nodes.map (walkNode enter)) := by
  obtain ⟨span, nodes⟩ := f
  simp only [walkFragment, foldFragment, foldNodes_eq_map, walkAlgebra,
    List.map_map]
  rfl

/-- A walk over a node enters it and goes on with its fragments, unless entering
it says to leave them out.  The walk that runs is a fold; this is the recursion
that one would write down. -/
theorem walkNode_eq (n : Node) :
    walkNode enter n = enterNode enter n
      (n.fragments.map (walkFragment enter)) := by
  have hcarried : (n.fold (walkAlgebra enter)).1 = n :=
    (walkAlgebra_carries enter).node_fst n
  cases n with
  | block b =>
      rw [Node.fold, foldBlock_eq_map] at hcarried
      have henter : walkNode enter (.block b) =
          enterNode enter
            (.block ((b.map (foldFragment (walkAlgebra enter))).map Prod.fst))
            ((b.map (foldFragment (walkAlgebra enter))).bodies.map
              Prod.snd) := by
        rw [walkNode, Node.fold, foldBlock_eq_map]
        rfl
      rw [henter, show Node.block _ = .block b from
        hcarried, Block.bodies_map, List.map_map]
      rfl
  | other kind span children =>
      rw [Node.fold, foldFragments_eq_map] at hcarried
      have henter : walkNode enter (.other kind span children) =
          enterNode enter (.other kind span
              ((children.map (foldFragment (walkAlgebra enter))).map Prod.fst))
            ((children.map (foldFragment (walkAlgebra enter))).map
              Prod.snd) := by
        rw [walkNode, Node.fold, foldFragments_eq_map]
        rfl
      rw [henter, show Node.other _ _ _ = .other kind span children from
        hcarried, List.map_map]
      rfl

end Walks

/-! ## What is collected from a tree -/

section Collecting

variable {α : Type} (own : Node → List α)

def collecting : Algebra (Fragment × List α) (Node × List α) where
  block b :=
    (.block (b.map Prod.fst),
      own (.block (b.map Prod.fst)) ++ b.bodies.flatMap Prod.snd)
  other kind span children :=
    (.other kind span (children.map Prod.fst),
      own (.other kind span (children.map Prod.fst)) ++
        children.flatMap Prod.snd)
  fragment span nodes := (⟨span, nodes.map Prod.fst⟩, nodes.flatMap Prod.snd)

theorem collecting_carries : (collecting own).Carries :=
  ⟨fun _ => rfl, fun _ _ _ => rfl, fun _ _ => rfl⟩

theorem foldFragment_collecting (f : Fragment) :
    (foldFragment (collecting own) f).2 = f.nodes.flatMap fun n =>
      (n.fold (collecting own)).2 := by
  obtain ⟨span, nodes⟩ := f
  simp only [foldFragment, foldNodes_eq_map, collecting, List.flatMap_map]

/-- From a node is collected what it gives itself and then what its fragments
give. -/
theorem fold_collecting (n : Node) :
    (n.fold (collecting own)).2 = own n ++ n.fragments.flatMap fun f =>
      (foldFragment (collecting own) f).2 := by
  have hcarried : (n.fold (collecting own)).1 = n :=
    (collecting_carries own).node_fst n
  cases n with
  | block b =>
      rw [Node.fold, foldBlock_eq_map] at hcarried
      have hfold : ((Node.block b).fold (collecting own)).2 =
          own (.block ((b.map (foldFragment (collecting own))).map Prod.fst)) ++
          (b.map (foldFragment (collecting own))).bodies.flatMap Prod.snd := by
        rw [Node.fold, foldBlock_eq_map]
        rfl
      rw [hfold, show Node.block _ = .block b from hcarried,
        Block.bodies_map, List.flatMap_map]
      rfl
  | other kind span children =>
      rw [Node.fold, foldFragments_eq_map] at hcarried
      have hfold : ((Node.other kind span children).fold (collecting own)).2 =
          own (.other kind span
            ((children.map (foldFragment (collecting own))).map Prod.fst)) ++
          (children.map (foldFragment (collecting own))).flatMap Prod.snd := by
        rw [Node.fold, foldFragments_eq_map]
        rfl
      rw [hfold, show Node.other _ _ _ = .other kind span children from
        hcarried, List.flatMap_map]
      rfl

end Collecting

/-! ## All nodes of a tree

The list is written out over the parts of each block and does not ask which
bodies a block has, so that a walk which missed one would not run over this
list. -/

mutual

/-- All nodes in a node, itself included, a node before those in its fragments.
It is written out by recursion over the tree and uses no fold, so that a walk
can be compared with it. -/
def Node.allNodes : Node → List Node
  | .block b => .block b :: nodesOfBlock b
  | .other kind span children =>
    .other kind span children :: nodesOfFragments children

/-- All nodes of a fragment, at any depth, a node before those in its
fragments. -/
def FragmentOf.allNodes : FragmentOf Node → List Node
  | ⟨_, nodes⟩ => nodesOfNodes nodes

def nodesOfNodes : List Node → List Node
  | [] => []
  | n :: ns => n.allNodes ++ nodesOfNodes ns

def nodesOfFragments : List (FragmentOf Node) → List Node
  | [] => []
  | f :: fs => f.allNodes ++ nodesOfFragments fs

def nodesOfFragment? : Option (FragmentOf Node) → List Node
  | none => []
  | some f => f.allNodes

def nodesOfBlock : Block (FragmentOf Node) → List Node
  | .conditional b => nodesOfIf b
  | .each b => nodesOfEach b
  | .await b => nodesOfAwait b

/-- The nodes of the first arm, then those of each further arm and then those of
the `else` clause.  The arms themselves are no nodes. -/
def nodesOfIf : IfBlock (FragmentOf Node) → List Node
  | ⟨head, links, otherwise⟩ =>
    nodesOfArm head ++ nodesOfArms links ++ nodesOfClause? otherwise

def nodesOfArm : Arm (FragmentOf Node) → List Node
  | ⟨_, _, _, body⟩ => body.allNodes

def nodesOfArms : List (Arm (FragmentOf Node)) → List Node
  | [] => []
  | a :: arms => nodesOfArm a ++ nodesOfArms arms

def nodesOfClause? : Option (Clause (FragmentOf Node)) → List Node
  | none => []
  | some c => nodesOfClause c

def nodesOfClause : Clause (FragmentOf Node) → List Node
  | ⟨_, body⟩ => body.allNodes

/-- The nodes that are repeated, then those for when there is nothing to
repeat. -/
def nodesOfEach : EachBlock (FragmentOf Node) → List Node
  | ⟨_, _, _, _, _, _, body, fallback⟩ =>
    body.allNodes ++ nodesOfClause? fallback

/-- The nodes to show meanwhile, then those for the value and then those for a
failure. -/
def nodesOfAwait : AwaitBlock (FragmentOf Node) → List Node
  | ⟨_, _, _, pending, _, _, body, rescue⟩ =>
    nodesOfFragment? pending ++ body.allNodes ++ nodesOfHandler? rescue

def nodesOfHandler? : Option (Handler (FragmentOf Node)) → List Node
  | none => []
  | some h => nodesOfHandler h

def nodesOfHandler : Handler (FragmentOf Node) → List Node
  | ⟨_, _, body⟩ => body.allNodes

end

theorem nodesOfNodes_eq (ns : List Node) :
    nodesOfNodes ns = ns.flatMap Node.allNodes := by
  induction ns with
  | nil => rw [nodesOfNodes, List.flatMap_nil]
  | cons n ns ih => rw [nodesOfNodes, List.flatMap_cons, ih]

theorem nodesOfFragments_eq (fs : List Fragment) :
    nodesOfFragments fs = fs.flatMap FragmentOf.allNodes := by
  induction fs with
  | nil => rw [nodesOfFragments, List.flatMap_nil]
  | cons f fs ih => rw [nodesOfFragments, List.flatMap_cons, ih]

theorem nodesOfFragment?_eq (f : Option Fragment) :
    nodesOfFragment? f = f.toList.flatMap FragmentOf.allNodes := by
  cases f <;> simp [nodesOfFragment?]

theorem nodesOfArms_eq (arms : List (Arm Fragment)) :
    nodesOfArms arms = (arms.map Arm.body).flatMap FragmentOf.allNodes := by
  induction arms with
  | nil => rw [nodesOfArms, List.map_nil, List.flatMap_nil]
  | cons a arms ih =>
      rw [nodesOfArms, List.map_cons, List.flatMap_cons, ih, nodesOfArm]

theorem nodesOfClause?_eq (c : Option (Clause Fragment)) :
    nodesOfClause? c = (c.map Clause.body).toList.flatMap
      FragmentOf.allNodes := by
  rcases c with - | ⟨tag, body⟩ <;> simp [nodesOfClause?, nodesOfClause]

theorem nodesOfHandler?_eq (h : Option (Handler Fragment)) :
    nodesOfHandler? h = (h.map Handler.body).toList.flatMap
      FragmentOf.allNodes := by
  rcases h with - | ⟨tag, value, body⟩ <;>
    simp [nodesOfHandler?, nodesOfHandler]

/-- The nodes in a block are those in its bodies, one body after the other. -/
theorem nodesOfBlock_eq (b : Block Fragment) :
    nodesOfBlock b = b.bodies.flatMap FragmentOf.allNodes := by
  cases b with
  | conditional b =>
      rcases b with ⟨⟨span, tag, expression, body⟩, links, otherwise⟩
      simp [nodesOfBlock, nodesOfIf, nodesOfArm, nodesOfArms_eq,
        nodesOfClause?_eq, Block.bodies, IfBlock.bodies]
  | each b =>
      cases b
      simp [nodesOfBlock, nodesOfEach, nodesOfClause?_eq, Block.bodies,
        EachBlock.bodies]
  | await b =>
      cases b
      simp [nodesOfBlock, nodesOfAwait, nodesOfFragment?_eq, nodesOfHandler?_eq,
        Block.bodies, AwaitBlock.bodies]

theorem FragmentOf.allNodes_eq (f : Fragment) :
    f.allNodes = f.nodes.flatMap Node.allNodes := by
  rw [FragmentOf.allNodes, nodesOfNodes_eq]

theorem Node.allNodes_eq (n : Node) :
    n.allNodes = n :: n.fragments.flatMap FragmentOf.allNodes := by
  cases n with
  | block b => rw [Node.allNodes, nodesOfBlock_eq, Node.fragments]
  | other kind span children =>
      rw [Node.allNodes, nodesOfFragments_eq, Node.fragments]

/-- A node in a node is that node itself or in a node of one of its
fragments. -/
theorem Node.mem_allNodes {n m : Node} :
    m ∈ n.allNodes ↔ m = n ∨ ∃ f ∈ n.fragments, ∃ k ∈ f.nodes,
      m ∈ k.allNodes := by
  simp only [Node.allNodes_eq n, List.mem_cons, List.mem_flatMap,
    FragmentOf.allNodes_eq]

/-! ## The blocks of a tree -/

def blocksAlgebra :
    Algebra (Fragment × List (Block Fragment))
      (Node × List (Block Fragment)) where
  block b :=
    (.block (b.map Prod.fst), b.map Prod.fst :: b.bodies.flatMap Prod.snd)
  other kind span children :=
    (.other kind span (children.map Prod.fst), children.flatMap Prod.snd)
  fragment span nodes := (⟨span, nodes.map Prod.fst⟩, nodes.flatMap Prod.snd)

def Node.blocks (n : Node) : List (Block Fragment) := (n.fold blocksAlgebra).2

/-- The control-flow blocks of a fragment, at any depth, a block before those in
its bodies. -/
def FragmentOf.blocks (f : Fragment) : List (Block Fragment) :=
  (foldFragment blocksAlgebra f).2

def Node.ownBlock : Node → List (Block Fragment)
  | block b => [b]
  | other _ _ _ => []

-- The fold for blocks collects the own block of each node, by computation.
theorem FragmentOf.blocks_eq (f : Fragment) :
    f.blocks = f.nodes.flatMap Node.blocks :=
  foldFragment_collecting Node.ownBlock f

theorem Node.blocks_block (b : Block Fragment) :
    (Node.block b).blocks = b :: b.bodies.flatMap FragmentOf.blocks :=
  fold_collecting Node.ownBlock (.block b)

theorem Node.blocks_other (kind : OtherKind) (span : Span)
    (children : List Fragment) :
    (Node.other kind span children).blocks =
      children.flatMap FragmentOf.blocks :=
  fold_collecting Node.ownBlock (.other kind span children)

/-- The blocks in a node are the blocks among its nodes. -/
theorem Node.blocks_eq_flatMap (n : Node) :
    n.blocks = n.allNodes.flatMap Node.ownBlock := by
  induction n using Node.induct with
  | step n ih =>
      have hfragment : ∀ f ∈ n.fragments, f.blocks =
          f.allNodes.flatMap Node.ownBlock := by
        intro f hf
        rw [FragmentOf.blocks_eq, FragmentOf.allNodes_eq, List.flatMap_assoc]
        exact congrArg List.flatten (List.map_congr_left fun m hm =>
          ih f hf m hm)
      have hown : n.blocks = n.ownBlock ++ n.fragments.flatMap
          FragmentOf.blocks := fold_collecting Node.ownBlock n
      rw [hown, Node.allNodes_eq, List.flatMap_cons, List.flatMap_assoc]
      exact congrArg (fun l => n.ownBlock ++ l.flatten)
        (List.map_congr_left hfragment)

theorem FragmentOf.mem_blocks_iff {f : Fragment} {b : Block Fragment} :
    b ∈ f.blocks ↔ Node.block b ∈ f.allNodes := by
  have hown : ∀ n : Node, b ∈ n.ownBlock ↔ n = .block b := by
    intro n
    cases n with
    | block b' => simp [Node.ownBlock, eq_comm]
    | other kind span children => simp [Node.ownBlock]
  simp only [FragmentOf.blocks_eq, FragmentOf.allNodes_eq, List.mem_flatMap,
    Node.blocks_eq_flatMap, hown]
  constructor
  · rintro ⟨n, hn, m, hm, rfl⟩
    exact ⟨n, hn, hm⟩
  · rintro ⟨n, hn, hm⟩
    exact ⟨n, hn, _, hm, rfl⟩

end TemplateJsx.Markup
