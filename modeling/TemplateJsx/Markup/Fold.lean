import TemplateJsx.Markup.Tree

/-!
# Folding a tree

A fold computes a value for every node and every fragment of a tree from the
values of the parts.  It follows the nesting of the types; `foldBlock_eq_map`,
`foldNodes_eq_map` and `foldFragments_eq_map` say that it does to the parts of a
node what `map` does.
-/

namespace TemplateJsx.Markup

def Arm.map {F G : Type} (f : F → G) (a : Arm F) : Arm G :=
  ⟨a.span, a.tag, a.expression, f a.body⟩

def Clause.map {F G : Type} (f : F → G) (c : Clause F) : Clause G :=
  ⟨c.tag, f c.body⟩

def Handler.map {F G : Type} (f : F → G) (h : Handler F) : Handler G :=
  ⟨h.tag, h.value, f h.body⟩

def IfBlock.map {F G : Type} (f : F → G) (b : IfBlock F) : IfBlock G :=
  ⟨b.head.map f, b.links.map (Arm.map f), b.otherwise.map (Clause.map f)⟩

def EachBlock.map {F G : Type} (f : F → G) (b : EachBlock F) : EachBlock G :=
  ⟨b.span, b.tag, b.expression, b.context, b.index, b.key, f b.body,
    b.fallback.map (Clause.map f)⟩

def AwaitBlock.map {F G : Type} (f : F → G) (b : AwaitBlock F) : AwaitBlock G :=
  ⟨b.span, b.tag, b.expression, b.pending.map f, b.thenTag, b.value, f b.body,
    b.rescue.map (Handler.map f)⟩

/-- The same block around other bodies, each made from the body that stood in
its place. -/
def Block.map {F G : Type} (f : F → G) : Block F → Block G
  | conditional b => .conditional (b.map f)
  | each b => .each (b.map f)
  | await b => .await (b.map f)

/-- How to make the value of a node or fragment from those of its parts: one way
for blocks, one for other nodes and one for fragments. -/
structure Algebra (A B : Type) where
  block : Block A → B
  other : OtherKind → Span → List A → B
  fragment : Span → List B → A

variable {A B : Type} (alg : Algebra A B)

mutual

/-- The value of a node.  The bodies inside it are folded first; all the
functions below are this one recursion, a function for each kind of part. -/
def Node.fold : Node → B
  | .block b => alg.block (foldBlock b)
  | .other kind span children => alg.other kind span (foldFragments children)

def foldFragment : FragmentOf Node → A
  | ⟨span, nodes⟩ => alg.fragment span (foldNodes nodes)

def foldNodes : List Node → List B
  | [] => []
  | n :: ns => Node.fold n :: foldNodes ns

def foldFragments : List (FragmentOf Node) → List A
  | [] => []
  | f :: fs => foldFragment f :: foldFragments fs

def foldBlock : Block (FragmentOf Node) → Block A
  | .conditional b => .conditional (foldIf b)
  | .each b => .each (foldEach b)
  | .await b => .await (foldAwait b)

def foldIf : IfBlock (FragmentOf Node) → IfBlock A
  | ⟨head, links, otherwise⟩ =>
    ⟨foldArm head, foldArms links, foldClause? otherwise⟩

def foldArm : Arm (FragmentOf Node) → Arm A
  | ⟨span, tag, expression, body⟩ => ⟨span, tag, expression, foldFragment body⟩

def foldArms : List (Arm (FragmentOf Node)) → List (Arm A)
  | [] => []
  | a :: arms => foldArm a :: foldArms arms

def foldClause? : Option (Clause (FragmentOf Node)) → Option (Clause A)
  | none => none
  | some c => some (foldClause c)

def foldClause : Clause (FragmentOf Node) → Clause A
  | ⟨tag, body⟩ => ⟨tag, foldFragment body⟩

def foldEach : EachBlock (FragmentOf Node) → EachBlock A
  | ⟨span, tag, expression, context, index, key, body, fallback⟩ =>
    ⟨span, tag, expression, context, index, key, foldFragment body,
      foldClause? fallback⟩

def foldAwait : AwaitBlock (FragmentOf Node) → AwaitBlock A
  | ⟨span, tag, expression, pending, thenTag, value, body, rescue⟩ =>
    ⟨span, tag, expression, foldFragment? pending, thenTag, value,
      foldFragment body, foldHandler? rescue⟩

def foldFragment? : Option (FragmentOf Node) → Option A
  | none => none
  | some f => some (foldFragment f)

def foldHandler? : Option (Handler (FragmentOf Node)) → Option (Handler A)
  | none => none
  | some h => some (foldHandler h)

def foldHandler : Handler (FragmentOf Node) → Handler A
  | ⟨tag, value, body⟩ => ⟨tag, value, foldFragment body⟩

end

theorem foldNodes_eq_map (ns : List Node) :
    foldNodes alg ns = ns.map (Node.fold alg) := by
  induction ns with
  | nil => simp [foldNodes]
  | cons n ns ih => simp [foldNodes, ih]

theorem foldFragments_eq_map (fs : List Fragment) :
    foldFragments alg fs = fs.map (foldFragment alg) := by
  induction fs with
  | nil => simp [foldFragments]
  | cons f fs ih => simp [foldFragments, ih]

theorem foldArms_eq_map (arms : List (Arm Fragment)) :
    foldArms alg arms = arms.map (Arm.map (foldFragment alg)) := by
  induction arms with
  | nil => simp [foldArms]
  | cons a arms ih => cases a; simp [foldArms, foldArm, Arm.map, ih]

theorem foldClause?_eq_map (c : Option (Clause Fragment)) :
    foldClause? alg c = c.map (Clause.map (foldFragment alg)) := by
  cases c with
  | none => simp [foldClause?]
  | some c => cases c; simp [foldClause?, foldClause, Clause.map]

theorem foldFragment?_eq_map (f : Option Fragment) :
    foldFragment? alg f = f.map (foldFragment alg) := by
  cases f <;> simp [foldFragment?]

theorem foldHandler?_eq_map (h : Option (Handler Fragment)) :
    foldHandler? alg h = h.map (Handler.map (foldFragment alg)) := by
  cases h with
  | none => simp [foldHandler?]
  | some h => cases h; simp [foldHandler?, foldHandler, Handler.map]

/-- A fold does to a block what `map` does.  Facts about folds thus need no case
for each kind of block. -/
theorem foldBlock_eq_map (b : Block Fragment) :
    foldBlock alg b = b.map (foldFragment alg) := by
  cases b with
  | conditional b =>
    rcases b with ⟨⟨span, tag, expression, body⟩, links, otherwise⟩
    simp [foldBlock, Block.map, foldIf, IfBlock.map, foldArm, Arm.map,
      foldArms_eq_map, foldClause?_eq_map]
  | each b =>
    cases b
    simp [foldBlock, Block.map, foldEach, EachBlock.map, foldClause?_eq_map]
  | await b =>
    cases b
    simp [foldBlock, Block.map, foldAwait, AwaitBlock.map, foldFragment?_eq_map,
      foldHandler?_eq_map]

end TemplateJsx.Markup
