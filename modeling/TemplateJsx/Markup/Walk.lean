import TemplateJsx.Markup.Fold

/-!
# Walking a tree

A walk enters every node of a fragment, a node before what is nested in it and
siblings in the order of the text.  The visitor decides at each node whether the
walk goes on inside it, and may end the walk by failing in its monad.

The `else if` arms of a conditional are not nodes: their bodies are nested in
the conditional itself.
-/

namespace TemplateJsx.Markup

/-- What a visitor asks for after it has entered a node: to go on inside it or
not. -/
inductive Step where
  /-- Go on with what is nested in the node. -/
  | descend
  /-- Leave out what is nested in the node. -/
  | skip
  deriving DecidableEq, Repr

variable {m : Type → Type} [Monad m]

def runAll : List (m Unit) → m Unit
  | [] => pure ()
  | a :: rest => do
    a
    runAll rest

/-- Enters a node and then, if the visitor asks for it, goes on inside.  A
visitor that fails ends the walk. -/
def enterNode (enter : Node → m Step) (n : Node) (inside : List (m Unit)) :
    m Unit := do
  match ← enter n with
  | .skip => pure ()
  | .descend => runAll inside

/-- Every node and fragment together with the walk over it.  The walk is the
fold of this algebra, so a visitor gets to see whole nodes. -/
def walkAlgebra (enter : Node → m Step) :
    Algebra (Fragment × m Unit) (Node × m Unit) where
  block b :=
    let n := Node.block (b.map Prod.fst)
    (n, enterNode enter n (b.bodies.map Prod.snd))
  other kind span children :=
    let n := Node.other kind span (children.map Prod.fst)
    (n, enterNode enter n (children.map Prod.snd))
  fragment span nodes :=
    (⟨span, nodes.map Prod.fst⟩, runAll (nodes.map Prod.snd))

/-- Walks over a node and what is nested in it: the node first, and then its
fragments in the order of the text. -/
def walkNode (enter : Node → m Step) (n : Node) : m Unit :=
  (n.fold (walkAlgebra enter)).2

def walkFragment (enter : Node → m Step) (f : Fragment) : m Unit :=
  (foldFragment (walkAlgebra enter) f).2

end TemplateJsx.Markup
