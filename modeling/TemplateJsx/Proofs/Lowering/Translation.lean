import TemplateJsx.Proofs.Markup.Nesting
import TemplateJsx.Text.Blank

/-!
# The structural translation

What a tree means as JSX, said by recursion on the tree and without offsets to
splice: a block is written anew around the translations of its bodies, and all
other nodes keep their text around the translations of their children.  Of a tag
the expressions and the text up to its closing brace are kept as they stand.

`translate` is the translation of a tree, and `translateNode_block` and
`translateNode_other` are its equations.
-/

namespace TemplateJsx

open Markup

def Text.cut (t : Text) (start stop : Nat) : Text :=
  (t.slice? ⟨start, stop⟩).getD []

def Text.from (t : Text) (start : Nat) : Text := (t.dropTo? start).getD []

variable {F G : Type} (t : Text)

/-! ## Tags -/

/-- A condition, the text after it and the opening of its body.  White space
between the condition and the brace of its tag is kept. -/
def conditionCode (a : Arm F) : Text :=
  t.cut a.expression.start a.expression.stop ++ ")".toList ++
    t.cut a.expression.stop (a.tag.stop - 1) ++
    "\x7b<>".toList

def headCode (a : Arm F) : Text :=
  "\x7b() => \x7bif (".toList ++ conditionCode t a

def linkCode (a : Arm F) : Text :=
  "</>\x7d else \x7bif (".toList ++ conditionCode t a

/-- The tag of an `else` clause.  What stands between the word and the brace is
kept. -/
def elseCode (c : Clause F) : Text :=
  "</>\x7d else".toList ++ t.cut (c.tag.start + 6) (c.tag.stop - 1) ++
    " \x7b<>".toList

/-- Where the parameters of an iteration end: after the index, which comes
behind a comma, or after the binding. -/
def parametersEnd (b : EachBlock F) : Nat :=
  match b.index with
  | none => b.context.span.stop
  | some index =>
    b.context.span.stop +
      Text.byteLength ((t.from b.context.span.stop).takeWhile fun c =>
        isBlank c || c == ',') +
      index.byteLength

/-- The opening tag of an iteration: a call of `map` on the list, with the
parameters as they stand in the tag.  The key is kept behind them. -/
def eachCode (b : EachBlock F) : Text :=
  "\x7b(".toList ++ t.cut b.expression.start b.expression.stop ++
    ").map((".toList ++
    t.cut b.context.span.start (parametersEnd t b) ++ ") =>".toList ++
    t.cut (parametersEnd t b) (b.tag.stop - 1) ++
    if b.key.isSome then " && <>".toList else " <>".toList

/-- Where the word `then` of the short form stands: behind the white space after
the expression. -/
def thenWord (b : AwaitBlock F) : Nat :=
  b.expression.stop + Text.byteLength
    ((t.from b.expression.stop).takeWhile isBlank)

def promiseCode (b : AwaitBlock F) : Text :=
  "\x7b() => \x7blet _$$p = (".toList ++ t.cut b.expression.start
    b.expression.stop ++ ");".toList

def thenCode (value : Option Binding) : Text :=
  "_$$p.then((".toList ++ (value.map Binding.name).getD [] ++
    ") => \x7b<>".toList

def catchCode (value : Option Binding) : Text :=
  "</>\x7d).catch((".toList ++ (value.map Binding.name).getD [] ++
    ") => \x7b<>".toList

/-! ## Blocks -/

variable (body : F → Text)

/-- A conditional around the code of its bodies.  A later arm goes into the
`else` of the one before it, so there are as many braces to close as there are
arms. -/
def ifCode (b : IfBlock F) : Text :=
  headCode t b.head ++ body b.head.body ++
    b.links.flatMap (fun a => linkCode t a ++ body a.body) ++
    b.otherwise.toList.flatMap (fun c => elseCode t c ++ body c.body) ++
    "</>\x7d".toList ++ List.replicate b.links.length '}' ++ "\x7d\x7d".toList

def loopCode (b : EachBlock F) : Text :=
  eachCode t b ++ body b.body ++ "</>)\x7d".toList ++ b.fallback.toList.flatMap
    fun c => body c.body

def awaitCode (b : AwaitBlock F) : Text :=
  promiseCode t b ++
    (match b.pending with
      | some f =>
        t.cut b.expression.stop (b.tag.stop - 1) ++ " <>".toList ++ body f ++
          "</>; ".toList
      | none => t.cut b.expression.stop (thenWord t b)) ++
    thenCode b.value ++ body b.body ++
    b.rescue.toList.flatMap (fun h => catchCode h.value ++ body h.body) ++
      "</>\x7d)\x7d\x7d".toList

/-- A block around the code of its bodies. -/
def blockCode : Block F → Text
  | .conditional b => ifCode t body b
  | .each b => loopCode t body b
  | .await b => awaitCode t body b

theorem blockCode_map (g : G → F) (b : Block G) :
    blockCode t body (b.map g) = blockCode t (body ∘ g) b := by
  cases b with
  | conditional b =>
      have hlinks : (b.links.map (Arm.map g)).flatMap
          (fun a => linkCode t a ++ body a.body) =
          b.links.flatMap fun a => linkCode t a ++ (body ∘ g) a.body := by
        rw [List.flatMap_map]
        rfl
      have hotherwise : (b.otherwise.map (Clause.map g)).toList.flatMap
          (fun c => elseCode t c ++ body c.body) =
          b.otherwise.toList.flatMap fun c =>
            elseCode t c ++ (body ∘ g) c.body := by
        cases b.otherwise <;> rfl
      simp only [Block.map, IfBlock.map, blockCode, ifCode, hlinks, hotherwise,
        List.length_map]
      rfl
  | each b =>
      have hfallback : (b.fallback.map (Clause.map g)).toList.flatMap
          (fun c => body c.body) =
          b.fallback.toList.flatMap fun c => (body ∘ g) c.body := by
        cases b.fallback <;> rfl
      simp only [Block.map, EachBlock.map, blockCode, loopCode, hfallback]
      rfl
  | await b =>
      have hrescue : (b.rescue.map (Handler.map g)).toList.flatMap
          (fun h => catchCode h.value ++ body h.body) =
          b.rescue.toList.flatMap fun h =>
            catchCode h.value ++ (body ∘ g) h.body := by
        cases b.rescue <;> rfl
      simp only [Block.map, AwaitBlock.map, blockCode, awaitCode, hrescue]
      cases b.pending <;> rfl

/-! ## Trees -/

/-- The text from one offset to another with parts of it replaced by code.
Everything outside the parts is copied. -/
def weave : Nat → List (Span × Text) → Nat → Text
  | start, [], stop => t.cut start stop
  | start, (x, code) :: rest, stop =>
    t.cut start x.start ++ code ++ weave x.stop rest stop

/-- The translation of nodes and fragments; that of a fragment goes with its
span.  A node that is no control-flow block keeps its text and has its children
translated in place. -/
def translation : Algebra (Span × Text) Text where
  block b := blockCode t Prod.snd b
  other _ span children := weave t span.start children span.stop
  fragment span nodes := (span, nodes.flatten)

def translateNode (n : Node) : Text := n.fold (translation t)

/-- The code of a fragment: that of its nodes, one after another. -/
def translate (f : Fragment) : Text := (foldFragment (translation t) f).2

theorem foldFragment_translation (f : Fragment) :
    foldFragment (translation t) f = (f.span, translate t f) := by
  obtain ⟨span, nodes⟩ := f
  rfl

theorem translate_eq (f : Fragment) :
    translate t f = f.nodes.flatMap (translateNode t) := by
  obtain ⟨span, nodes⟩ := f
  simp only [translate, foldFragment, foldNodes_eq_map, translation,
    List.flatMap]
  rfl

theorem translateNode_block (b : Block Fragment) :
    translateNode t (.block b) = blockCode t (translate t) b := by
  have hfold : translateNode t (.block b) =
      blockCode t Prod.snd (b.map (foldFragment (translation t))) := by
    rw [translateNode, Node.fold, foldBlock_eq_map]
    rfl
  rw [hfold, blockCode_map]
  rfl

theorem translateNode_other (kind : OtherKind) (span : Span)
    (children : List Fragment) :
    translateNode t (.other kind span children) =
      weave t span.start (children.map fun f => (f.span, translate t f))
        span.stop := by
  have hfold : translateNode t (.other kind span children) =
      weave t span.start (children.map (foldFragment (translation t)))
        span.stop := by
    rw [translateNode, Node.fold, foldFragments_eq_map]
    rfl
  rw [hfold]
  exact congrArg (weave t span.start · span.stop)
    (List.map_congr_left fun f _ => foldFragment_translation t f)

end TemplateJsx
