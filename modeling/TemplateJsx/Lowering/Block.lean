import TemplateJsx.Draft.Basic
import TemplateJsx.Lowering.Delimiter
import TemplateJsx.Markup.Tree

/-!
# Lowering blocks

Each control-flow block becomes a JSX expression by splices on the block's tags;
its bodies are left for the blocks inside them.  A block is lowered up to its
closing tag, then the closing tag is looked for, and then it is lowered as well.

* A conditional becomes a function of native conditionals.
* An iteration becomes a mapped function.  A key stands in front of the body,
  and the fallback body after the whole expression.
* An await block becomes a promise with its continuations attached.
-/

namespace TemplateJsx

open Markup (Arm Clause Handler Binding IfBlock EachBlock AwaitBlock Block)

variable {F : Type}

/-- Records a splice while lowering; a splice that the draft refuses ends the
lowering. -/
def Draft.splice (d : Draft) (s : Splice) : Except Fault Draft :=
  match d.record s with
  | .ok d => .ok d
  | .error fault => .error (.splice fault)

def Draft.overwrite (d : Draft) (start stop : Nat) (text : Text) :
    Except Fault Draft :=
  d.splice (.overwrite ⟨start, stop⟩ text)

def Draft.remove (d : Draft) (start stop : Nat) : Except Fault Draft :=
  d.splice (.remove ⟨start, stop⟩)

def Draft.insert (d : Draft) (offset : Nat) (text : Text) :
    Except Fault Draft :=
  d.splice (.insert offset text)

/-! ## Conditionals -/

/-- Closes the condition of an arm and opens its body, in place of the brace
that ends the tag. -/
def closeCondition (arm : Arm F) (d : Draft) : Except Fault Draft := do
  let d ← d.insert arm.expression.stop ")".toList
  let brace ← closingBrace d.text arm.tag
  d.overwrite brace (brace + 1) "\x7b<>".toList

/-- Closes the body in front of an `else` tag.  Of the tag the brace and the
colon go, the word stays.  Gives the offset just past the word. -/
def closeBranch (start : Nat) (d : Draft) : Except Fault (Nat × Draft) := do
  let colon ← expectAt d.text start "\x7b".toList
  let word ← expectAt d.text colon ":".toList
  let stop ← expectAt d.text word "else".toList
  let d ← d.overwrite start colon "</>\x7d ".toList
  let d ← d.remove colon word
  return (stop, d)

/-- Lowers an `else if` tag.  The condition opens a conditional nested in the
branch, which the closing tag has to close. -/
def lowerLink (d : Draft) (arm : Arm F) : Except Fault Draft := do
  let (stop, d) ← closeBranch arm.tag.start d
  let d ← d.overwrite stop arm.expression.start " \x7bif (".toList
  closeCondition arm d

/-- Lowers an `else` tag, which closes the branch before it and opens the last
one. -/
def lowerElse (c : Clause F) (d : Draft) : Except Fault Draft := do
  let (_, d) ← closeBranch c.tag.start d
  let brace ← closingBrace d.text c.tag
  d.overwrite brace (brace + 1) " \x7b<>".toList

/-- Lowers the tags of a conditional but the closing one, all of its arms at
once: arms are no nodes that a walk would come to. -/
def openIf (b : IfBlock F) (d : Draft) : Except Fault Draft := do
  let _ ← expectAt d.text b.head.tag.start "\x7b#if".toList
  let d ← d.overwrite b.head.tag.start b.head.expression.start
    "\x7b() => \x7bif (".toList
  let d ← closeCondition b.head d
  let d ← b.links.foldlM lowerLink d
  match b.otherwise with
  | none => pure d
  | some c => lowerElse c d

/-- Lowers the closing tag of a conditional, which closes the first arm and,
with a brace each, the conditionals nested after it. -/
def closeIf (b : IfBlock F) (stop : Nat) (d : Draft) : Except Fault Draft :=
  d.overwrite stop b.span.stop
    ("</>\x7d".toList ++ List.replicate b.links.length '}' ++ "\x7d\x7d".toList)

/-! ## Iterations -/

/-- Where the parameters of the mapped function end: after the index if there is
one, else after the binding. -/
def parametersStop (text : Text) (b : EachBlock F) : Except Fault Nat :=
  match b.index with
  | none => .ok b.context.span.stop
  | some index => do
    let start ← findWord text b.context.span.stop b.tag.stop index
    return start + index.byteLength

/-- Lowers the opening tag of an iteration.  A key is left where it stands, in
front of the body that it guards. -/
def openEach (b : EachBlock F) (d : Draft) : Except Fault Draft := do
  let _ ← expectAt d.text b.tag.start "\x7b#each".toList
  let d ← d.overwrite b.tag.start b.expression.start "\x7b(".toList
  let d ← d.overwrite b.expression.stop b.context.span.start ").map((".toList
  let parameters ← parametersStop d.text b
  let d ← d.insert parameters ") =>".toList
  let brace ← closingBrace d.text b.tag
  d.overwrite brace (brace + 1)
    (if b.key.isSome then " && <>".toList else " <>".toList)

/-- Lowers the closing tag of an iteration.  With a fallback body it is the
`else` tag that closes the mapped function. -/
def closeEach (b : EachBlock F) (stop : Nat) (d : Draft) : Except Fault Draft :=
  match b.fallback with
  | none => d.overwrite stop b.span.stop "</>)\x7d".toList
  | some c => do
    let _ ← expectAt d.text c.tag.start "\x7b:else".toList
    let d ← d.overwrite c.tag.start c.tag.stop "</>)\x7d".toList
    d.remove stop b.span.stop

/-! ## Await blocks -/

def parameter (value : Option Binding) : Text :=
  (value.map Binding.name).getD []

def attachThen (value : Option Binding) : Text :=
  "_$$p.then((".toList ++ parameter value ++ ") => \x7b<>".toList

/-- Closes the body before and attaches the continuation for a failure. -/
def attachCatch (value : Option Binding) : Text :=
  "</>\x7d).catch((".toList ++ parameter value ++ ") => \x7b<>".toList

/-- Lowers what leads to the body for the value: in the long form the body to
show meanwhile and the `then` tag, in the short form the rest of the opening
tag. -/
def lowerThen (b : AwaitBlock F) (d : Draft) : Except Fault Draft :=
  match b.pending, b.thenTag with
  | some _, some tag => do
    let brace ← closingBrace d.text b.tag
    let _ ← expectAt d.text tag.start "\x7b:then".toList
    let d ← d.overwrite brace (brace + 1) " <>".toList
    let d ← d.insert tag.start "</>; ".toList
    d.overwrite tag.start tag.stop (attachThen b.value)
  | none, none => do
    let word ← findWord d.text b.expression.stop b.tag.stop "then".toList
    let _ ← closingBrace d.text b.tag
    d.overwrite word b.tag.stop (attachThen b.value)
  | some _, none => .error (.shape (.pendingWithoutThen b.span))
  | none, some tag => .error (.shape (.thenWithoutPending tag))

/-- Lowers a `catch` tag, which ends the body for the value and opens the one
for a failure. -/
def lowerCatch (h : Handler F) (d : Draft) : Except Fault Draft := do
  let _ ← expectAt d.text h.tag.start "\x7b:catch".toList
  d.overwrite h.tag.start h.tag.stop (attachCatch h.value)

/-- Lowers the tags of an await block but the closing one.  The promise gets a
name of its own, to which the continuations are attached. -/
def openAwait (b : AwaitBlock F) (d : Draft) : Except Fault Draft := do
  let _ ← expectAt d.text b.tag.start "\x7b#await".toList
  let d ← d.overwrite b.tag.start b.expression.start
    "\x7b() => \x7blet _$$p = (".toList
  let d ← d.insert b.expression.stop ");".toList
  let d ← lowerThen b d
  match b.rescue with
  | none => pure d
  | some h => lowerCatch h d

def closeAwait (b : AwaitBlock F) (stop : Nat) (d : Draft) :
    Except Fault Draft :=
  d.overwrite stop b.span.stop "</>\x7d)\x7d\x7d".toList

/-! ## All blocks -/

/-- Lowers a control-flow block up to its closing tag.  The bodies stay as they
are: the blocks in them come later. -/
def openBlock (d : Draft) : Block F → Except Fault Draft
  | .conditional b => openIf b d
  | .each b => openEach b d
  | .await b => openAwait b d

/-- Lowers the closing tag of a control-flow block, which starts at an
offset. -/
def closeBlock (stop : Nat) (d : Draft) : Block F → Except Fault Draft
  | .conditional b => closeIf b stop d
  | .each b => closeEach b stop d
  | .await b => closeAwait b stop d

/-- **Lowers a control-flow block.**  The closing tag is looked for only after
the tags before it are done, so that a block with several faults reports the
first of them. -/
def lowerBlock (d : Draft) (b : Block F) : Except Fault Draft := do
  let d ← openBlock d b
  let stop ← terminator d.text b.span b.keyword
  closeBlock stop d b

end TemplateJsx
