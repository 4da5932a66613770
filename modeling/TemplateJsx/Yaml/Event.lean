import TemplateJsx.Yaml.Token

/-!
# Events of a YAML document

A document is read as a flat run of events: each node where it starts, aliases
in the place of nodes, and the end of each collection.  Nothing of a collection
has to be held to read on, only a stack that says what may come next in each of
the collections that are open.

A step answers nothing where the text is malformed.
-/

namespace TemplateJsx.Yaml

/-- A scalar with the tag it carries. -/
structure Scalar where
  tag : Option Text
  style : Style
  value : Text
  deriving DecidableEq, Repr

/-- What a node is; of a collection only its sort. -/
inductive Content where
  | scalar (s : Scalar)
  | sequence
  | mapping
  deriving DecidableEq, Repr

/-- A node with the mark where it starts, properties included. -/
structure Node where
  mark : Mark
  anchor : Option Text
  content : Content
  deriving DecidableEq, Repr

/-- A step through a document.  Collections are opened and closed, so that a
document is a flat list of events. -/
inductive Event (R : Type) where
  /-- A scalar, or the start of a collection. -/
  | node (n : Node)
  /-- A reference to an anchored node. -/
  | alias (target : R)
  /-- The end of the innermost collection. -/
  | close

/-- The place of a node that is left out: an empty plain scalar. -/
def Event.empty {R : Type} (mark : Mark) : Event R :=
  .node ⟨mark, none, .scalar ⟨none, .plain, []⟩⟩

/-- What may come next in a collection.  A document is read with a stack of
them, one for each open collection. -/
inductive Phase where
  /-- An item of a block sequence. -/
  | item
  /-- An item of a sequence that has no indentation of its own. -/
  | bareItem
  | blockKey
  | blockValue
  /-- An item between brackets, with a comma in front unless it is the first. -/
  | flowItem (first : Bool)
  /-- The key of a mapping that is an item between brackets and has no brackets
  of its own. -/
  | pairKey
  | pairValue
  | pairEnd
  /-- A key between brackets, with a comma in front unless it is the first. -/
  | flowKey (first : Bool)
  | flowValue
  /-- The value of a key that stands alone between brackets. -/
  | flowNoValue
  deriving DecidableEq, Repr

/-- Reading off a token stream, which fails where the text is malformed. -/
abbrev Reading := StateT TokenStream Option

namespace Reading

def peek : Reading Token := TokenStream.peek

def skip : Reading Unit := modify TokenStream.drop

/-- Shorthands that stand for the start of tags. -/
abbrev TagHandles := List (Text × Text)

def standardHandles : TagHandles :=
  [("!".toList, "!".toList), ("!!".toList, "tag:yaml.org,2002:".toList)]

/-- The directives in front of a document: at most one version, of which two are
known, and shorthands for tags, each declared once. -/
def directives :
    (fuel : Nat) → (versioned : Bool) → TagHandles → Reading TagHandles
  | 0, _, handles => pure handles
  | fuel + 1, versioned, handles => do
    match (← peek).kind with
    | .version major minor =>
      if versioned || major ≠ 1 || (minor ≠ 1 && minor ≠ 2) then failure
      skip
      directives fuel true handles
    | .tagDirective handle expansion =>
      if (handles.lookup handle).isSome then failure
      skip
      directives fuel versioned (handles ++ [(handle, expansion)])
    | _ => pure handles

/-- An anchor and a tag in front of a node, each at most once and in either
order. -/
def properties : Reading (Option Text × Option (Text × Text)) := do
  match (← peek).kind with
  | .anchor name =>
    skip
    match (← peek).kind with
    | .tag handle suffix => skip; return (some name, some (handle, suffix))
    | _ => return (some name, none)
  | .tag handle suffix =>
    skip
    match (← peek).kind with
    | .anchor name => skip; return (some name, some (handle, suffix))
    | _ => return (none, some (handle, suffix))
  | _ => return (none, none)

def wholeTag (handles : TagHandles) (handle suffix : Text) : Reading Text :=
  if handle.isEmpty then pure suffix
  else match handles.lookup handle with
    | some expansion => pure (expansion ++ suffix)
    | none => failure

/-- The content of a node after its properties, and what may come next if it is
a collection.  Blocks may start there unless it stands between brackets; the
items of a sequence may stand without indentation of their own where `bare` says
so.  A node may be left out only if it has properties. -/
def content (block bare : Bool) (anchored : Bool) (tag : Option Text) :
    Reading (Content × List Phase) := do
  match (← peek).kind with
  | .scalar style value =>
    skip
    return (.scalar ⟨if tag = some ['!'] then none else tag, style, value⟩, [])
  | .flowSequenceStart =>
    skip
    return (.sequence, [.flowItem true])
  | .flowMappingStart =>
    skip
    return (.mapping, [.flowKey true])
  | kind =>
    if bare && kind = .blockEntry then
      return (.sequence, [.bareItem])
    else if block && kind = .blockSequenceStart then
      skip
      return (.sequence, [.item])
    else if block && kind = .blockMappingStart then
      skip
      return (.mapping, [.blockKey])
    else if anchored || tag.isSome then
      return (.scalar ⟨tag, .plain, []⟩, [])
    else
      failure

/-- A node or an alias, and what may come next in it. -/
def node (handles : TagHandles) (block bare : Bool) :
    Reading (Event Text × List Phase) := do
  let first ← peek
  match first.kind with
  | .alias name =>
    skip
    return (.alias name, [])
  | _ =>
    let (anchor, parts) ← properties
    let tag ← match parts with
      | none => pure none
      | some (handle, suffix) => some <$> wholeTag handles handle suffix
    let (content, inner) ← content block bare anchor.isSome tag
    return (.node ⟨first.start, anchor, content⟩, inner)

/-- A node inside a block.  It is left out where a token comes next that can
only stand after it, and then has the given mark. -/
def blockNode (handles : TagHandles) (bare : Bool) (after : List TokenKind)
    (mark : Mark) (next : Phase) :
    Reading (Event Text × List Phase) := do
  if after.contains (← peek).kind then
    return (.empty mark, [next])
  else
    let (event, inner) ← node handles true bare
    return (event, inner ++ [next])

/-- A node between brackets.  It is left out where a token comes next that can
only stand after it. -/
def flowNode (handles : TagHandles) (after : List TokenKind) (next : Phase) :
    Reading (Event Text × List Phase) := do
  let token ← peek
  if after.contains token.kind then
    return (.empty token.start, [next])
  else
    let (event, inner) ← node handles false false
    return (event, inner ++ [next])

/-- The end of a collection that has a token of its own. -/
def closing : Reading (Event Text × List Phase) := do
  skip
  return (.close, [])

/-- The first token of an entry between brackets after the comma in front of it,
or the closing bracket. -/
def flowStart (first : Bool) (bracket : TokenKind) : Reading Token := do
  let token ← peek
  if first || token.kind = bracket then
    return token
  else if token.kind = .flowEntry then
    skip
    peek
  else
    failure

/-- The next event of a collection, and the phases that follow it there. -/
def step (handles : TagHandles) : Phase → Reading (Event Text × List Phase)
  | .item => do
    let token ← peek
    match token.kind with
    | .blockEntry =>
      skip
      blockNode handles false [.blockEntry, .blockEnd] token.stop .item
    | .blockEnd => closing
    | _ => failure
  | .bareItem => do
    let token ← peek
    match token.kind with
    | .blockEntry =>
      skip
      blockNode handles false [.blockEntry, .key, .value, .blockEnd]
        token.stop .bareItem
    | _ => return (.close, [])
  | .blockKey => do
    let token ← peek
    match token.kind with
    | .key =>
      skip
      blockNode handles true [.key, .value, .blockEnd] token.stop .blockValue
    | .blockEnd => closing
    | _ => failure
  | .blockValue => do
    let token ← peek
    match token.kind with
    | .value =>
      skip
      blockNode handles true [.key, .value, .blockEnd] token.stop .blockKey
    | _ => return (.empty token.start, [.blockKey])
  | .flowItem first => do
    let token ← flowStart first .flowSequenceEnd
    match token.kind with
    | .flowSequenceEnd => closing
    | .key =>
      skip
      return (.node ⟨token.start, none, .mapping⟩, [.pairKey, .flowItem false])
    | _ => flowNode handles [] (.flowItem false)
  | .pairKey => do
    let token ← peek
    match token.kind with
    | .value | .flowEntry | .flowSequenceEnd =>
      skip
      return (.empty token.stop, [.pairValue])
    | _ => flowNode handles [] .pairValue
  | .pairValue => do
    let token ← peek
    match token.kind with
    | .value =>
      skip
      flowNode handles [.flowEntry, .flowSequenceEnd] .pairEnd
    | _ => return (.empty token.start, [.pairEnd])
  | .pairEnd => return (.close, [])
  | .flowKey first => do
    let token ← flowStart first .flowMappingEnd
    match token.kind with
    | .flowMappingEnd => closing
    | .key =>
      skip
      flowNode handles [.value, .flowEntry, .flowMappingEnd] .flowValue
    | _ => flowNode handles [] .flowNoValue
  | .flowValue => do
    let token ← peek
    match token.kind with
    | .value =>
      skip
      flowNode handles [.flowEntry, .flowMappingEnd] (.flowKey false)
    | _ => return (.empty token.start, [.flowKey false])
  | .flowNoValue => do return (.empty (← peek).start, [.flowKey false])

/-- The shorthands for tags that a document knows and its first event; nothing
for a text without a document. -/
def top (fuel : Nat) :
    Reading (Option (TagHandles × Event Text × List Phase)) := do
  match (← peek).kind with
  | .streamEnd => return none
  | .version .. | .tagDirective .. | .documentStart =>
    let handles ← directives fuel false []
    if (← peek).kind ≠ .documentStart then failure
    skip
    let handles := handles ++ standardHandles
    let token ← peek
    match token.kind with
    | .version .. | .tagDirective .. | .documentStart | .documentEnd
    | .streamEnd =>
      return some (handles, .empty token.start, [])
    | _ => return some (handles, ← node handles true false)
  | _ => return some (standardHandles, ← node standardHandles true false)

def atEnd : (fuel : Nat) → Reading Bool
  | 0 => pure false
  | fuel + 1 => do
    match (← peek).kind with
    | .documentEnd => skip; atEnd fuel
    | .streamEnd => return true
    | _ => return false

end Reading

end TemplateJsx.Yaml
