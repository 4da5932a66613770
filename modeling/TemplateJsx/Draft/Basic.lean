import TemplateJsx.Draft.Splice
import TemplateJsx.SourceMap.Mapping
import TemplateJsx.Text.LineIndex

/-!
# Drafts

A draft is a text with the splices recorded on it so far and the texts to put
around it.  Recording checks each splice against the text and against the
splices before it, so that all of them can be made at once.

`Draft.render?` makes them: it cuts the code into stretches, each with the
position in the text that it stands for, and reads code and mappings off the
stretches.
-/

namespace TemplateJsx

/-- A text under change: the splices on it in the order in which they were
recorded, and the texts in front of and behind everything. -/
structure Draft where
  text : Text
  splices : List Splice
  intro : Text
  outro : Text

namespace Draft

def ofText (text : Text) : Draft := ⟨text, [], [], []⟩

def rangeFault? (text : Text) (s : Splice) : Option SpliceFault :=
  let span := s.span
  let length := text.byteLength
  if span.stop < span.start || length < span.stop then
    some (.outside span length)
  else if !(text.isBoundary span.start && text.isBoundary span.stop) then
    some (.splitsCharacter span)
  else if !s.isInsert && span.isEmpty then some (.emptyRange span)
  else none

/-- Hands a splice to a draft.  The draft takes it unless its range is wrong or
it conflicts with an earlier one.  Either way there is a draft to go on with. -/
def submit (d : Draft) (s : Splice) : Except SpliceFault Unit × Draft :=
  match rangeFault? d.text s with
  | some fault => (.error fault, d)
  | none =>
    match d.splices.find? (·.conflictsWith s) with
    | some earlier => (.error (.overlaps s.span earlier.span), d)
    | none => (.ok (), { d with splices := d.splices ++ [s] })

/-- The draft with one more splice, for a run that ends at the first refusal. -/
def record (d : Draft) (s : Splice) : Except SpliceFault Draft :=
  match d.submit s with
  | (.ok (), d) => .ok d
  | (.error fault, _) => .error fault

def prepend (d : Draft) (t : Text) : Draft := { d with intro := t ++ d.intro }

def append (d : Draft) (t : Text) : Draft := { d with outro := d.outro ++ t }

end Draft

/-- A stretch of rendered code: text that is copied from the template, text that
a splice brings in, or text around everything. -/
inductive Stretch where
  /-- Text that stands for nothing in the template. -/
  | unmapped (text : Text)
  /-- Text that a splice brought in; all of it stands for the place of the
  splice. -/
  | placed (origin : Position) (text : Text)
  /-- Text of the template; each character stands for itself. -/
  | copied (origin : Position) (text : Text)
  deriving DecidableEq, Repr

namespace Stretch

def text : Stretch → Text
  | unmapped text => text
  | placed _ text => text
  | copied _ text => text

/-- A mapping for each character but line feeds, from two positions that move on
together. -/
def characterMappings : (generated source : Position) → Text → List Mapping
  | _, _, [] => []
  | g, s, c :: t =>
    let rest := characterMappings (g.step c) (s.step c) t
    if c = '\n' then rest else ⟨g, s⟩ :: rest

/-- The mappings of a stretch that begins at a position of the code. -/
def mappings (generated : Position) : Stretch → List Mapping
  | unmapped _ => []
  | placed origin _ => [⟨generated, origin⟩]
  | copied origin text => characterMappings generated origin text

/-- The mappings of stretches one after another. -/
def mappingsFrom : Position → List Stretch → List Mapping
  | _, [] => []
  | p, s :: rest => s.mappings p ++ mappingsFrom (p.after s.text) rest

end Stretch

structure Rendered where
  code : Text
  mappings : List Mapping
  deriving DecidableEq, Repr

namespace Draft

/-- The text between two offsets as a stretch, if there is any. -/
def copied? (index : LineIndex) (start stop : Nat) : Option (List Stretch) :=
  if stop ≤ start then
    some []
  else do
    let origin ← index.position? start
    let inside ← index.text.slice? ⟨start, stop⟩
    return [.copied origin inside]

/-- What a splice brings in as a stretch, if it brings in anything. -/
def placed? (index : LineIndex) (s : Splice) : Option (List Stretch) :=
  if s.text.isEmpty then some []
  else (index.position? s.span.start).map fun origin => [.placed origin s.text]

/-- The stretches from an offset on, with the splices that are left in order. -/
def stretchesFrom? (index : LineIndex) :
    Nat → List Splice → Option (List Stretch)
  | cursor, [] => copied? index cursor index.text.byteLength
  | cursor, s :: rest => do
    let before ← copied? index cursor s.span.start
    let own ← placed? index s
    let after ← stretchesFrom? index (max cursor s.span.stop) rest
    return before ++ own ++ after

/-- All stretches of the rendered code.  There are none if a splice lies outside
the text or splits a character. -/
def stretches? (d : Draft) : Option (List Stretch) :=
  (stretchesFrom? (.ofText d.text) 0 (Splice.ordered d.splices)).map fun ss =>
    .unmapped d.intro :: (ss ++ [.unmapped d.outro])

/-- Makes all splices at once, and gives the code with the mappings from it back
to the text. -/
def render? (d : Draft) : Option Rendered :=
  d.stretches?.map fun ss =>
    ⟨ss.flatMap Stretch.text, Stretch.mappingsFrom Position.origin ss⟩

end Draft

end TemplateJsx
