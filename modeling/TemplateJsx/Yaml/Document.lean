import TemplateJsx.Yaml.Event

/-!
# YAML documents

A document is the events of a text up to its end or to where it is malformed.
What was read in front of malformed text stays, since a fault in an earlier
setting is reported ahead of it.  Aliases hold the number of an anchor and are
resolved when the reading is over, so an anchor that comes later can take a
number over from the one that an alias meant.
-/

namespace TemplateJsx.Yaml

/-- What was read of a document: its events, the anchors known by name, and
whether it came to its end. -/
structure Document where
  /-- The events; an alias holds the number of its anchor. -/
  events : Array (Event Nat)
  /-- The number of each anchor. -/
  numbers : List (Text × Nat)
  /-- The node under each number, the latest first. -/
  anchored : List (Nat × Node)
  /-- The document was read whole, and nothing follows it in the text. -/
  complete : Bool

namespace Document

def unread : Document := ⟨#[], [], [], false⟩

/-- The document with a node under the name of an anchor.  An anchor is numbered
by how many names are known, so a name set again shares its number with the next
new name. -/
def setAnchor (d : Document) (name : Text) (n : Node) : Document :=
  let number := d.numbers.length
  { d with
    numbers := (name, number) :: d.numbers.filter (·.1 ≠ name)
    anchored := (number, n) :: d.anchored }

/-- The document with one more event; an alias has to name a known anchor. -/
def add? (d : Document) : Event Text → Option Document
  | .node n =>
    let d := match n.anchor with
      | none => d
      | some name => d.setAnchor name n
    some { d with events := d.events.push (.node n) }
  | .alias name =>
    (d.numbers.lookup name).map fun number =>
      { d with events := d.events.push (.alias number) }
  | .close => some { d with events := d.events.push .close }

/-- The node that an event stands for; an alias stands for the node of its
anchor. -/
def resolve (d : Document) : Event Nat → Option Node
  | .node n => some n
  | .alias number => d.anchored.lookup number
  | .close => none

/-- The document, complete if nothing follows it. -/
def finish (d : Document) (s : TokenStream) : Document :=
  match (Reading.atEnd (s.size + 2)).run s with
  | some (true, _) => { d with complete := true }
  | _ => d

/-- Adds the events that the open collections still have. -/
def extend (handles : Reading.TagHandles) :
    (fuel : Nat) → List Phase → Document → TokenStream → Document
  | 0, _, d, _ => d
  | _, [], d, s => d.finish s
  | fuel + 1, phase :: outer, d, s =>
    match (Reading.step handles phase).run s with
    | none => d
    | some ((event, inner), s) =>
      match d.add? event with
      | none => d
      | some d => extend handles fuel (inner ++ outer) d s

def ofTokens (fuel : Nat) (s : TokenStream) : Document :=
  match (Reading.top fuel).run s with
  | none => unread
  | some (none, _) => { unread with complete := true }
  | some (some (handles, event, phases), s) =>
    match unread.add? event with
    | none => unread
    | some d => extend handles fuel phases d s

/-- Reads the first document of a text, as far as it can be read. -/
def ofText (t : Text) : Document :=
  let (t, whole) := readable t
  let t := normalize t
  ofTokens (8 * (t.length + 2)) (TokenStream.ofText t whole)

end Document

end TemplateJsx.Yaml
