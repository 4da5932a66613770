import TemplateJsx.Text.Lines

/-!
# Paths

A path is written as names with slashes between them, and starts at the root if
the first character is a slash.  The written form is kept: a doubled slash, a
slash at the end or a dot in the middle mean nothing, but they stay where they
are.  What a path means is the list of its components.
-/

namespace TemplateJsx

/-- A path as it is written: whether a slash is in front, and what stands
between the further slashes. -/
structure Path where
  absolute : Bool
  segments : List Text
  deriving DecidableEq, Repr

/-- A step of a path: to the root, to where one is, upwards, or to a name. -/
inductive Component where
  | root
  /-- The directory itself; of this sort only one at the very start counts. -/
  | here
  | up
  | name (n : Text)
  deriving DecidableEq, Repr

namespace Component

def rank : Component → Nat
  | root => 0
  | here => 1
  | up => 2
  | name _ => 3

/-- Names are compared character by character, other components by their
sort. -/
def order : Component → Component → Ordering
  | name a, name b => List.compareLex compare a b
  | a, b => compare a.rank b.rank

def text : Component → Text
  | root => []
  | here => ['.']
  | up => ['.', '.']
  | name n => n

end Component

namespace Path

def ofText : Text → Path
  | '/' :: t => ⟨true, Text.split '/' t⟩
  | t => ⟨false, Text.split '/' t⟩

def text (p : Path) : Text :=
  let body := Text.joinWith '/' p.segments
  if p.absolute then '/' :: body else body

/-- The written form gives back the text it came from. -/
@[simp] theorem text_ofText (t : Text) : (ofText t).text = t := by
  unfold ofText
  split <;> simp [text, Text.joinWith_split]

def empty : Path := ⟨false, [[]]⟩

def isEmpty (p : Path) : Bool := p.text.isEmpty

/-- Segments without those at the end that mean nothing. -/
def trimEnd (absolute : Bool) (segments : List Text) : List Text :=
  match segments with
  | [] => []
  | first :: rest =>
    let rest := (rest.reverse.dropWhile fun s => s = [] || s = ['.']).reverse
    if rest.isEmpty && (first = [] || (absolute && first = ['.'])) then []
    else first :: rest

/-- The segments up to the last one that means something. -/
def body (p : Path) : List Text := trimEnd p.absolute p.segments

/-- The step of a segment that does not come first; there a single dot means
nothing. -/
def laterComponent? (s : Text) : Option Component :=
  if s = [] || s = ['.'] then none
  else if s = ['.', '.'] then some .up
  else some (.name s)

/-- What a path means, step by step.  Slashes and dots that mean nothing are
left out, as `a//b/./` means `a/b`. -/
def components (p : Path) : List Component :=
  if p.absolute then .root :: p.segments.filterMap laterComponent?
  else
    match p.segments with
    | [] => []
    | first :: rest =>
      (if first = ['.'] then [.here] else (laterComponent? first).toList) ++
        rest.filterMap laterComponent?

/-- The name at the end of a path, unless the path ends with a step of another
sort. -/
def fileName? (p : Path) : Option Text :=
  match p.components.getLast? with
  | some (.name n) => some n
  | _ => none

/-- The path without its last component; the root and the path of no characters
have none. -/
def parent? (p : Path) : Option Path :=
  if p.body.isEmpty then none
  else
    match trimEnd p.absolute p.body.dropLast with
    | [] => some ⟨p.absolute, [[]]⟩
    | segments => some ⟨p.absolute, segments⟩

/-- A path followed by another one; an absolute one stands for itself. -/
def join (p q : Path) : Path :=
  if q.absolute then q
  else
    let front :=
      if p.segments.getLast? = some [] then p.segments.dropLast else p.segments
    ⟨p.absolute, front ++ q.segments⟩

def child (p : Path) (name : Text) : Path := p.join ⟨false, [name]⟩

def extend (p : Path) (suffix : Text) : Path := ofText (p.text ++ suffix)

/-- The parts of a name before and after its last dot.  A dot that starts the
name divides nothing, as in `.profile`. -/
def splitName (name : Text) : Text × Option Text :=
  let pieces := Text.split '.' name
  let stem := Text.joinWith '.' pieces.dropLast
  if pieces.length ≤ 1 || stem.isEmpty then (name, none)
  else (stem, pieces.getLast?)

def stem? (p : Path) : Option Text := p.fileName?.map fun n => (splitName n).1

def extension? (p : Path) : Option Text :=
  p.fileName?.bind fun n => (splitName n).2

/-- How reports name a file: by the name at the end of its path, or else by the
whole path. -/
def displayName (p : Path) : Text := p.fileName?.getD p.text

/-- The path from a directory to a path inside it. -/
def relativeTo? (p directory : Path) : Option Path :=
  (directory.components.isPrefixOf? p.components).map fun rest =>
    if rest.isEmpty then empty else ⟨false, rest.map Component.text⟩

/-- Paths are ordered component by component, so that what lies in a directory
stays together. -/
def precedes (p q : Path) : Bool :=
  (List.compareLex Component.order p.components q.components).isLE

/-- A path and the paths above it, from the inside out. -/
def ancestors (p : Path) : List Path := go p.segments.length p
where
  /-- Up to `fuel` steps upwards. -/
  go : (fuel : Nat) → Path → List Path
    | 0, p => [p]
    | fuel + 1, p =>
      match p.parent? with
      | none => [p]
      | some q => p :: go fuel q

end Path

end TemplateJsx
