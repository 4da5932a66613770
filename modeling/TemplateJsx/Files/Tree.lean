import TemplateJsx.Files.Path

/-!
# File trees

A file tree says what is found at each location: a directory, a file with a
text, or a file whose bytes are no text.  Paths are followed from the working
directory or from the root, one segment at a time, and every segment but the
last has to lead to a directory.  Reading, writing and making directories fail
for the reasons that an operating system gives.
-/

namespace TemplateJsx

/-- Why an operation on files failed, for the reasons that a system gives. -/
inductive FileFault where
  | notFound
  | exists
  | notDirectory
  | isDirectory
  /-- A name or a whole path is longer than the system takes. -/
  | tooLong
  /-- The path holds the character zero. -/
  | zeroInPath
  /-- The bytes of a file are no text. -/
  | notText
  /-- A reason outside the ones above, in the words of the system. -/
  | other (reason : String)
  deriving DecidableEq, Repr

def FileFault.message : FileFault → String
  | notFound => "No such file or directory (os error 2)"
  | .exists => "File exists (os error 17)"
  | notDirectory => "Not a directory (os error 20)"
  | isDirectory => "Is a directory (os error 21)"
  | tooLong => "File name too long (os error 36)"
  | zeroInPath => "file name contained an unexpected NUL byte"
  | notText => "stream did not contain valid UTF-8"
  | other reason => reason

/-- Something that a walk over a directory comes upon. -/
structure Found where
  path : Path
  isFile : Bool
  deriving DecidableEq, Repr

/-- A place that a walk over a directory could not look into. -/
structure WalkFault where
  path : Path
  reason : FileFault
  deriving DecidableEq, Repr

def WalkFault.message (f : WalkFault) : String :=
  "IO error for operation on " ++ String.ofList f.path.text ++ ": " ++
    f.reason.message

/-- A place in a file tree: the names on the way from the root. -/
abbrev Location := List Text

inductive Entry where
  | directory
  | text (t : Text)
  /-- A file whose bytes are no text. -/
  | binary
  deriving DecidableEq, Repr

/-- What is found where, and from where relative paths start.  There are no
links, and everything may be read and written. -/
structure FileTree where
  entries : List (Location × Entry)
  working : Location

namespace FileTree

/-- What is found at a location; the root is always a directory. -/
def find? (t : FileTree) (l : Location) : Option Entry :=
  if l = [] then some .directory else t.entries.lookup l

def put (t : FileTree) (l : Location) (e : Entry) : FileTree :=
  { t with entries := (l, e) :: t.entries.filter (·.1 ≠ l) }

/-- The tree with something put at a location and directories all around it. -/
def plant (t : FileTree) (l : Location) (e : Entry) : FileTree :=
  ((List.range l.length).tail.foldl (fun t n =>
    t.put (l.take n) .directory) t).put l e

/-- A tree with nothing but its working directory. -/
def bare (working : Location) : FileTree :=
  plant ⟨[], working⟩ working .directory

def nameLimit : Nat := 255

def pathLimit : Nat := 4095

/-- The location where a path starts, if the system takes the path at all. -/
def origin (t : FileTree) (p : Path) : Except FileFault Location :=
  if p.isEmpty then .error .notFound
  else if p.text.contains '\x00' then .error .zeroInPath
  else if pathLimit < p.text.byteLength then .error .tooLong
  else .ok (if p.absolute then [] else t.working)

/-- The location that a segment leads to from a directory. -/
def enter (t : FileTree) (l : Location) (segment : Text) :
    Except FileFault Location :=
  match t.find? l with
  | none => .error .notFound
  | some .directory =>
    if segment = [] || segment = ['.'] then .ok l
    else if segment = ['.', '.'] then .ok l.dropLast
    else if nameLimit < segment.byteLength then .error .tooLong
    else .ok (l ++ [segment])
  | some _ => .error .notDirectory

/-- The location that a path leads to, of which all but the last name have to be
there. -/
def follow (t : FileTree) (p : Path) : Except FileFault Location := do
  p.segments.foldlM t.enter (← t.origin p)

def isDirectory (t : FileTree) (p : Path) : Bool :=
  match t.follow p with
  | .ok l => t.find? l == some .directory
  | .error _ => false

def read (t : FileTree) (p : Path) : Except FileFault Text := do
  match t.find? (← t.follow p) with
  | none => throw .notFound
  | some .directory => throw .isDirectory
  | some .binary => throw .notText
  | some (.text s) => return s

/-- Segments without the empty ones that slashes at the end leave. -/
def dropSlashes (segments : List Text) : List Text :=
  (segments.reverse.dropWhile (· = [])).reverse

/-- The last segment is a name by which something new can be made. -/
def endsWithName (segments : List Text) : Bool :=
  match segments.getLast? with
  | none => false
  | some s => s ≠ [] && s ≠ ['.'] && s ≠ ['.', '.']

/-- Makes a directory, which does not have to be there yet; slashes after its
name are allowed. -/
def makeDirectory (t : FileTree) (p : Path) : Except FileFault FileTree := do
  let segments := dropSlashes p.segments
  let l ← segments.foldlM t.enter (← t.origin p)
  if !endsWithName segments || (t.find? l).isSome then throw .exists
  return t.put l .directory

/-- Writes a file, over what it held before.  The directory around it is looked
up first, then the path has to end with a name, and then the name is looked
up. -/
def write (t : FileTree) (p : Path) (s : Text) : Except FileFault FileTree := do
  let segments := dropSlashes p.segments
  let around ← (segments.dropLast ++ [[]]).foldlM t.enter (← t.origin p)
  if !endsWithName p.segments then throw .isDirectory
  let l ← t.enter around (segments.getLast?.getD [])
  if t.find? l == some .directory then throw .isDirectory
  return t.put l (.text s)

/-- What a walk from a path, which leads to a location, comes upon in an entry
of a tree.  A directory whose path is longer than the system takes is come upon
but cannot be looked into, so that what lies in it stays unseen. -/
def comeUpon (p : Path) (l : Location) (entry : Location × Entry) :
    List (Except WalkFault Found) :=
  match l.isPrefixOf? entry.1 with
  | none => []
  | some names =>
    let path := names.foldl Path.child p
    if pathLimit < (names.dropLast.foldl Path.child p).text.byteLength then []
    else if entry.2 ≠ .directory then [.ok ⟨path, true⟩]
    else if pathLimit < path.text.byteLength then
      [.ok ⟨path, false⟩, .error ⟨path, .tooLong⟩]
    else [.ok ⟨path, false⟩]

/-- What a walk comes upon below the directory of a path, in the order in which
the tree lists it. -/
def walk (t : FileTree) (p : Path) : List (Except WalkFault Found) :=
  match t.follow p with
  | .error reason => [.error ⟨p, reason⟩]
  | .ok l => t.entries.flatMap (comeUpon p l)

/-- The files below the working directory that are not the same in an earlier
tree, with the way to them. -/
def changedSince (t earlier : FileTree) : List (Location × Entry) :=
  t.entries.filterMap fun (l, e) =>
    if e = .directory || earlier.find? l == some e then none
    else (t.working.isPrefixOf? l).map (·, e)

end FileTree

end TemplateJsx
