import TemplateJsx.Files.Tree

/-!
# Storage

What runs need of a file system, so that they work alike on a file tree held in
memory and on the files of a machine.  Walking over a directory stands apart:
how it is done, and in which order, is left open.
-/

namespace TemplateJsx

/-- Operations on files in a monad: of the system for the program, of a tree in
memory for the theory. -/
class Storage (m : Type → Type) where
  /-- The text of a file. -/
  read : Path → m (Except FileFault Text)
  /-- The path leads to a directory. -/
  isDirectory : Path → m Bool
  /-- Makes a directory in one that is there. -/
  makeDirectory : Path → m (Except FileFault Unit)
  /-- Writes a file into a directory that is there. -/
  write : Path → Text → m (Except FileFault Unit)

/-- A walk over all that lies below a directory, at any depth.  The walk goes on
after a place that it could not look into. -/
class Walker (m : Type → Type) where
  /-- What is come upon below a directory, in the order in which it is. -/
  walk : Path → m (List (Except WalkFault Found))

namespace Storage

/-- A change of a file tree that may fail, and then changes nothing. -/
def change (f : FileTree → Except FileFault FileTree) :
    StateM FileTree (Except FileFault Unit) :=
  fun t =>
    match f t with
    | .ok t => (.ok (), t)
    | .error fault => (.error fault, t)

/-- A file tree held in memory. -/
instance : Storage (StateM FileTree) where
  read p := fun t => (t.read p, t)
  isDirectory p := fun t => (t.isDirectory p, t)
  makeDirectory p := change (·.makeDirectory p)
  write p s := change (·.write p s)

instance : Walker (StateM FileTree) where
  walk p := fun t => (t.walk p, t)

variable {m : Type → Type} [Monad m] [Storage m]

/-- Makes the first of some directories, each inside the next, and those around
it that are not there. -/
def makeDirectories : List Path → m (Except FileFault Unit)
  | [] => pure (.ok ())
  | p :: around => do
    if p.isEmpty then
      return .ok ()
    match ← makeDirectory p with
    | .ok () => return .ok ()
    | .error .notFound =>
      match ← makeDirectories around with
      | .error fault => return .error fault
      | .ok () =>
        match ← makeDirectory p with
        | .ok () => return .ok ()
        | .error fault =>
          return if ← isDirectory p then .ok () else .error fault
    | .error fault => return if ← isDirectory p then .ok () else .error fault

end Storage

end TemplateJsx
