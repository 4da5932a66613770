import TemplateJsx.Files.Storage
import TemplateJsx.Files.Template
import TemplateJsx.Lowering.Transform
import TemplateJsx.Markup.Outline
import TemplateJsx.Options.Reading
import TemplateJsx.Order

/-!
# Runs on files

A run reads a template, transforms it and writes its outputs.  A run on a
directory does so for every template below it, in the order of their paths; a
template that fails does not stop the others.
-/

namespace TemplateJsx

/-- Why a run failed: on which file, at what, and for what reason. -/
inductive RunFault where
  | read (path : Path) (reason : FileFault)
  | create (path : Path) (reason : FileFault)
  | write (path : Path) (reason : FileFault)
  /-- The place to look for templates is no directory. -/
  | notDirectory (path : Path)
  /-- Some of the place to look for templates could not be looked into. -/
  | walk (fault : WalkFault)
  | readOptions (path : Path) (reason : FileFault)
  | options (fault : OptionsFault)
  | template (source : Source) (fault : TransformFault)

namespace RunFault

def onFile (kind : DiagnosticKind) (doing : String) (path : Path)
    (reason : FileFault) : Diagnostic :=
  { kind
    message :=
      doing ++ " '" ++ String.ofList path.text ++ "': " ++ reason.message
    cause := some reason.message }

def diagnostic : RunFault → Diagnostic
  | read path reason => onFile .io "failed to read" path reason
  | create path reason => onFile .io "failed to create" path reason
  | write path reason => onFile .io "failed to write" path reason
  | notDirectory path =>
    { kind := .io, message := "not a directory: " ++ String.ofList path.text }
  | walk fault =>
    { kind := .io
      message := "failed to walk directory: " ++ fault.message
      cause := some fault.message }
  | readOptions path reason =>
    onFile .config "failed to read config" path reason
  | options fault => fault.diagnostic
  | template source fault => fault.diagnostic source

end RunFault

/-- Transforms a template under a name, which the source map and the reports
have for it. -/
def transformNamed (o : Options) (name text : Text) : Except RunFault Output :=
  match transform { o with sourceName := name } text with
  | .ok output => .ok output
  | .error fault => .error (.template ⟨String.ofList name, text⟩ fault)

/-- The tree of a template, written out as it is printed. -/
def outlineNamed (name text : Text) : Except RunFault Text :=
  match Markup.parse text with
  | .ok tree => .ok (Markup.documentOutline tree).pretty
  | .error fault => .error (.template ⟨String.ofList name, text⟩ (.parse fault))

/-- What became of the templates of a directory.  Each of them is among the
written or among the failed. -/
structure BatchReport where
  written : List OutputPaths
  failed : List (Path × RunFault)

namespace BatchReport

def total (r : BatchReport) : Nat := r.written.length + r.failed.length

def succeeded (r : BatchReport) : Bool := r.failed.isEmpty

end BatchReport

section

variable {m : Type → Type} [Monad m] [Storage m]

def onFiles {α : Type} (fault : FileFault → RunFault)
    (action : m (Except FileFault α)) : ExceptT RunFault m α :=
  ExceptT.mk ((Except.mapError fault) <$> action)

def readTemplate (p : Path) : ExceptT RunFault m Text :=
  onFiles (.read p) (Storage.read p)

def readOptions (p : Path) : ExceptT RunFault m Options := do
  let text ← onFiles (.readOptions p) (Storage.read p)
  ExceptT.mk (pure ((Options.ofText text).mapError .options))

def writeText (p : Path) (text : Text) : ExceptT RunFault m Unit :=
  onFiles (.write p) (Storage.write p text)

/-- Writes the outputs of a template, after making the directory for the code.
The source map goes last. -/
def writeOutputs (output : Output) (paths : OutputPaths) :
    ExceptT RunFault m Unit := do
  match paths.code.parent? with
  | none => pure ()
  | some directory =>
    onFiles (.create directory) (Storage.makeDirectories directory.ancestors)
  writeText paths.code output.code
  writeText paths.map output.map.text

/-- Transforms a template and writes its outputs into a directory, or next to
it. -/
def transformFile (o : Options) (p : Path) (directory : Option Path) :
    ExceptT RunFault m OutputPaths := do
  let text ← readTemplate p
  let output ← ExceptT.mk (pure (transformNamed o p.displayName text))
  let paths := p.outputsIn (directory.getD (p.parent?.getD .empty))
  writeOutputs output paths
  return paths

/-- The templates among what a walk comes upon.  The first place that could not
be looked into ends the search. -/
def templatesAmong :
    List (Except WalkFault Found) → Except WalkFault (List Path)
  | [] => .ok []
  | .error fault :: _ => .error fault
  | .ok found :: rest => do
    let templates ← templatesAmong rest
    return if found.isFile && found.path.isTemplate then found.path :: templates
      else templates

/-- The templates below a directory, in the order of their paths, whatever order
the walk came upon them in. -/
def discover [Walker m] (root : Path) : ExceptT RunFault m (List Path) := do
  if ← (Storage.isDirectory root : m Bool) then
    let entries ← (Walker.walk root : m (List (Except WalkFault Found)))
    let templates ← ExceptT.mk (pure ((templatesAmong entries).mapError .walk))
    return sortBy Path.precedes templates
  else
    throw (.notDirectory root)

/-- The directory below `out` where the outputs of a template below `root`
go. -/
def targetDirectory (root out template : Path) : Path :=
  out.join ((template.parent?.bind (·.relativeTo? root)).getD .empty)

/-- Transforms templates one after the other.  One that fails is noted and does
not keep the others from their turn. -/
def transformEach (o : Options) (target : Path → Option Path) :
    List Path → m BatchReport
  | [] => pure ⟨[], []⟩
  | p :: rest => do
    let result ← (transformFile o p (target p)).run
    let report ← transformEach o target rest
    return match result with
      | .ok paths => { report with written := paths :: report.written }
      | .error fault => { report with failed := (p, fault) :: report.failed }

/-- **Transforms every template below a directory.**  The run as a whole fails
only if the templates cannot be found. -/
def transformDirectory [Walker m] (o : Options) (root : Path)
    (out : Option Path) : ExceptT RunFault m BatchReport := do
  let templates ← discover root
  (transformEach o (fun p => out.map (targetDirectory root · p)) templates :
    m BatchReport)

end

end TemplateJsx
