import TemplateJsx.CommandLine.Arguments
import TemplateJsx.Files.Run
import TemplateJsx.LineDiff

/-!
# What a command does

A command prints to the standard output, reports faults and ends with a status:
zero when all went well, one when something failed, two when the arguments make
no request.
-/

namespace TemplateJsx

/-- What a run of the command line comes to: its exit status, what it prints,
and what it reports. -/
structure CommandOutcome where
  status : Nat
  printed : Text
  reports : List Diagnostic

namespace CommandOutcome

def success (printed : Text) : CommandOutcome := ⟨0, printed, []⟩

def failure (fault : RunFault) : CommandOutcome := ⟨1, [], [fault.diagnostic]⟩

def refused : CommandOutcome := ⟨2, [], []⟩

end CommandOutcome

namespace BatchReport

/-- The lines on a batch: what was written, what failed, and the totals. -/
def summary (r : BatchReport) : Text :=
  (r.written.flatMap fun paths => "✓ ".toList ++ paths.code.text ++ ['\n']) ++
    (r.failed.flatMap fun (path, _) => "✗ ".toList ++ path.text ++ ['\n']) ++
    ("\n" ++ toString r.total ++ " template(s): " ++
      toString r.written.length ++ " written, " ++
      toString r.failed.length ++ " failed\n").toList

/-- The outcome of a batch.  It fails as soon as one template did, though the
others were written. -/
def outcome (r : BatchReport) : CommandOutcome :=
  ⟨if r.succeeded then 0 else 1, r.summary, r.failed.map fun (_, fault) =>
    fault.diagnostic⟩

end BatchReport

def versionLine : Text := "htmlx2jsx 0.1.0\n".toList

def usage : Text :=
  ("Usage: htmlx2jsx <COMMAND>\n\nCommands:\n" ++
    "  transform <FILE> [-o <OUT>] [--map <MAP>]  Transform one template\n" ++
    "  ast <FILE>                                 " ++
    "Print the syntax tree as JSON\n" ++
    "  diff <FILE>                                " ++
    "Show what changes, line by line\n" ++
    "  batch [DIR] [--out-dir <OUT_DIR>]          " ++
    "Transform every template under a directory\n\n" ++
    "Options of transform, diff and batch:\n" ++
    "  -c, --config <CONFIG>    YAML file with options\n" ++
    "      --no-wrap            Do not wrap the code into a fragment\n" ++
    "      --no-sources-content " ++
    "Leave the template out of the source map\n").toList

section

variable {m : Type → Type} [Monad m] [Storage m]

/-- The options of a command: those of the options file, with the settings of
the command line on top. -/
def Settings.options (s : Settings) : ExceptT RunFault m Options := do
  let o ← match s.config with
    | some path => readOptions path
    | none => pure Options.standard
  return { o with
    wrapFragment := o.wrapFragment && !s.noWrap
    includeSourceContent := o.includeSourceContent && !s.noSourcesContent }

namespace Command

/-- Reads a template and transforms it under the name of its file. -/
def load (file : Path) (settings : Settings) :
    ExceptT RunFault m (Text × Output) := do
  let o ← settings.options
  let text ← readTemplate file
  let output ← ExceptT.mk (pure (transformNamed o file.displayName text))
  return (text, output)

/-- Prints the code and then writes the source map, if that is asked for. -/
def printOutput (output : Output) (map : Option Path) : m CommandOutcome := do
  let printed := output.code ++ ['\n']
  match map with
  | none => return .success printed
  | some path =>
    match ← (writeText path output.map.text : ExceptT RunFault m Unit).run with
    | .ok () => return .success printed
    | .error fault => return { CommandOutcome.failure fault with printed }

/-- Carries out a command.  Whatever a step reports as a fault becomes the
outcome of the whole. -/
def perform [Walker m] : Command → ExceptT RunFault m CommandOutcome
  | transform file out map settings => do
    let (_, output) ← load file settings
    match out with
    | some code =>
      writeOutputs output ⟨code, map.getD (code.extend ".map".toList)⟩
      return .success []
    | none => (printOutput output map : m CommandOutcome)
  | ast file => do
    let text ← readTemplate file
    let outline ← ExceptT.mk (pure (outlineNamed file.displayName text))
    return .success (outline ++ ['\n'])
  | diff file settings => do
    let (text, output) ← load file settings
    return .success (LineDiff.print text output.code)
  | batch directory out settings => do
    let o ← settings.options
    let report ← transformDirectory o directory out
    return report.outcome

end Command

/-- **Runs the command line**: finds out what the arguments ask for, and does
it. -/
def runArguments [Walker m] (arguments : List Text) : m CommandOutcome :=
  match Request.ofArguments? arguments with
  | none => pure .refused
  | some .help => pure (.success usage)
  | some .version => pure (.success versionLine)
  | some (.command c) => do
    match ← c.perform.run with
    | .ok outcome => return outcome
    | .error fault => return .failure fault

end

end TemplateJsx
