import TemplateJsx.CommandLine.Outcome

/-!
# The command-line program

The files of the machine as a storage, and the program that runs the command
line on them.
-/

namespace TemplateJsx.Main

/-- The reason for a failure of the system.  Some operations give the number of
it negated. -/
def faultOf : IO.Error → FileFault
  | .noFileOrDirectory .. | .noSuchThing .. => .notFound
  | .alreadyExists .. => .exists
  | .inappropriateType _ code _ =>
    if code = 21 || code = 0 - 21 then .isDirectory else .notDirectory
  | e@(.invalidArgument _ code _) =>
    if code = 36 || code = 0 - 36 then .tooLong else .other (toString e)
  | e => .other (toString e)

/-- Runs an operation of the system, whose failure becomes a fault of ours. -/
def attempt {α : Type} (action : IO α) : IO (Except FileFault α) := do
  try
    return .ok (← action)
  catch e =>
    return .error (faultOf e)

def written (p : Path) : String := String.ofList p.text

/-- What a walk comes upon below a directory; links are not followed. -/
partial def walkBelow (p : Path) : IO (List (Except WalkFault Found)) := do
  let here ← IO.currentDir
  match ← attempt (here / written p).readDir with
  | .error reason => return [.error ⟨p, reason⟩]
  | .ok entries =>
    let mut found := []
    for entry in entries do
      let inner := p.child entry.fileName.toList
      match ← attempt (here / written inner).symlinkMetadata with
      | .error reason => found := found ++ [.error ⟨inner, reason⟩]
      | .ok data =>
        found := found ++ [.ok ⟨inner, data.type == .file⟩]
        if data.type == .dir then
          found := found ++ (← walkBelow inner)
    return found

instance : Storage IO where
  read p := do
    match ← attempt (IO.FS.readBinFile (written p)) with
    | .error fault => return .error fault
    | .ok bytes =>
      match String.fromUTF8? bytes with
      | some text => return .ok text.toList
      | none => return .error .notText
  isDirectory p := do
    if p.isEmpty then
      return false
    return ← ((← IO.currentDir) / written p).isDir
  makeDirectory p := attempt (IO.FS.createDir (written p))
  write p text := attempt (IO.FS.writeFile (written p) (String.ofList text))

instance : Walker IO where
  walk := walkBelow

end TemplateJsx.Main

open TemplateJsx in
/-- Prints what a run of the command line comes to, and ends with its status. -/
def main (arguments : List String) : IO UInt32 := do
  let outcome ← (runArguments (arguments.map String.toList) : IO CommandOutcome)
  IO.print (String.ofList outcome.printed)
  for report in outcome.reports do
    IO.eprintln report.display
  if outcome.status = 2 then
    IO.eprint (String.ofList usage)
  return outcome.status.toUInt32
