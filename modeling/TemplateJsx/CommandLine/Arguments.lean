import TemplateJsx.Files.Path

/-!
# Arguments of the command line

A command is a verb followed by options and at most one path.  A long option
takes its value from the next argument or after an equals sign, a short one also
directly; no option is given twice, and two dashes end the options.  Arguments
that are no request of this form are refused as a whole.
-/

namespace TemplateJsx

/-- What a command does: one template transformed, its tree or its changes
shown, or a whole directory transformed. -/
inductive Verb where
  | transform
  | ast
  | diff
  | batch
  deriving DecidableEq, Repr

/-- An option of a command.  Which of them a command takes is up to its verb. -/
inductive Flag where
  | out
  | map
  | outDir
  | config
  | noWrap
  | noSourcesContent
  deriving DecidableEq, Repr

namespace Verb

def all : List Verb := [transform, ast, diff, batch]

def name : Verb → String
  | transform => "transform"
  | ast => "ast"
  | diff => "diff"
  | batch => "batch"

def ofName? (word : Text) : Option Verb := all.find? (·.name.toList = word)

def flags : Verb → List Flag
  | transform => [.out, .map, .config, .noWrap, .noSourcesContent]
  | ast => []
  | diff => [.config, .noWrap, .noSourcesContent]
  | batch => [.outDir, .config, .noWrap, .noSourcesContent]

end Verb

namespace Flag

def long : Flag → String
  | out => "out"
  | map => "map"
  | outDir => "out-dir"
  | config => "config"
  | noWrap => "no-wrap"
  | noSourcesContent => "no-sources-content"

def short? : Flag → Option Char
  | out => some 'o'
  | config => some 'c'
  | _ => none

def takesPath : Flag → Bool
  | noWrap | noSourcesContent => false
  | _ => true

end Flag

/-- The options and the path of a command; an option that takes no path has an
empty one. -/
structure Given where
  flags : List (Flag × Text)
  path : Option Text

namespace Given

def nothing : Given := ⟨[], none⟩

def has (g : Given) (flag : Flag) : Bool := (g.flags.lookup flag).isSome

/-- One more option, which may not be given before; a path of no characters is
refused. -/
def addFlag (g : Given) (flag : Flag) (value : Text) : Option Given :=
  if g.has flag || (flag.takesPath && value.isEmpty) then none
  else some { g with flags := g.flags ++ [(flag, value)] }

/-- A path of at least one character, and there is at most one. -/
def addPath (g : Given) (word : Text) : Option Given :=
  if g.path.isSome || word.isEmpty then none
  else some { g with path := some word }

def addPaths (g : Given) (words : List Text) : Option Given :=
  words.foldlM addPath g

def pathOf (g : Given) (flag : Flag) : Option Path :=
  (g.flags.lookup flag).map Path.ofText

end Given

/-- A single argument, by the way it is written and before anything is known of
the verb. -/
inductive Argument where
  /-- Two dashes. -/
  | divider
  /-- A long option, perhaps with a value after an equals sign. -/
  | long (name : Text) (value : Option Text)
  /-- A short option, perhaps with a value attached. -/
  | short (letter : Char) (value : Option Text)
  | word (text : Text)
  deriving DecidableEq, Repr

namespace Argument

/-- What an argument is by the way it is written. -/
def ofText : Text → Argument
  | ['-', '-'] => .divider
  | '-' :: '-' :: t =>
    match t.span (· ≠ '=') with
    | (name, _ :: value) => .long name (some value)
    | (name, []) => .long name none
  | '-' :: letter :: t =>
    match t with
    | [] => .short letter none
    | '=' :: value => .short letter (some value)
    | value => .short letter (some value)
  | t => .word t

end Argument

/-- What the arguments of a verb ask for: help, or the command with what was
given. -/
inductive Gathered where
  | help
  | given (g : Given)

/-- Takes the value of an option from the next argument, which has to be a
word. -/
def nextValue : List Text → Option (Text × List Text)
  | [] => none
  | t :: rest =>
    match Argument.ofText t with
    | .word value => some (value, rest)
    | _ => none

/-- Gathers the arguments of a verb, from left to right.  The first one that
does not fit ends the reading, as does a call for help. -/
def gather (verb : Verb) : (fuel : Nat) → List Text → Given → Option Gathered
  | 0, _, g => some (.given g)
  | _, [], g => some (.given g)
  | fuel + 1, t :: rest, g =>
    let option (flag : Flag) (value : Option Text) : Option Gathered :=
      match flag.takesPath, value with
      | true, some value => (g.addFlag flag value).bind (gather verb fuel rest)
      | true, none =>
        (nextValue rest).bind fun (value, rest) =>
          (g.addFlag flag value).bind (gather verb fuel rest)
      | false, none => (g.addFlag flag []).bind (gather verb fuel rest)
      | false, some _ => none
    match Argument.ofText t with
    | .divider => (g.addPaths rest).map .given
    | .word word => (g.addPath word).bind (gather verb fuel rest)
    | .long name value =>
      if name = "help".toList then (if value.isNone then some .help else none)
      else (verb.flags.find? (·.long.toList = name)).bind (option · value)
    | .short letter value =>
      if letter = 'h' then some .help
      else (verb.flags.find? (·.short? = some letter)).bind (option · value)

/-- The settings that the command line takes over the options file. -/
structure Settings where
  /-- The options file. -/
  config : Option Path
  noWrap : Bool
  noSourcesContent : Bool
  deriving DecidableEq, Repr

/-- A command with its paths and settings, complete enough to be carried out. -/
inductive Command where
  | transform (file : Path) (out map : Option Path) (settings : Settings)
  | ast (file : Path)
  | diff (file : Path) (settings : Settings)
  | batch (directory : Path) (out : Option Path) (settings : Settings)
  deriving DecidableEq, Repr

def Given.settings (g : Given) : Settings :=
  ⟨g.pathOf .config, g.has .noWrap, g.has .noSourcesContent⟩

/-- The command of a verb; only a directory may be left out, and is then the
working directory. -/
def Given.command? (g : Given) (verb : Verb) : Option Command :=
  match verb, g.path.map Path.ofText with
  | .transform, some file =>
    some (.transform file (g.pathOf .out) (g.pathOf .map) g.settings)
  | .ast, some file => some (.ast file)
  | .diff, some file => some (.diff file g.settings)
  | .batch, directory =>
    some (.batch (directory.getD (.ofText ['.'])) (g.pathOf .outDir) g.settings)
  | _, none => none

/-- What the command line asks for: the version, help, or a command. -/
inductive Request where
  | help
  | version
  | command (c : Command)

namespace Request

def isHelpTopic : List Text → Bool
  | [] => true
  | [word] => word = "help".toList || (Verb.ofName? word).isSome
  | _ => false

/-- The request that the arguments make.  There is none if they do not fit
together. -/
def ofArguments? : List Text → Option Request
  | [] => none
  | first :: rest =>
    match Argument.ofText first with
    | .long name none =>
      if name = "version".toList then some .version
      else if name = "help".toList then some .help else none
    | .short letter _ =>
      if letter = 'V' then some .version
      else if letter = 'h' then some .help else none
    | .word word =>
      if word = "help".toList then
        (if isHelpTopic rest then some .help else none)
      else do
        let verb ← Verb.ofName? word
        match ← gather verb (rest.length + 1) rest .nothing with
        | .help => return .help
        | .given g => return .command (← g.command? verb)
    | _ => none

end Request

end TemplateJsx
