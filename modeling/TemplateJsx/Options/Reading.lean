import TemplateJsx.Diagnostic
import TemplateJsx.Options
import TemplateJsx.Text.Blank
import TemplateJsx.Text.Quoted
import TemplateJsx.Yaml.Value

/-!
# Options from a file

A settings file is a YAML mapping whose keys are the three settings, each at
most once; a text without content leaves everything as it is.  The settings are
taken in the order of the file, and the first fault in it is the one that is
reported; malformed text counts where the reading of it stopped.
-/

namespace TemplateJsx

open Yaml

inductive Setting where
  | sourceName
  | includeSourceContent
  | wrapFragment
  deriving DecidableEq, Repr

namespace Setting

def all : List Setting := [sourceName, includeSourceContent, wrapFragment]

def key : Setting → String
  | sourceName => "source_name"
  | includeSourceContent => "include_source_content"
  | wrapFragment => "wrap_fragment"

def ofKey? (t : Text) : Option Setting := all.find? (·.key.toList = t)

end Setting

/-- Why a settings file was refused: it is no document, it has an unknown or a
repeated key, or a value is of the wrong sort. -/
inductive OptionsFault where
  /-- The text is not YAML, or holds more than one document. -/
  | malformed
  /-- A key is none of the settings. -/
  | unknown (key : Text) (mark : Mark)
  /-- A setting is given twice, in the mapping that starts at the mark. -/
  | repeated (setting : Setting) (mark : Mark)
  /-- A node is not of the sort that is expected; `path` names the key it
  belongs to. -/
  | mismatch (path : Option Text) (content : Content) (expected : String)
      (mark : Mark)

namespace OptionsFault

/-- How messages name a value. -/
def describeValue : Value → Text
  | .nothing => "unit value".toList
  | .truth b =>
    "boolean \x60".toList ++ (if b then "true" else "false").toList ++ ['\x60']
  | .whole n =>
    let width :=
      if n < -(Nat.pow 2 63 : Nat) then " as i128"
      else if (Nat.pow 2 64 : Nat) ≤ n then " as u128" else ""
    "integer \x60".toList ++ (toString n).toList ++ ['\x60'] ++ width.toList
  | .fraction negative x =>
    "floating point \x60".toList ++ (if negative then ['-'] else []) ++
      x.shortest.positional ++ ['\x60']
  | .infinite negative =>
    "floating point \x60".toList ++
      (if negative then "-inf" else "inf").toList ++ ['\x60']
  | .notANumber => "floating point \x60NaN\x60".toList
  | .text t => "string ".toList ++ t.quoted

def describeMismatch (content : Content) (expected : String) : Text :=
  let sentence (found : Text) : Text :=
    "invalid type: ".toList ++ found ++ ", expected ".toList ++ expected.toList
  match content with
  | .sequence => sentence "sequence".toList
  | .mapping => sentence "map".toList
  | .scalar s =>
    match s.value? with
    | .ok v => sentence (describeValue v)
    | .error asked =>
      "invalid value: string ".toList ++ s.value.quoted ++
        ", expected ".toList ++ asked.toList

/-- Where a fault lies, counted from one; the very start of a text goes without
saying. -/
def location (m : Mark) : Text :=
  if m.line = 0 && m.column = 0 then []
  else (" at line " ++ toString (m.line + 1) ++ " column " ++
    toString (m.column + 1)).toList

/-- What is wrong with the settings, in one sentence that names the key and
where it stands. -/
def sentence : OptionsFault → Text
  | malformed => "malformed YAML".toList
  | unknown key mark =>
    "unknown field \x60".toList ++ key ++
      ("\x60, expected one of \x60source_name\x60, " ++
        "\x60include_source_content\x60, \x60wrap_fragment\x60").toList ++
      location mark
  | repeated setting mark =>
    "duplicate field \x60".toList ++ setting.key.toList ++ ['\x60'] ++
      location mark
  | mismatch path content expected mark =>
    (match path with
      | some key => key ++ [':', ' ']
      | none => []) ++ describeMismatch content expected ++ location mark

def diagnostic (f : OptionsFault) : Diagnostic :=
  let sentence := String.ofList f.sentence
  { kind := .config, message := "invalid transform options: " ++ sentence,
    cause := some sentence }

end OptionsFault

namespace Options

/-- The options with one setting taken from a node. -/
def set (o : Options) (setting : Setting) (path : Text) (n : Node) :
    Except OptionsFault Options :=
  let mismatch (expected : String) : Except OptionsFault Options :=
    .error (.mismatch (some path) n.content expected n.mark)
  match setting, n.content with
  | .sourceName, .scalar s => .ok { o with sourceName := s.value }
  | .sourceName, _ => mismatch "a string"
  | .includeSourceContent, .scalar s =>
    match s.truth? with
    | some b => .ok { o with includeSourceContent := b }
    | none => mismatch "a boolean"
  | .wrapFragment, .scalar s =>
    match s.truth? with
    | some b => .ok { o with wrapFragment := b }
    | none => mismatch "a boolean"
  | _, _ => mismatch "a boolean"

def settingOf (n : Node) : Except OptionsFault Setting :=
  match n.content with
  | .scalar s =>
    match Setting.ofKey? s.value with
    | some setting => .ok setting
    | none => .error (.unknown s.value n.mark)
  | content => .error (.mismatch none content "field identifier" n.mark)

/-- How messages name the key of a value; an alias has no name of its own. -/
def pathOf : Event Nat → Text
  | .node ⟨_, _, .scalar s⟩ => s.value
  | _ => ['?']

/-- The node that an event of a document stands for. -/
def nodeOf (d : Document) (event : Event Nat) : Except OptionsFault Node :=
  match d.resolve event with
  | some n => .ok n
  | none => .error .malformed

/-- What a document that was read to its end sets; one that was cut short sets
nothing. -/
def whenComplete (d : Document) (o : Options) : Except OptionsFault Options :=
  if d.complete then .ok o else .error .malformed

/-- Takes the settings of a mapping that starts at a mark, from its keys and
values in turn.  No value of a setting is a collection, so the first end of a
collection is the end of the mapping. -/
def takeEntries (d : Document) (start : Mark) :
    List (Event Nat) → (seen : List Setting) → Options →
      Except OptionsFault Options
  | [], _, _ => .error .malformed
  | .close :: _, _, o => whenComplete d o
  | key :: rest, seen, o => do
    let setting ← settingOf (← nodeOf d key)
    if seen.contains setting then throw (.repeated setting start)
    match rest with
    | [] => throw .malformed
    | value :: rest =>
      takeEntries d start rest (setting :: seen)
        (← o.set setting (pathOf key) (← nodeOf d value))

/-- The options that a document sets. -/
def ofDocument (d : Document) : Except OptionsFault Options :=
  match d.events.toList with
  | .node ⟨mark, _, content⟩ :: rest =>
    match content with
    | .mapping => takeEntries d mark rest [] standard
    | .scalar ⟨_, .plain, []⟩ => whenComplete d standard
    | _ => .error (.mismatch none content "struct TransformOptions" mark)
  | _ => whenComplete d standard

/-- The options that a text sets.  Whatever it does not mention stays as it is
by default. -/
def ofText (t : Text) : Except OptionsFault Options :=
  if t.trim.isEmpty then .ok standard else ofDocument (Document.ofText t)

end Options

end TemplateJsx
