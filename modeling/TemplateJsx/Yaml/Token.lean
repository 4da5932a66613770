import TemplateJsx.Yaml.Scalar

/-!
# Tokens of a YAML text

The text is cut into tokens one at a time.  Indentation becomes tokens of its
own: a block opens where a line is indented further than the block around it and
closes where a line is indented less.  A word is known to be a key only when the
colon after it is met, so a token that may still be a key is held back until the
question is settled, and the tokens that open the key are then put in front of
it.

A step answers nothing where the text is malformed.
-/

namespace TemplateJsx.Yaml

/-- What a token stands for: a directive, an edge of a document or block, an
indicator, or the content of a node. -/
inductive TokenKind where
  | version (major minor : Nat)
  /-- A declared shorthand for the start of tags. -/
  | tagDirective (handle expansion : Text)
  | documentStart
  | documentEnd
  | streamEnd
  | blockSequenceStart
  | blockMappingStart
  | blockEnd
  | flowSequenceStart
  | flowSequenceEnd
  | flowMappingStart
  | flowMappingEnd
  | flowEntry
  | blockEntry
  | key
  | value
  | alias (name : Text)
  | anchor (name : Text)
  | tag (handle suffix : Text)
  | scalar (style : Style) (value : Text)
  deriving DecidableEq, Repr

/-- A token with the marks around it. -/
structure Token where
  kind : TokenKind
  start : Mark
  stop : Mark
  deriving DecidableEq, Repr

/-- A token that may turn out to be a key. -/
structure PendingKey where
  /-- Nothing but a key may stand there. -/
  required : Bool
  /-- The number of the token, counted from the start of the text. -/
  number : Nat
  mark : Mark

/-- A key fits into one line and into 1024 bytes. -/
def PendingKey.expired (k : PendingKey) (now : Mark) : Bool :=
  k.mark.line < now.line || k.mark.index + 1024 < now.index

/-- The text as far as it has been cut, with the tokens not taken yet, the
brackets and blocks that are open, and what may turn out to be a key. -/
structure TokenStream where
  /-- The length of the whole text, which bounds the steps of every loop over
  what is left of it. -/
  size : Nat
  place : Place
  queue : List Token
  /-- How many tokens have been taken. -/
  taken : Nat
  /-- The pending key of the innermost level. -/
  pending : Option PendingKey
  /-- The pending keys of the levels around it, one for each open bracket. -/
  outer : List (Option PendingKey)
  /-- The indentation of the innermost block; outside all blocks, one less than
  zero. -/
  indent : Int
  /-- The indentations of the blocks around it. -/
  indents : List Int
  /-- Whether a key may start at the next token. -/
  keyAllowed : Bool
  /-- Whether the text ends where it can no longer be read, and not by
  itself. -/
  torn : Bool

namespace TokenStream

/-- The stream at the start of a text, which may not be the whole one. -/
def ofText (t : Text) (whole : Bool) : TokenStream :=
  { size := t.length, place := ⟨Mark.start, t⟩, queue := [], taken := 0,
    pending := none, outer := [], indent := -1, indents := [],
    keyAllowed := true, torn := !whole }

def inFlow (s : TokenStream) : Bool := !s.outer.isEmpty

def push (s : TokenStream) (token : Token) : TokenStream :=
  { s with queue := s.queue ++ [token] }

def pushHere (s : TokenStream) (kind : TokenKind) : TokenStream :=
  s.push ⟨kind, s.place.mark, s.place.mark⟩

/-- A token is put in front of the one with a given number. -/
def insert (s : TokenStream) (number : Nat) (token : Token) : TokenStream :=
  { s with
    queue := s.queue.take (number - s.taken) ++
      token :: s.queue.drop (number - s.taken) }

/-- A token of a number of characters is cut off. -/
def cut (s : TokenStream) (kind : TokenKind) (width : Nat) : TokenStream :=
  let after := s.place.skip width
  { s with
    place := after, queue := s.queue ++ [⟨kind, s.place.mark, after.mark⟩] }

/-- A token that ends at a given place is cut off. -/
def cutTo (s : TokenStream) (kind : TokenKind) (after : Place) : TokenStream :=
  { s with
    place := after, queue := s.queue ++ [⟨kind, s.place.mark, after.mark⟩] }

/-- Past blanks, comments and line breaks.  Outside brackets a new line may
start with a key, and a tab may not stand where a key may start. -/
def skipGap : (fuel : Nat) → TokenStream → TokenStream
  | 0, s => s
  | fuel + 1, s =>
    let p :=
      if s.place.mark.column = 0 && s.place.startsWith '\uFEFF' then
        s.place.next else s.place
    let p :=
      p.dropWhile fun c =>
        c == ' ' || ((s.inFlow || !s.keyAllowed) && c == '\t')
    let p := if p.startsWith '#' then p.dropWhile fun c => !isBreak c else p
    if p.head?.any isBreak then
      skipGap fuel { s with
        place := p.next, keyAllowed := s.keyAllowed || !s.inFlow }
    else
      { s with place := p }

/-- The pending keys of all levels, the innermost first. -/
def keys (s : TokenStream) : List (Option PendingKey) := s.pending :: s.outer

/-- The pending keys of all levels are looked through again.  Those that can no
longer be a key are forgotten, unless nothing else may stand there. -/
def refreshKeys (s : TokenStream) : Option TokenStream :=
  let expired (k : PendingKey) : Bool := k.expired s.place.mark
  if s.keys.any (·.any expired) then
    if s.keys.any (·.any fun k => expired k && k.required) then none
    else some { s with
      pending := s.pending.filter (!expired ·),
      outer := s.outer.map (·.filter (!expired ·)) }
  else some s

/-- The pending key of the innermost level is given up. -/
def dropKey (s : TokenStream) : Option TokenStream :=
  if s.pending.any PendingKey.required then none
  else some { s with pending := none }

/-- The next token is noted as a possible key, if one may start there. -/
def noteKey (s : TokenStream) : Option TokenStream :=
  if s.keyAllowed then
    let key : PendingKey :=
      { required := !s.inFlow && s.indent == s.place.mark.column
        number := s.taken + s.queue.length
        mark := s.place.mark }
    s.dropKey.map fun s => { s with pending := some key }
  else some s

/-- The token that opens a block at a column, if the column is further in than
the block around it. -/
def openBlock (s : TokenStream) (column : Nat)
    (add : TokenStream → TokenStream) : TokenStream :=
  if !s.inFlow && s.indent < column then
    add { s with indent := column, indents := s.indent :: s.indents }
  else s

/-- Blocks that are further in than a column end. -/
def closeBlocks (column : Int) :
    (indents : List Int) → TokenStream → TokenStream
  | [], s => s
  | outer :: rest, s =>
    if !s.inFlow && column < s.indent then
      closeBlocks column rest { s.pushHere .blockEnd with
        indent := outer, indents := rest }
    else s

def closeAll (s : TokenStream) : Option TokenStream :=
  (closeBlocks (-1) s.indents s).dropKey.map fun s =>
    { s with keyAllowed := false }

def finish (s : TokenStream) : Option TokenStream := do
  let m := s.place.mark
  let stop : Mark :=
    if m.column = 0 then m else { m with line := m.line + 1, column := 0 }
  let s ← { s with place := { s.place with mark := stop } }.closeAll
  return s.pushHere .streamEnd

def openFlow (s : TokenStream) (kind : TokenKind) : Option TokenStream := do
  let s ← s.noteKey
  return { s with
    pending := none, outer := s.pending :: s.outer,
    keyAllowed := true }.cut kind 1

def closeFlow (s : TokenStream) (kind : TokenKind) : Option TokenStream := do
  let s ← s.dropKey
  let s := match s.outer with
    | [] => s
    | k :: rest => { s with pending := k, outer := rest }
  return { s with keyAllowed := false }.cut kind 1

def entry (s : TokenStream) : Option TokenStream :=
  s.dropKey.map fun s => { s with keyAllowed := true }.cut .flowEntry 1

def item (s : TokenStream) : Option TokenStream := do
  if !s.inFlow && !s.keyAllowed then none
  let s := s.openBlock s.place.mark.column (·.pushHere .blockSequenceStart)
  let s ← s.dropKey
  return { s with keyAllowed := true }.cut .blockEntry 1

def explicitKey (s : TokenStream) : Option TokenStream := do
  if !s.inFlow && !s.keyAllowed then none
  let s := s.openBlock s.place.mark.column (·.pushHere .blockMappingStart)
  let s ← s.dropKey
  return { s with keyAllowed := !s.inFlow }.cut .key 1

/-- The colon in front of a value.  A pending key becomes a key now. -/
def colon (s : TokenStream) : Option TokenStream :=
  match s.pending with
  | some k =>
    let s := s.insert k.number ⟨.key, k.mark, k.mark⟩
    let s :=
      s.openBlock k.mark.column (·.insert k.number
        ⟨.blockMappingStart, k.mark, k.mark⟩)
    some ({ s with pending := none, keyAllowed := false }.cut .value 1)
  | none =>
    if !s.inFlow && !s.keyAllowed then none
    else
      let s := s.openBlock s.place.mark.column (·.pushHere .blockMappingStart)
      some ({ s with keyAllowed := !s.inFlow }.cut .value 1)

/-- A name after its indicator, which something that is no part of a name has to
follow. -/
def name (s : TokenStream) (kind : Text → TokenKind) : Option TokenStream := do
  let s ← s.noteKey
  let (word, p) := s.place.next.takeWhile isNameChar
  let ended :=
    p.endsWordAt 0 || p.head?.any ("?:,]\x7d%@\x60".toList.contains ·)
  if word.isEmpty || !ended then none
  return { s with keyAllowed := false }.cutTo (kind word) p

/-- The characters of a tag; some only between angle brackets. -/
def isTagChar (verbatim : Bool) (c : Char) : Bool :=
  isNameChar c || ";/?:@&=+$.%!~*'()".toList.contains c ||
    (verbatim && ",[]".toList.contains c)

def octet? : Text → Option (Nat × Text)
  | '%' :: a :: b :: t => do
    let a ← hexValue? a
    let b ← hexValue? b
    return (16 * a + b, t)
  | _ => none

def furtherOctets : Nat → Text → Option (Text × Text)
  | 0, t => some ([], t)
  | k + 1, t => do
    let (o, t) ← octet? t
    if o / 64 ≠ 2 then none
    let (octets, t) ← furtherOctets k t
    return (Char.ofNat o :: octets, t)

/-- The octets of an escaped character, of which the first tells how many there
are.  An octet stands for itself in a tag, so characters that are spelled with
different octets stay apart. -/
def escapedOctets? (t : Text) : Option (Text × Text) := do
  let (o, t) ← octet? t
  let further ←
    if o < 128 then some 0
    else if o / 32 = 6 then some 1
    else if o / 16 = 14 then some 2
    else if o / 8 = 30 then some 3
    else none
  let (octets, t) ← furtherOctets further t
  return (Char.ofNat o :: octets, t)

def unescapeTag : (fuel : Nat) → Text → Option Text
  | 0, _ => some []
  | _, [] => some []
  | fuel + 1, c :: t =>
    if c == '%' then do
      let (octets, t) ← escapedOctets? (c :: t)
      return octets ++ (← unescapeTag fuel t)
    else (unescapeTag fuel t).map (c :: ·)

/-- The rest of a tag and the place after it.  A zero octet ends the tag,
whatever is written after it. -/
def tagRest (verbatim : Bool) (p : Place) : Option (Text × Place) := do
  let (raw, p) := p.takeWhile (isTagChar verbatim)
  let octets ← unescapeTag raw.length raw
  return (octets.takeWhile (· != '\x00'), p)

/-- The rest of a tag, for which something has to be written. -/
def tagRest? (verbatim : Bool) (p : Place) : Option (Text × Place) :=
  if p.head?.any (isTagChar verbatim) then tagRest verbatim p else none

/-- A handle: an exclamation mark, perhaps a name and another exclamation
mark. -/
def tagHandle? (p : Place) : Option (Text × Place) :=
  if p.startsWith '!' then
    let (word, after) := p.next.takeWhile isNameChar
    if after.startsWith '!' then some ('!' :: word ++ ['!'], after.next)
    else some ('!' :: word, after)
  else none

/-- The handle and the suffix of a tag, and the place after it. -/
def tagParts? (p : Place) : Option (Text × Text × Place) :=
  if p.rest[1]? == some '<' then do
    let (suffix, after) ← tagRest? true (p.skip 2)
    if !after.startsWith '>' then none
    return ([], suffix, after.next)
  else do
    let (handle, after) ← tagHandle? p
    if handle.length ≠ 1 && handle.getLast? == some '!' then
      let (suffix, after) ← tagRest? false after
      return (handle, suffix, after)
    else
      let (rest, after) ← tagRest false after
      let suffix := handle.drop 1 ++ rest
      return if suffix.isEmpty then ([], ['!'], after)
        else (['!'], suffix, after)

def tag (s : TokenStream) : Option TokenStream := do
  let s ← s.noteKey
  let (handle, suffix, p) ← tagParts? s.place
  if !(s.inFlow && p.startsWith ',') && !p.endsWordAt 0 then none
  return { s with keyAllowed := false }.cutTo (.tag handle suffix) p

/-- Up to nine digits of a version. -/
def versionNumber? (p : Place) : Option (Nat × Place) :=
  let (digits, after) := p.takeWhile Char.isDigit
  if digits.isEmpty || 9 < digits.length then none
  else some (digits.foldl (fun n c => 10 * n + (c.toNat - 48)) 0, after)

def directiveBody? (name : Text) (p : Place) : Option (TokenKind × Place) :=
  if name = "YAML".toList then do
    let (major, p) ← versionNumber? (p.dropWhile isBlank)
    if !p.startsWith '.' then none
    let (minor, p) ← versionNumber? p.next
    return (.version major minor, p)
  else if name = "TAG".toList then do
    let (handle, p) ← tagHandle? (p.dropWhile isBlank)
    if handle.length ≠ 1 && handle.getLast? != some '!' then none
    if !p.head?.any isBlank then none
    let (expansion, p) ← tagRest? true (p.dropWhile isBlank)
    if !p.endsWordAt 0 then none
    return (.tagDirective handle expansion, p)
  else none

/-- A directive takes a line of its own. -/
def directive (s : TokenStream) : Option TokenStream := do
  let s ← s.closeAll
  let (name, p) := s.place.next.takeWhile isNameChar
  if name.isEmpty || !p.endsWordAt 0 then none
  let (kind, p) ← directiveBody? name p
  let s := s.cutTo kind p
  let p := p.dropWhile isBlank
  let p := if p.startsWith '#' then p.dropWhile fun c => !isBreak c else p
  if p.atLineEnd then some { s with place := p.next } else none

def plain (s : TokenStream) : Option TokenStream := do
  let s ← s.noteKey
  let (value, broke, p) ←
    scanPlain s.inFlow (s.indent + 1).toNat (s.size + 1) Gap.none s.place
  return { s with keyAllowed := broke }.cutTo (.scalar .plain value) p

def quoted (s : TokenStream) (quote : Char) (style : Style) :
    Option TokenStream := do
  let s ← s.noteKey
  let (value, p) ← scanQuoted quote (s.size + 2) s.place.next
  return { s with keyAllowed := false }.cutTo (.scalar style value) p

def block (s : TokenStream) (folded : Bool) : Option TokenStream := do
  let s ← s.dropKey
  let (value, p) ← scanBlock folded s.indent (s.size + 1) s.place.next
  return { s with keyAllowed := true }.cutTo
    (.scalar (if folded then .folded else .literal) value) p

def startsPlain (s : TokenStream) (c : Char) : Bool :=
  let next := s.place.rest[1]?
  !(isBlank c || "-?:,[]\x7b\x7d#&*!|>'\"%@\x60".toList.contains c) ||
    (c == '-' && !next.any isBlank) ||
    (!s.inFlow && (c == '?' || c == ':') && !s.place.endsWordAt 1)

/-- Cuts off what the next character starts. -/
def cutNext (s : TokenStream) (c : Char) : Option TokenStream :=
  let p := s.place
  if p.mark.column = 0 && c == '%' then s.directive
  else if p.atDivider '-' then s.closeAll.map (·.cut .documentStart 3)
  else if p.atDivider '.' then s.closeAll.map (·.cut .documentEnd 3)
  else if c == '[' then s.openFlow .flowSequenceStart
  else if c == '{' then s.openFlow .flowMappingStart
  else if c == ']' then s.closeFlow .flowSequenceEnd
  else if c == '}' then s.closeFlow .flowMappingEnd
  else if c == ',' then s.entry
  else if c == '-' && p.endsWordAt 1 then s.item
  else if c == '?' && (s.inFlow || p.endsWordAt 1) then s.explicitKey
  else if c == ':' && (s.inFlow || p.endsWordAt 1) then s.colon
  else if c == '*' then s.name .alias
  else if c == '&' then s.name .anchor
  else if c == '!' then s.tag
  else if c == '|' && !s.inFlow then s.block false
  else if c == '>' && !s.inFlow then s.block true
  else if c == '\'' then s.quoted '\'' .singleQuoted
  else if c == '"' then s.quoted '"' .doubleQuoted
  else if s.startsPlain c then s.plain
  else none

/-- Fewer characters are left than a step has to see, and the text does not end
there. -/
def breaksOff (s : TokenStream) (needed : Nat) : Bool :=
  s.torn && (s.place.rest.take needed).length < needed

/-- Cuts off the next token, with the block tokens that its indentation calls
for.  A token is recognised by its first four characters at most, and its end by
the character after it. -/
def advance (s : TokenStream) : Option TokenStream := do
  let s ← (s.skipGap (s.size + 1)).refreshKeys
  let s := closeBlocks s.place.mark.column s.indents s
  if s.breaksOff 4 then none
  let s ← match s.place.rest with
    | [] => s.finish
    | c :: _ => s.cutNext c
  if s.breaksOff 1 then none
  return s

/-- The token at the head of the queue may still turn out to be a key. -/
def undecided (s : TokenStream) : Bool :=
  s.keys.any (·.any (·.number == s.taken))

/-- Cuts until the next token is settled, and shows it.  A token that may be a
key is settled when its colon comes or can no longer come. -/
def settle : (fuel : Nat) → TokenStream → Option (Token × TokenStream)
  | 0, _ => none
  | fuel + 1, s =>
    match s.queue with
    | [] => s.advance.bind (settle fuel)
    | token :: _ => do
      let s ← s.refreshKeys
      if s.undecided then s.advance.bind (settle fuel) else return (token, s)

/-- The next token, which stays in the stream. -/
def peek (s : TokenStream) : Option (Token × TokenStream) :=
  s.settle (s.size + 3)

def drop (s : TokenStream) : TokenStream :=
  { s with queue := s.queue.tail, taken := s.taken + 1 }

end TokenStream

end TemplateJsx.Yaml
