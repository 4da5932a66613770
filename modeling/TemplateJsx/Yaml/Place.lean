import TemplateJsx.Text.Basic

/-!
# Places in a YAML text

Only the part of a text in front of the first block with a forbidden character
can be read.  Reading starts from that part with every line break as a single
character: the pair of carriage return and line feed, either of them alone and
the next-line character all count as a line feed, while the line and paragraph
separators stay what they are.  A place holds what is left of the text and the
mark reached.
-/

namespace TemplateJsx.Yaml

/-- How far reading has come, in bytes, lines and characters of the line. -/
structure Mark where
  /-- Bytes from the start of the text. -/
  index : Nat
  line : Nat
  /-- Characters from the start of the line. -/
  column : Nat
  deriving DecidableEq, Repr

def isBreak (c : Char) : Bool := c == '\n' || c == '\u2028' || c == '\u2029'

def isBlank (c : Char) : Bool := c == ' ' || c == '\t'

def isNameChar (c : Char) : Bool := c.isAlphanum || c == '_' || c == '-'

/-- The characters that may occur in a YAML text at all. -/
def isAllowed (c : Char) : Bool :=
  let n := c.toNat
  n == 0x09 || n == 0x0A || n == 0x0D || (0x20 ≤ n && n ≤ 0x7E) || n == 0x85 ||
    (0xA0 ≤ n && n ≤ 0xD7FF) || (0xE000 ≤ n && n ≤ 0xFFFD) || 0x10000 ≤ n

/-- As many whole characters as fit into a number of bytes, and the rest. -/
def splitBlock : (room : Nat) → Text → Text × Text
  | _, [] => ([], [])
  | room, c :: t =>
    if room < c.utf8Size then ([], c :: t)
    else
      let (block, rest) := splitBlock (room - c.utf8Size) t
      (c :: block, rest)

/-- The bytes that are looked over at once. -/
def blockSize : Nat := 16384

/-- The part of a text that can be read, and whether that is all of it.  The
text is looked over block by block, and a block with a character that may not
occur is not read at all. -/
def readable (t : Text) : Text × Bool := go t.length t
where
  /-- Looks over at most `fuel` blocks. -/
  go : (fuel : Nat) → Text → Text × Bool
    | _, [] => ([], true)
    | 0, _ => ([], false)
    | fuel + 1, t =>
      let (block, rest) := splitBlock blockSize t
      if block.all isAllowed then
        let (more, whole) := go fuel rest
        (block ++ more, whole)
      else ([], false)

/-- The text with single characters for line breaks. -/
def normalize : Text → Text
  | [] => []
  | '\r' :: '\n' :: t => '\n' :: normalize t
  | c :: t => (if c == '\r' || c == '\u0085' then '\n' else c) :: normalize t

namespace Mark

def start : Mark := ⟨0, 0, 0⟩

def step (m : Mark) (c : Char) : Mark :=
  if isBreak c then ⟨m.index + c.utf8Size, m.line + 1, 0⟩
  else ⟨m.index + c.utf8Size, m.line, m.column + 1⟩

end Mark

/-- A mark with what is left of the text. -/
structure Place where
  mark : Mark
  rest : Text

namespace Place

def head? (p : Place) : Option Char := p.rest.head?

def startsWith (p : Place) (c : Char) : Bool := p.rest.head? == some c

def next (p : Place) : Place :=
  match p.rest with
  | [] => p
  | c :: t => ⟨p.mark.step c, t⟩

def skip : Nat → Place → Place
  | 0, p => p
  | n + 1, p => skip n p.next

/-- The character this far ahead is a blank or a line break, or there is
none. -/
def endsWordAt (p : Place) (ahead : Nat) : Bool :=
  match p.rest[ahead]? with
  | none => true
  | some c => isBlank c || isBreak c

def atGap (p : Place) : Bool := p.rest.head?.any fun c => isBlank c || isBreak c

/-- The next character is a line break, or there is none. -/
def atLineEnd (p : Place) : Bool := p.rest.head?.all isBreak

/-- Three characters that divide documents, at the start of a line. -/
def atDivider (p : Place) (c : Char) : Bool :=
  p.mark.column == 0 && [c, c, c].isPrefixOf p.rest && p.endsWordAt 3

def atDocumentEdge (p : Place) : Bool := p.atDivider '-' || p.atDivider '.'

/-- The longest run of characters of a class, and the place after it. -/
def takeWhile (accepts : Char → Bool) (p : Place) : Text × Place :=
  let run := p.rest.takeWhile accepts
  (run, ⟨run.foldl Mark.step p.mark, p.rest.dropWhile accepts⟩)

def dropWhile (accepts : Char → Bool) (p : Place) : Place :=
  (p.takeWhile accepts).2

end Place

/-- The blanks and line breaks between two words of a scalar. -/
structure Gap where
  /-- Blanks, as long as no line has ended. -/
  blanks : Text
  /-- The first line break; an escaped one counts as no character. -/
  leading : Option Text
  /-- The further line breaks. -/
  breaks : Text

namespace Gap

def none : Gap := ⟨[], Option.none, []⟩

/-- What a gap stands for: a single line feed is folded into a blank, and of
several the first goes. -/
def text (g : Gap) : Text :=
  match g.leading with
  | Option.none => g.blanks
  | some lead =>
    if lead = ['\n'] then (if g.breaks.isEmpty then [' '] else g.breaks)
    else lead ++ g.breaks

def broke (g : Gap) : Bool := g.leading.isSome

def addBreak (g : Gap) (c : Char) : Gap :=
  match g.leading with
  | Option.none => ⟨[], some [c], []⟩
  | some _ => { g with breaks := g.breaks ++ [c] }

/-- The gap with one more blank; after a line break blanks are indentation and
do not count. -/
def addBlank (g : Gap) (c : Char) : Gap :=
  match g.leading with
  | Option.none => { g with blanks := g.blanks ++ [c] }
  | some _ => g

/-- Reads on over blanks and line breaks.  A tab may not indent a line by less
than `indent` characters. -/
def scan (indent : Nat) (g : Gap) (p : Place) : Option (Gap × Place) :=
  go g p.mark p.rest
where
  /-- Reads on from a mark. -/
  go (g : Gap) (m : Mark) : Text → Option (Gap × Place)
    | [] => some (g, ⟨m, []⟩)
    | c :: t =>
      if isBreak c then go (g.addBreak c) (m.step c) t
      else if isBlank c then
        if g.broke && m.column < indent && c == '\t' then Option.none
        else go (g.addBlank c) (m.step c) t
      else some (g, ⟨m, c :: t⟩)

end Gap

end TemplateJsx.Yaml
