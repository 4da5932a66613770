import TemplateJsx.Yaml.Place

/-!
# Scalars as they are written

A scalar is written plainly, in quotes, or as a block that keeps or folds its
lines.  The functions here read one from a place and give its value, what is
left, and for plain scalars whether a line has ended after it.
-/

namespace TemplateJsx.Yaml

/-- How a scalar is written.  Without a tag, only a plain one can mean something
other than its text. -/
inductive Style where
  | plain
  | singleQuoted
  | doubleQuoted
  | literal
  | folded
  deriving DecidableEq, Repr

/-- The characters that end a plain scalar inside brackets. -/
def isFlowMark (c : Char) : Bool :=
  c == ',' || c == '[' || c == ']' || c == '{' || c == '}'

/-- The characters of a plain scalar up to a gap or the end of the scalar. -/
def plainWord (inFlow : Bool) : Text → Option Text
  | [] => some []
  | c :: t =>
    if isBlank c || isBreak c then some []
    else if inFlow && c == ':' &&
      (t.head?.any fun d => d == '?' || isFlowMark d) then none
    else if c == ':' && (t.head?.all fun d =>
      isBlank d || isBreak d) then some []
    else if inFlow && isFlowMark c then some []
    else (plainWord inFlow t).map (c :: ·)

/-- Reads on in a plain scalar after a gap.  Its lines are indented by at least
`indent` characters. -/
def scanPlain (inFlow : Bool) (indent : Nat) :
    (fuel : Nat) → Gap → Place → Option (Text × Bool × Place)
  | 0, gap, p => some ([], gap.broke, p)
  | fuel + 1, gap, p =>
    if p.atDocumentEdge || p.startsWith '#' then
      some ([], gap.broke, p)
    else do
      let word ← plainWord inFlow p.rest
      let value := if word.isEmpty then [] else gap.text ++ word
      let gap := if word.isEmpty then gap else Gap.none
      let p := p.skip word.length
      if p.atGap then
        let (gap, p) ← Gap.scan indent Gap.none p
        if !inFlow && p.mark.column < indent then
          return (value, gap.broke, p)
        else
          let (more, broke, p) ← scanPlain inFlow indent fuel gap p
          return (value ++ more, broke, p)
      else
        return (value, gap.broke, p)

def hexValue? (c : Char) : Option Nat :=
  if c.isDigit then some (c.toNat - 48)
  else if 'a' ≤ c && c ≤ 'f' then some (c.toNat - 87)
  else if 'A' ≤ c && c ≤ 'F' then some (c.toNat - 55)
  else none

/-- The character of a code point written with a number of hexadecimal
digits. -/
def hexChar? (digits : Nat) (t : Text) : Option Char := do
  let run := t.take digits
  if run.length < digits then none
  let values ← run.mapM hexValue?
  let n := values.foldl (fun n v => 16 * n + v) 0
  if n < 0x110000 && !(0xD800 ≤ n && n ≤ 0xDFFF) then
    some (Char.ofNat n) else none

/-- The character after a backslash, and how many characters the escape takes
after the backslash. -/
def escape? : Text → Option (Char × Nat)
  | [] => none
  | c :: t =>
    match c with
    | '0' => some (Char.ofNat 0, 1)
    | 'a' => some (Char.ofNat 7, 1)
    | 'b' => some (Char.ofNat 8, 1)
    | 't' | '\t' => some ('\t', 1)
    | 'n' => some ('\n', 1)
    | 'v' => some (Char.ofNat 11, 1)
    | 'f' => some (Char.ofNat 12, 1)
    | 'r' => some ('\r', 1)
    | 'e' => some (Char.ofNat 27, 1)
    | ' ' | '"' | '/' | '\\' => some (c, 1)
    | 'N' => some ('\u0085', 1)
    | '_' => some ('\u00a0', 1)
    | 'L' => some ('\u2028', 1)
    | 'P' => some ('\u2029', 1)
    | 'x' => (hexChar? 2 t).map (·, 3)
    | 'u' => (hexChar? 4 t).map (·, 5)
    | 'U' => (hexChar? 8 t).map (·, 9)
    | _ => none

/-- What ends a run of characters in quotes. -/
inductive QuotedStop where
  | quote
  | gap
  /-- A line break after a backslash. -/
  | escapedBreak

/-- The characters of a quoted scalar up to a gap or the closing quote. -/
def quotedWord (quote : Char) :
    (fuel : Nat) → Place → Option (Text × QuotedStop × Place)
  | 0, _ => none
  | fuel + 1, p =>
    let after (d : Char) (taken : Nat) : Option (Text × QuotedStop × Place) :=
      (quotedWord quote fuel (p.skip taken)).map fun (word, stop, p) =>
        (d :: word, stop, p)
    match p.rest with
    | [] => some ([], .gap, p)
    | c :: t =>
      if isBlank c || isBreak c then some ([], .gap, p)
      else if c == quote then
        if quote == '\'' && t.head? == some '\'' then after '\'' 2
        else some ([], .quote, p.next)
      else if c == '\\' && quote == '"' then
        if t.head?.any isBreak then some ([], .escapedBreak, p.skip 2)
        else (escape? t).bind fun (d, taken) => after d (taken + 1)
      else after c 1

/-- Reads on in a quoted scalar, up to its closing quote. -/
def scanQuoted (quote : Char) : (fuel : Nat) → Place → Option (Text × Place)
  | 0, _ => none
  | fuel + 1, p =>
    if p.atDocumentEdge || p.rest.isEmpty then
      none
    else do
      let (word, stop, p) ← quotedWord quote (fuel + 1) p
      match stop with
      | .quote => return (word, p)
      | .gap =>
        let (gap, p) ← Gap.scan 0 Gap.none p
        let (more, p) ← scanQuoted quote fuel p
        return (word ++ gap.text ++ more, p)
      | .escapedBreak =>
        if p.startsWith quote then
          return (word, p.next)
        else
          let (gap, p) ← Gap.scan 0 { Gap.none with leading := some [] } p
          let (more, p) ← scanQuoted quote fuel p
          return (word ++ gap.text ++ more, p)

/-- Which line breaks at the end of a block stay. -/
inductive Chomping where
  | strip
  | clip
  | keep

/-- The marks after the indicator of a block: how its end is treated and how far
it is indented. -/
def blockHeader? : Text → Option (Chomping × Nat × Nat)
  | '+' :: t => (blockIndent? t).map fun (n, taken) => (.keep, n, taken + 1)
  | '-' :: t => (blockIndent? t).map fun (n, taken) => (.strip, n, taken + 1)
  | t => do
    let (n, taken) ← blockIndent? t
    match (t.drop taken).head? with
    | some '+' => some (.keep, n, taken + 1)
    | some '-' => some (.strip, n, taken + 1)
    | _ => some (.clip, n, taken)
where
  /-- A digit for the indentation, which is not zero. -/
  blockIndent? : Text → Option (Nat × Nat)
    | c :: _ =>
      if c == '0' then none
      else if c.isDigit then some (c.toNat - 48, 1)
      else some (0, 0)
    | [] => some (0, 0)

/-- Reads the empty lines of a block in front of a line of text.  Without a
known indentation, the deepest of these lines fixes it; the third result is the
indentation reached. -/
def blockBreaks (indent : Nat) :
    (fuel : Nat) → (deepest : Nat) → (breaks : Text) → Place →
      Option (Text × Nat × Place)
  | 0, deepest, breaks, p => some (breaks, deepest, p)
  | fuel + 1, deepest, breaks, p =>
    let line :=
      if indent = 0 then p.rest else p.rest.take (indent - p.mark.column)
    let blanks := (line.takeWhile (· == ' ')).length
    let p := p.skip blanks
    let deepest := max deepest p.mark.column
    match p.rest with
    | c :: _ =>
      if c == '\t' && (indent = 0 || p.mark.column < indent) then none
      else if isBreak c then blockBreaks indent fuel deepest
        (breaks ++ [c]) p.next
      else some (breaks, deepest, p)
    | [] => some (breaks, deepest, p)

/-- Reads on in the lines of a block.  The breaks at the end of it are given
apart. -/
def blockLines (folded : Bool) (indent : Nat) :
    (fuel : Nat) → (lead breaks : Text) → (blankLead : Bool) → Place →
      Option (Text × Text × Text × Place)
  | 0, lead, breaks, _, p => some ([], lead, breaks, p)
  | fuel + 1, lead, breaks, blankLead, p =>
    if p.mark.column = indent && !p.rest.isEmpty then do
      let startsBlank := p.head?.any isBlank
      let joint :=
        if folded && lead.head? == some '\n' && !blankLead && !startsBlank then
          (if breaks.isEmpty then [' '] else [])
        else lead
      let (line, p) := p.takeWhile fun c => !isBreak c
      let (lead, p) := match p.rest with
        | c :: _ => ([c], p.next)
        | [] => ([], p)
      let (nextBreaks, _, p) ← blockBreaks indent (fuel + 1) 0 [] p
      let (more, rest) ← blockLines folded indent fuel lead nextBreaks
        startsBlank p
      return (joint ++ breaks ++ line ++ more, rest)
    else
      some ([], lead, breaks, p)

/-- Reads a block scalar after its indicator, inside a node that is indented by
`parent` characters. -/
def scanBlock (folded : Bool) (parent : Int) (fuel : Nat) (p : Place) :
    Option (Text × Place) := do
  let (chomping, increment, taken) ← blockHeader? p.rest
  let p := (p.skip taken).dropWhile isBlank
  let p := if p.startsWith '#' then p.dropWhile fun c => !isBreak c else p
  if !p.atLineEnd then none
  let p := p.next
  let known :=
    if increment = 0 then 0 else
      (if 0 ≤ parent then parent.toNat + increment else increment)
  let (breaks, deepest, p) ← blockBreaks known fuel 0 [] p
  let indent :=
    if known = 0 then max deepest (max (parent + 1).toNat 1) else known
  let (value, lead, breaks, p) ← blockLines folded indent fuel [] breaks false p
  let tail := match chomping with
    | .strip => []
    | .clip => lead
    | .keep => lead ++ breaks
  return (value ++ tail, p)

end TemplateJsx.Yaml
