import TemplateJsx.Peg.Pattern

/-!
# Matching a grammar

A matcher starts at a cursor, which holds what is left of the text and the
remembered names.  When it fails it leaves no cursor behind, so whoever tries an
alternative goes on with the old one: position and names are restored by
construction.  Only the attempts outlive a failure.

The attempts are the named rules that failed furthest into the text.  A rule
that failed where a single rule inside it has already been noted leaves that
more precise note alone; otherwise it takes the place of all that was noted
inside it.

Rules may call each other, so `Grammar.call` takes the depth of calls that is
allowed.
-/

namespace TemplateJsx.Peg

/-- A place in the text, with what is left of it and the remembered names, the
latest first.  Whoever keeps a cursor can go back to it, names included. -/
structure Cursor where
  offset : Nat
  rest : Text
  names : List Text
  deriving DecidableEq, Repr

namespace Cursor

def start (text : Text) : Cursor := ⟨0, text, []⟩

/-- Past the next character, if it is of a class. -/
def one? (accepts : Char → Bool) (c : Cursor) : Option Cursor :=
  match c.rest with
  | [] => none
  | x :: rest =>
    if accepts x then some ⟨c.offset + x.utf8Size, rest, c.names⟩ else none

/-- Past the characters of a word, each compared by `same`. -/
def word? (same : Char → Char → Bool) : Text → Cursor → Option Cursor
  | [], c => some c
  | x :: word, c => (c.one? (same x)).bind (word? same word)

/-- Two characters are equal but for the case of ASCII letters. -/
def sameLetter (x y : Char) : Bool := x.toLower == y.toLower

/-- The text between two cursors. -/
def between (c d : Cursor) : Text := c.rest.take (c.rest.length - d.rest.length)

end Cursor

/-- A named rule that matched a span, with the captures inside it. -/
inductive Capture (R : Type) where
  | mk (rule : R) (span : Span) (inner : List (Capture R))

/-- The rules that failed at the furthest offset, in the order in which they
were noted.  They become the message if the text is not matched. -/
structure Attempts (R : Type) where
  offset : Nat
  rules : List R

namespace Attempts

variable {R : Type}

def none : Attempts R := ⟨0, []⟩

def countAt (a : Attempts R) (offset : Nat) : Nat :=
  if a.offset = offset then a.rules.length else 0

/-- The attempts after a rule has failed at an offset.  Here `before` are the
attempts when the rule was called and `after` those when it failed. -/
def note (before after : Attempts R) (offset : Nat) (rule : R) : Attempts R :=
  let known := before.countAt offset
  if after.countAt offset = known + 1 then after
  else if after.offset = offset then ⟨offset, after.rules.take known ++ [rule]⟩
  else if after.offset < offset then ⟨offset, [rule]⟩
  else after

end Attempts

/-- A successful match: where it ended and the captures it left. -/
structure Match (R : Type) where
  cursor : Cursor
  captures : List (Capture R)

/-- What a matcher answers: the attempts so far, whether it matched or not, and
the match. -/
structure Outcome (R : Type) where
  attempts : Attempts R
  result : Option (Match R)

/-- A way to match at a cursor, given the attempts so far. -/
abbrev Matcher (R : Type) := Cursor → Attempts R → Outcome R

/-- The match that moves to a cursor and leaves no capture. -/
def Match.plain {R : Type} (c : Cursor) : Match R := ⟨c, []⟩

def Matcher.repeat {R : Type} (item : Matcher R) : Nat → Matcher R
  | 0, c, a => ⟨a, some (.plain c)⟩
  | n + 1, c, a =>
    match item c a with
    | ⟨a₁, none⟩ => ⟨a₁, some (.plain c)⟩
    | ⟨a₁, some m⟩ =>
      match Matcher.repeat item n m.cursor a₁ with
      | ⟨a₂, none⟩ => ⟨a₂, none⟩
      | ⟨a₂, some m'⟩ => ⟨a₂, some ⟨m'.cursor, m.captures ++ m'.captures⟩⟩

namespace Pattern

variable {R : Type}

/-- Matches a pattern, with `call` for the rules it refers to.  A repetition is
bounded by the number of characters left, since each round takes at least
one. -/
def run (call : R → Matcher R) : Pattern R → Matcher R
  | literal word, c, a => ⟨a, (c.word? (· == ·) word).map .plain⟩
  | caseless word, c, a => ⟨a, (c.word? Cursor.sameLetter word).map .plain⟩
  | one accepts, c, a => ⟨a, (c.one? accepts).map .plain⟩
  | empty, c, a => ⟨a, some (.plain c)⟩
  | sequence first next, c, a =>
    match first.run call c a with
    | ⟨a₁, none⟩ => ⟨a₁, none⟩
    | ⟨a₁, some m⟩ =>
      match next.run call m.cursor a₁ with
      | ⟨a₂, none⟩ => ⟨a₂, none⟩
      | ⟨a₂, some m'⟩ => ⟨a₂, some ⟨m'.cursor, m.captures ++ m'.captures⟩⟩
  | choice first other, c, a =>
    match first.run call c a with
    | ⟨a₁, none⟩ => other.run call c a₁
    | ⟨a₁, some m⟩ => ⟨a₁, some m⟩
  | many item, c, a => Matcher.repeat (item.run call) (c.rest.length + 1) c a
  | optional item, c, a =>
    match item.run call c a with
    | ⟨a₁, none⟩ => ⟨a₁, some (.plain c)⟩
    | ⟨a₁, some m⟩ => ⟨a₁, some m⟩
  | .unless item, c, a =>
    match item.run call c a with
    | ⟨_, none⟩ => ⟨a, some (.plain c)⟩
    | ⟨_, some _⟩ => ⟨a, none⟩
  | rule name, c, a => call name c a
  | atStart, c, a => ⟨a, if c.offset = 0 then some (.plain c) else none⟩
  | atEnd, c, a => ⟨a, if c.rest = [] then some (.plain c) else none⟩
  | push item, c, a =>
    match item.run call c a with
    | ⟨a₁, none⟩ => ⟨a₁, none⟩
    | ⟨a₁, some m⟩ =>
      let names := c.between m.cursor :: m.cursor.names
      ⟨a₁, some ⟨{ m.cursor with names }, m.captures⟩⟩
  | pop, c, a =>
    match c.names with
    | [] => ⟨a, none⟩
    | name :: names =>
      ⟨a, (c.word? (· == ·) name).map fun d => .plain { d with names }⟩
  | peek, c, a =>
    match c.names with
    | [] => ⟨a, none⟩
    | name :: _ => ⟨a, (c.word? (· == ·) name).map .plain⟩
  | drop, c, a =>
    match c.names with
    | [] => ⟨a, none⟩
    | _ :: names => ⟨a, some (.plain { c with names })⟩

end Pattern

namespace Grammar

variable {R : Type}

/-- Matches a rule, at most `depth` calls deep.  A rule that is named leaves a
capture where it matches and a note where it fails. -/
def call (g : Grammar R) : Nat → R → Matcher R
  | 0, _, _, a => ⟨a, none⟩
  | depth + 1, r, c, a =>
    match (g.body r).run (g.call depth) c a with
    | ⟨a₁, none⟩ => ⟨if g.isNamed r then a.note a₁ c.offset r else a₁, none⟩
    | ⟨a₁, some m⟩ =>
      if g.isNamed r then
        ⟨a₁, some ⟨m.cursor, [.mk r ⟨c.offset, m.cursor.offset⟩ m.captures]⟩⟩
      else
        ⟨a₁, some m⟩

end Grammar

end TemplateJsx.Peg
