import TemplateJsx.Text.Basic

/-!
# Parsing expressions

A pattern says how a stretch of text is recognised: choices are ordered,
repetition takes as much as it can, and neither is taken back later.  Besides
the usual operators a pattern can remember a stretch of text on a stack of names
and ask for the remembered text again, which is how a closing tag is tied to its
opening tag.

A grammar gives each rule a pattern.  A named rule leaves a capture behind when
it matches and is noted as an attempt when it does not; a rule that is not named
is a mere abbreviation.
-/

namespace TemplateJsx.Peg

/-- A pattern that may refer to the rules `R`.  Choices are ordered, repetition
takes as much as it can, and three operators put a name on a stack, match the
one on top, and take it off. -/
inductive Pattern (R : Type) where
  /-- Exactly these characters. -/
  | literal (word : Text)
  /-- These characters, ASCII letters in either case. -/
  | caseless (word : Text)
  /-- One character of a class. -/
  | one (accepts : Char → Bool)
  /-- Nothing at all. -/
  | empty
  /-- One pattern and then another. -/
  | sequence (first next : Pattern R)
  /-- The first pattern, or where it fails the other. -/
  | choice (first other : Pattern R)
  /-- As many repetitions as there are. -/
  | many (item : Pattern R)
  /-- The pattern where it matches, nothing where it does not. -/
  | optional (item : Pattern R)
  /-- Nothing, where the pattern does not match. -/
  | unless (item : Pattern R)
  /-- What the rule says. -/
  | rule (name : R)
  /-- The start of the text. -/
  | atStart
  /-- The end of the text. -/
  | atEnd
  /-- The pattern, its text remembered. -/
  | push (item : Pattern R)
  /-- The text remembered last, which is then forgotten. -/
  | pop
  /-- The text remembered last, which stays remembered. -/
  | peek
  /-- Nothing; the text remembered last is forgotten. -/
  | drop

namespace Pattern

variable {R : Type}

def many1 (item : Pattern R) : Pattern R := .sequence item (.many item)

def seq : List (Pattern R) → Pattern R
  | [] => .empty
  | [p] => p
  | p :: ps => .sequence p (seq ps)

def firstOf : List (Pattern R) → Pattern R
  | [] => .unless .empty
  | [p] => p
  | p :: ps => .choice p (firstOf ps)

end Pattern

/-- A pattern for each rule, and which of the rules are named.  Only named rules
leave captures and are mentioned in messages. -/
structure Grammar (R : Type) where
  body : R → Pattern R
  isNamed : R → Bool

end TemplateJsx.Peg
