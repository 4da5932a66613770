import TemplateJsx.Text.Basic

/-!
# JSON

Values, with the members of an object in a fixed order, and their two written
forms: a compact one without any white space, and one spread over lines with two
blanks per level.
-/

namespace TemplateJsx

/-- A JSON value whose numbers are natural numbers, with the members of an
object in their order. -/
inductive Json where
  | null
  | bool (b : Bool)
  | nat (n : Nat)
  | str (s : Text)
  | arr (items : List Json)
  | obj (members : List (String × Json))

namespace Json

def ofOption {α : Type} (f : α → Json) : Option α → Json
  | none => null
  | some a => f a

def hexDigit (n : Nat) : Char :=
  if n < 10 then Char.ofNat (48 + n) else Char.ofNat (87 + n)

/-- A character inside a string: quotes, backslashes and control characters are
escaped. -/
def escape (c : Char) : Text :=
  if c == '"' then ['\\', '"']
  else if c == '\\' then ['\\', '\\']
  else if c == '\n' then ['\\', 'n']
  else if c == '\r' then ['\\', 'r']
  else if c == '\t' then ['\\', 't']
  else if c.toNat = 8 then ['\\', 'b']
  else if c.toNat = 12 then ['\\', 'f']
  else if c.toNat < 32 then ['\\', 'u', '0', '0', hexDigit (c.toNat / 16),
    hexDigit (c.toNat % 16)]
  else [c]

def quote (s : Text) : Text := '"' :: (s.flatMap escape ++ ['"'])

def decimal (n : Nat) : Text := Nat.toDigits 10 n

mutual

/-- The written form without white space, as source maps have it. -/
def compact : Json → Text
  | null => ['n', 'u', 'l', 'l']
  | bool true => ['t', 'r', 'u', 'e']
  | bool false => ['f', 'a', 'l', 's', 'e']
  | nat n => decimal n
  | str s => quote s
  | arr items => '[' :: (compactItems items ++ [']'])
  | obj members => '{' :: (compactMembers members ++ ['}'])

def compactItems : List Json → Text
  | [] => []
  | [v] => compact v
  | v :: vs => compact v ++ ',' :: compactItems vs

def compactMembers : List (String × Json) → Text
  | [] => []
  | [(k, v)] => quote k.toList ++ ':' :: compact v
  | (k, v) :: ms =>
    quote k.toList ++ ':' :: (compact v ++ ',' :: compactMembers ms)

end

def newline (level : Nat) : Text := '\n' :: List.replicate (2 * level) ' '

mutual

/-- The written form over several lines, inside `level` levels of nesting, in
front of what follows it. -/
def prettyOnto (level : Nat) (rest : Text) : Json → Text
  | null => 'n' :: 'u' :: 'l' :: 'l' :: rest
  | bool true => 't' :: 'r' :: 'u' :: 'e' :: rest
  | bool false => 'f' :: 'a' :: 'l' :: 's' :: 'e' :: rest
  | nat n => decimal n ++ rest
  | str s => quote s ++ rest
  | arr [] => '[' :: ']' :: rest
  | arr items =>
    '[' :: prettyItems (level + 1) (newline level ++ ']' :: rest) items
  | obj [] => '{' :: '}' :: rest
  | obj members =>
    '{' :: prettyMembers (level + 1) (newline level ++ '}' :: rest) members

def prettyItems (level : Nat) (rest : Text) : List Json → Text
  | [] => rest
  | [v] => newline level ++ prettyOnto level rest v
  | v :: vs =>
    newline level ++ prettyOnto level (',' :: prettyItems level rest vs) v

def prettyMembers (level : Nat) (rest : Text) : List (String × Json) → Text
  | [] => rest
  | [(k, v)] =>
    newline level ++ quote k.toList ++ ':' :: ' ' :: prettyOnto level rest v
  | (k, v) :: ms =>
    newline level ++ quote k.toList ++ ':' :: ' ' ::
      prettyOnto level (',' :: prettyMembers level rest ms) v

end

/-- The written form over several lines, two blanks further in for each
level. -/
def pretty (v : Json) : Text := prettyOnto 0 [] v

end Json

end TemplateJsx
