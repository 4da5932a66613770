import TemplateJsx.Text.Basic
import TemplateJsx.Text.Hidden

/-!
# Text in quotes

Messages show a text between double quotes, with escapes for quotes,
backslashes, line ends, tabs and every character that cannot be seen by itself.
-/

namespace TemplateJsx

namespace Text

/-- A character as it is written between quotes: some behind a backslash, and
those that cannot be seen by their code points. -/
def escapeChar (c : Char) : Text :=
  if c == '"' then ['\\', '"']
  else if c == '\\' then ['\\', '\\']
  else if c == '\n' then ['\\', 'n']
  else if c == '\r' then ['\\', 'r']
  else if c == '\t' then ['\\', 't']
  else if c.toNat = 0 then ['\\', '0']
  else if isHidden c then ['\\', 'u', '{'] ++ Nat.toDigits 16 c.toNat ++ ['}']
  else [c]

def quoted (t : Text) : Text := '"' :: t.flatMap escapeChar ++ ['"']

end Text

end TemplateJsx
