import TemplateJsx.Text.Basic

/-!
# Splitting and joining

`Text.split` cuts a text at every occurrence of a character and `Text.joinWith`
puts the pieces together again.
-/

namespace TemplateJsx

namespace Text

/-- The pieces of a text between the occurrences of a character; there is always
at least one. -/
def split (divider : Char) : Text → List Text
  | [] => [[]]
  | c :: t =>
    if c = divider then [] :: split divider t
    else
      match split divider t with
      | [] => [[c]]
      | piece :: rest => (c :: piece) :: rest

def joinWith (divider : Char) : List Text → Text
  | [] => []
  | [piece] => piece
  | piece :: rest => piece ++ divider :: joinWith divider rest

theorem split_ne_nil (divider : Char) (t : Text) : split divider t ≠ [] := by
  cases t with
  | nil => simp [split]
  | cons c t =>
    simp only [split]
    split
    · simp
    · split <;> simp

/-- Joining the pieces of a text gives back the text. -/
theorem joinWith_split (divider : Char) (t : Text) :
    joinWith divider (split divider t) = t := by
  induction t with
  | nil => rfl
  | cons c t ih =>
    simp only [split]
    split
    · rename_i h
      cases hs : split divider t with
      | nil => exact absurd hs (split_ne_nil divider t)
      | cons piece rest => simp [joinWith, ← hs, ih, h]
    · cases hs : split divider t with
      | nil => exact absurd hs (split_ne_nil divider t)
      | cons piece rest =>
        rw [hs] at ih
        cases rest with
        | nil => simpa [joinWith] using ih
        | cons q rest => simpa [joinWith] using ih

def dropReturn (t : Text) : Text :=
  if t.getLast? = some '\r' then t.dropLast else t

/-- The lines of a text.  A line ends with a line feed, perhaps after a carriage
return; the last one need not end, and is no line if it is empty. -/
def lines (t : Text) : List Text :=
  let pieces := split '\n' t
  let last := pieces.getLast?.getD []
  pieces.dropLast.map dropReturn ++ (if last.isEmpty then [] else [last])

end Text

end TemplateJsx
