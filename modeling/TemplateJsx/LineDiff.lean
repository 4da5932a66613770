import TemplateJsx.Text.Lines

/-!
# Differences line by line

Two texts are compared by the lines they have in common.  The common lines are
found from a table of the lengths of longest common subsequences, walked back
from its last cell; then both texts are gone through again, and what is not
common is removed from the first and added from the second.
-/

namespace TemplateJsx

/-- A run of lines that stay, go or come. -/
inductive Change where
  | same (lines : List Text)
  | removed (lines : List Text)
  | added (lines : List Text)
  deriving DecidableEq, Repr

namespace LineDiff

/-- The lengths of longest common subsequences, a row for each line of the first
text and a cell for each line of the second. -/
structure Table where
  rows : Array (Array Nat)
  width : Nat

namespace Table

def cell (t : Table) (i j : Nat) : Nat := ((t.rows.getD i #[]).getD j 0)

/-- The row of a line, from the row above it: `corner` is the cell above to the
left and `left` the one to the left. -/
def row (line : Text) :
    (above : List Nat) → (corner left : Nat) → List Text → List Nat
  | _, _, _, [] => []
  | above, corner, left, other :: rest =>
    let up := above.headD 0
    let here := if line = other then corner + 1 else max left up
    here :: row line above.tail up here rest

def rowsFrom (b : List Text) : (above : List Nat) → List Text → List (List Nat)
  | _, [] => []
  | above, line :: rest =>
    let here := row line above 0 0 b
    here :: rowsFrom b here rest

def ofLines (a b : List Text) : Table :=
  ⟨((rowsFrom b [] a).map List.toArray).toArray, b.length⟩

end Table

/-- The way on from a cell whose two lines differ. -/
inductive Way where
  | stop
  | left
  | up

/-- Where to go from a cell whose two lines differ.  The neighbour to the left
of a first cell is the last cell of the row above. -/
def way (t : Table) : (i j : Nat) → Way
  | 0, 0 => .stop
  | 0, _ + 1 => .left
  | i + 1, 0 => if t.cell i 0 < t.cell i (t.width - 1) then .left else .up
  | i + 1, j + 1 => if t.cell i (j + 1) < t.cell (i + 1) j then .left else .up

/-- The common lines, walking back from line `i` of the first text and line `j`
of the second, each counted from one; at zero there is no line left. -/
def common (t : Table) (a b : Array Text) :
    (fuel i j : Nat) → List Text → List Text
  | 0, _, _, found => found
  | _, 0, _, found => found
  | _, _, 0, found => found
  | fuel + 1, i + 1, j + 1, found =>
    let line := a.getD i []
    if line = b.getD j [] then common t a b fuel i j (line :: found)
    else
      match way t i j with
      | .stop => found
      | .left => common t a b fuel (i + 1) j found
      | .up => common t a b fuel i (j + 1) found

def commonLines (a b : List Text) : List Text :=
  common (Table.ofLines a b) a.toArray b.toArray (a.length + b.length + 1)
    a.length b.length []

/-- The lines at the head of three lists as long as they agree, and what is
left. -/
def takeSame :
    List Text → List Text → List Text →
      List Text × List Text × List Text × List Text
  | x :: l, y :: r, z :: c =>
    if x = z && y = z then
      let (same, rest) := takeSame l r c
      (x :: same, rest)
    else ([], x :: l, y :: r, z :: c)
  | l, r, c => ([], l, r, c)

/-- The lines in front of the next common line, and what is left. -/
def takeOwn (l c : List Text) : List Text × List Text :=
  match c.head? with
  | none => (l, [])
  | some z => (l.takeWhile (· ≠ z), l.dropWhile (· ≠ z))

/-- Goes through both texts along the common lines.  Lines of the first text
that are not common go, and then those of the second come. -/
def merge : (fuel : Nat) → (l r c : List Text) → List Change
  | 0, _, _, _ => []
  | fuel + 1, l, r, c =>
    if l.isEmpty && r.isEmpty then []
    else
      let (same, l, r, c) := takeSame l r c
      let (removed, l) := takeOwn l c
      let (added, r) := takeOwn r c
      (if same.isEmpty then [] else [.same same]) ++
        (if removed.isEmpty then [] else [.removed removed]) ++
        (if added.isEmpty then [] else [.added added]) ++ merge fuel l r c

def linesOf (t : Text) : List Text :=
  if t.isEmpty then [] else Text.split '\n' t

/-- The changes that lead from one text to another: what the two have in common
stays, and what only one of them has goes or comes. -/
def changes (a b : Text) : List Change :=
  let c :=
    Text.joinWith '\n' (commonLines (Text.split '\n' a) (Text.split '\n' b))
  let l := linesOf a
  let r := linesOf b
  merge (l.length + r.length) l r (linesOf c)

end LineDiff

namespace Change

def marked (mark : Char) (lines : List Text) : Text :=
  (Text.joinWith '\n' lines).lines.flatMap fun line => mark :: line ++ ['\n']

def text : Change → Text
  | same lines => marked ' ' lines
  | removed lines => marked '-' lines
  | added lines => marked '+' lines

end Change

/-- The differences between two texts as they are printed. -/
def LineDiff.print (a b : Text) : Text := (changes a b).flatMap Change.text

end TemplateJsx
