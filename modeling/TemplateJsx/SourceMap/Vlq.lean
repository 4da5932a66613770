import TemplateJsx.SourceMap.Mapping

/-!
# Mappings as text

The written form of mappings: per line of code a list of segments, each of four
numbers relative to the segment before it.  The column in the code starts anew
on every line.  A number is written in groups of five bits, the lowest first,
the sign in the lowest bit of all, and each group but the last marked by a sixth
bit.
-/

namespace TemplateJsx.Vlq

def alphabet : Text :=
  "ABCDEFGHIJKLMNOPQRSTUVWXYZabcdefghijklmnopqrstuvwxyz0123456789+/".toList

def digit (n : Nat) : Char := alphabet.getD n 'A'

/-- The groups of a number, at most `budget` of them before the last. -/
def groups : (budget : Nat) → Nat → List Nat
  | 0, n => [n % 32]
  | budget + 1, n =>
    if n < 32 then [n] else (32 + n % 32) :: groups budget (n / 32)

/-- A number with its sign in the lowest bit. -/
def signed (n : Int) : Nat := if n < 0 then 2 * n.natAbs + 1 else 2 * n.natAbs

def encode (n : Int) : Text := (groups (signed n) (signed n)).map digit

def delta (before now : Nat) : Text := encode ((now : Int) - (before : Int))

/-- One segment, relative to the mapping before it and the column where the line
was left. -/
def segment (column : Nat) (source : Position) (m : Mapping) : Text :=
  delta column m.generated.column ++ delta 0 0 ++
    delta source.line m.source.line ++
    delta source.column m.source.column

/-- The segments of mappings after `before`, in the order given.  A mapping on a
later line comes after as many semicolons as there are line ends between, one on
the same line after a comma. -/
def segmentsAfter (before : Mapping) : List Mapping → Text
  | [] => []
  | m :: rest =>
    let lines := m.generated.line - before.generated.line
    if lines = 0 then
      ',' :: (segment before.generated.column before.source m ++
        segmentsAfter m rest)
    else
      List.replicate lines ';' ++ segment 0 before.source m ++
        segmentsAfter m rest

/-- The written form of mappings: segments with commas between them, and a
semicolon for each line of code. -/
def encodeMappings : List Mapping → Text
  | [] => []
  | m :: rest =>
    List.replicate m.generated.line ';' ++ segment 0 Position.origin m ++
      segmentsAfter m rest

end TemplateJsx.Vlq
