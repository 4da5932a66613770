import TemplateJsx.Text.Position

/-!
# Mappings

A mapping ties a position in rendered code to the position in the template that
it stands for.  A list of mappings, in the order of the code, answers for every
position of the code: what counts is the last mapping at or before it.
-/

namespace TemplateJsx

/-- From a position of rendered code back to a position of the template. -/
structure Mapping where
  generated : Position
  source : Position
  deriving DecidableEq, Repr

namespace Mapping

/-- The place in the template that a position of the code stands for: that of
the last mapping at or before it. -/
def lookup (mappings : List Mapping) (p : Position) : Option Position :=
  ((mappings.filter fun m => m.generated.atMost p).getLast?).map Mapping.source

end Mapping

end TemplateJsx
