import TemplateJsx.Text.Basic

/-!
# Options

The settings of a run.
-/

namespace TemplateJsx

/-- What can be set about a run: the name under which the source map has the
template, whether the map carries its text, and whether the code is wrapped into
a fragment. -/
structure Options where
  /-- The name of the template in reports and in the source map. -/
  sourceName : Text
  /-- Whether the source map carries the text of the template. -/
  includeSourceContent : Bool
  /-- Whether the code is wrapped into one fragment. -/
  wrapFragment : Bool
  deriving DecidableEq, Repr

namespace Options

def standard : Options := ⟨"input.svelte".toList, true, true⟩

end Options

end TemplateJsx
