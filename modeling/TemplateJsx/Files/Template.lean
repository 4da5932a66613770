import TemplateJsx.Files.Path

/-!
# Templates and their outputs

A template is a file with the extension `svelte`.  Its outputs are named after
it: the code with the extension `jsx`, and the source map with `.map` after
that.
-/

namespace TemplateJsx

/-- Where the code and the source map of a template go. -/
structure OutputPaths where
  code : Path
  map : Path
  deriving DecidableEq, Repr

namespace Path

def isTemplate (p : Path) : Bool := p.extension? = some "svelte".toList

/-- The outputs of a template in a directory, named after the template. -/
def outputsIn (template directory : Path) : OutputPaths :=
  let stem := template.stem?.getD "output".toList
  ⟨directory.child (stem ++ ".jsx".toList),
    directory.child (stem ++ ".jsx.map".toList)⟩

end Path

end TemplateJsx
