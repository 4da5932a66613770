import TemplateJsx.Json
import TemplateJsx.SourceMap.Vlq

/-!
# Source maps

The mappings of rendered code with the name of the template they lead back to
and, if it is to be carried along, its text.  The written form is a JSON object
of version 3.
-/

namespace TemplateJsx

/-- The way from rendered code back to one template, with the name of the
template and perhaps its text. -/
structure SourceMap where
  sourceName : Text
  content : Option Text
  mappings : List Mapping

namespace SourceMap

/-- The place in the template that a position of the code stands for. -/
def lookup (map : SourceMap) (p : Position) : Option Position :=
  Mapping.lookup map.mappings p

def toJson (map : SourceMap) : Json :=
  .obj
    ([("version", .nat 3), ("sources", .arr [.str map.sourceName])] ++
      (map.content.map fun t => ("sourcesContent", Json.arr [.str t])).toList ++
      [("names", .arr []), ("mappings",
        .str (Vlq.encodeMappings map.mappings))])

def text (map : SourceMap) : Text := map.toJson.compact

end SourceMap

end TemplateJsx
