/-
Compiled resources as JSON.
-/
import Courseware.Document.Json
import Courseware.Json.Text
import Courseware.Resource.Basic

namespace Courseware

/-- A diagnostic as JSON. -/
def Diagnostic.toJson (d : Diagnostic) : Json :=
  .obj [("lineno", .int d.line), ("abspath", .str d.path), ("description", .str d.description)]

/-- A dependency as JSON; the key it is bound to is there only if there is one. -/
def Dependency.toJson (d : Dependency) : Json :=
  .obj ((d.boundTo.elim [] fun key => [("alias", .str key)]) ++
    [("lineno", .int d.line), ("content", .str d.content), ("abspath", .str d.path)])

namespace Resource

/-- A resource as JSON. -/
def toJson (r : Resource) : Json :=
  .obj [("resource", .str r.file.resource), ("version", .str r.file.version),
    ("abspath", .str r.file.path), ("variables", .obj r.vars),
    ("dependencies", .arr (r.dependencies.map Dependency.toJson)),
    ("ast", .obj [("nodes", .arr (r.nodes.map Node.toJson)), ("variables", .obj r.own)]),
    ("errors", .arr (r.errors.map Diagnostic.toJson)),
    ("warnings", .arr (r.warnings.map Diagnostic.toJson))]

/-- **A resource as text**, in JSON over several lines. -/
def exported (r : Resource) : String := r.toJson.pretty 0

end Resource

end Courseware
