/-
The answer to another program about a source: its outline and code, or the error that it has.
-/
import Offside.Compilation.Basic
import Offside.Outline

namespace Offside

namespace Outline

mutual

/-- A node with its children; a value or a role that is not there is left out. -/
def json : Outline → Json
  | node id form value role children =>
    let value := match value with
      | some value => [("value", Json.string value)]
      | none => []
    let role := match role with
      | some role => [("role", Json.string role.text)]
      | none => []
    .object ([("id", .number id), ("kind", .string form)] ++ value ++ role ++
      [("children", .array (jsonOf children))])

def jsonOf : List Outline → List Json
  | [] => []
  | child :: others => json child :: jsonOf others

end

end Outline

namespace Procedure

def json (procedure : Procedure) : Json :=
  .object
    [("name", .string procedure.name),
     ("params", .array (procedure.params.map .string)),
     ("instructions", .array (procedure.lines.map .string))]

end Procedure

namespace Listing

def toplevelLines (listing : Listing) : List String :=
  listing.toplevel.map Instruction.text

def json (listing : Listing) : Json :=
  .object
    [("functions", .array (listing.procedures.map Procedure.json)),
     ("toplevel", .array (listing.toplevelLines.map .string))]

end Listing

namespace Analysis

def json (analysis : Analysis) : Json :=
  .object
    [("success", .bool true),
     ("ast_text", .string analysis.program.outlineText),
     ("ast_tree", (Outline.ofModule analysis.program).json),
     ("ir", analysis.code.json)]

end Analysis

namespace CompileError

def json (error : CompileError) : Json := error.diagnostic.report error.kind

end CompileError

/-- The answer about a source that compiles or does not. -/
def payload : Except CompileError Analysis → Json
  | .ok analysis => analysis.json
  | .error error => error.json

end Offside
