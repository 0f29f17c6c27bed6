import ExprCompiler.Json.Indented

/-!
# The tool schema

What a client is told about the tools: a name, a description, the parameters with their types, and
which of them are required.
-/

namespace ExprCompiler.Service

structure ToolSpec where
  name : String
  description : String
  required : List String
  /-- Parameters with their types. -/
  parameters : List (String × String)

def toolSpecs : List ToolSpec := [
  ⟨"lambdify", "Compile an expression into a numeric function. Optional: params (string[]) " ++
      "fixes the argument order, points (number[][]) evaluates it",
    ["expr"], [("expr", "object"), ("params", "array"), ("points", "array")]⟩,
  ⟨"sample", "Sample a one-variable expression over [lo, hi]. Optional: samples (integer)",
    ["expr", "lo", "hi"],
    [("expr", "object"), ("hi", "number"), ("lo", "number"), ("samples", "integer")]⟩,
  ⟨"parametric", "Sample the curve (x(var), y(var)) for var in [lo, hi]",
    ["x", "y", "var", "lo", "hi"],
    [("hi", "number"), ("lo", "number"), ("samples", "integer"), ("var", "string"),
      ("x", "object"), ("y", "object")]⟩,
  ⟨"surface", "Sample expr(x, y) on a square grid. x_range and y_range are [lo, hi]",
    ["expr", "x", "y", "x_range", "y_range"],
    [("expr", "object"), ("samples", "integer"), ("x", "string"), ("x_range", "array"),
      ("y", "string"), ("y_range", "array")]⟩,
  ⟨"free_symbols", "Return free symbol names in default parameter order",
    ["expr"], [("expr", "object")]⟩,
  ⟨"to_string", "Render the expression and its translated target form",
    ["expr"], [("expr", "object")]⟩,
  ⟨"tables", "Return the default constant, operator and function tables", [], []⟩,
  ⟨"mcp_spec", "Return this tool schema", [], []⟩]

namespace ToolSpec

def toJson (s : ToolSpec) : Json :=
  let properties := s.parameters.map fun p ↦ (p.1, .object [("type", .string p.2)])
  .object [
    ("description", .string s.description),
    ("inputSchema", .object [
      ("properties", .object properties),
      ("required", .array (s.required.map .string)),
      ("type", .string "object")]),
    ("name", .string s.name)]

end ToolSpec

/-- The schema of all tools as an indented document. -/
def schemaText : String :=
  (Json.object [("tools", .array (toolSpecs.map ToolSpec.toJson))]).indented

end ExprCompiler.Service
