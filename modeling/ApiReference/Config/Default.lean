import ApiReference.Json.Access

/-!
# The standard configuration

A configuration is a document value with one object for each part of the program.
Settings are read when they are needed, so that a missing one stops only what
needs it.
-/

namespace ApiReference.Config

def texts (ts : List Text) : Json := .list (ts.map .text)

/-- The settings that hold unless a configuration says otherwise. -/
def standard : Json := .object [
  ("input", .object [("pattern", .text "*.api.json")]),
  ("output", .object [("extension", .text ".md"), ("clear", .bool true)]),
  ("signature", .object [("language", .text "typescript")]),
  ("logging", .object [("level", .text "WARNING")]),
  ("comment", .object [
    ("block_tags", texts ["defaultValue", "deprecated", "example", "param", "privateRemarks",
      "remarks", "returns", "see", "throws", "typeParam"]),
    ("modifier_tags", texts ["alpha", "beta", "eventProperty", "internal", "override",
      "packageDocumentation", "public", "readonly", "sealed", "virtual"])])]

/-- One setting of a section of a configuration. -/
def setting (config : Json) (part key : Text) : Except Fault Json := do
  (← config.index part).index key

/-- A configuration that says nothing stands for the standard one. -/
def orStandard (config : Json) : Json := config.orElse standard

end ApiReference.Config
