import ComponentProjects.Json.Value
import ComponentProjects.Path.Basic

/-! Compiler options: a table from option names to JSON values, built up in layers. -/
namespace ComponentProjects

abbrev Options := Table String Json

namespace Options

/-- Lay every option of the second table on the first one. -/
def merge (options layer : Options) : Options := options.insertAll layer.entries

/-- The layers laid over each other; of an option in several layers the last one counts. -/
def layered (layers : List Options) : Options := layers.foldl merge ∅

def bool? (options : Options) (key : String) : Option Bool := (options.get? key).bind Json.bool?

def string? (options : Options) (key : String) : Option String :=
  (options.get? key).bind Json.string?

/-- Where specifiers that are not relative are looked for first. -/
def baseUrl? (options : Options) : Option Path := (options.string? "baseUrl").map Path.ofString

/-- The options every project starts from. -/
def baseline : Options := .ofList
  [("allowNonTsExtensions", .bool true), ("allowJs", .bool true), ("target", .string "ESNext"),
    ("module", .string "ESNext"), ("moduleResolution", .string "node"),
    ("jsx", .string "preserve")]

/-- The options no project file can change. -/
def forced : Options := .ofList
  [("noEmit", .bool true), ("declaration", .bool false), ("skipLibCheck", .bool true),
    ("jsx", .string "preserve"), ("allowNonTsExtensions", .bool true)]

end Options

end ComponentProjects
