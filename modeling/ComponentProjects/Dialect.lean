import ComponentProjects.Path.Basic

/-! The dialects a script file may be read in. -/
namespace ComponentProjects

inductive Dialect where
  | unknown
  | js
  | jsx
  | ts
  | tsx
  | json
deriving DecidableEq, Repr

namespace Dialect

/-- The dialect of each known extension. -/
def ofExtension (extension : List Char) : Dialect :=
  if extension ∈ ["ts", "mts", "cts"].map String.toList then .ts
  else if extension = "tsx".toList then .tsx
  else if extension ∈ ["js", "mjs", "cjs"].map String.toList then .js
  else if extension = "jsx".toList then .jsx
  else if extension = "json".toList then .json
  else .unknown

/-- A plain script's dialect goes by its extension, and a declaration file is a script
whatever else its name says. -/
def ofPath (p : Path) : Dialect :=
  if p.endsWith ".d.ts" then .ts
  else p.extension?.elim .unknown ofExtension

def extension : Dialect → String
  | .unknown => ""
  | .js => ".js"
  | .jsx => ".jsx"
  | .ts => ".ts"
  | .tsx => ".tsx"
  | .json => ".json"

/-- The extension a component file is answered with: markup script when nothing is known. -/
def componentExtension : Dialect → String
  | .unknown => extension .jsx
  | dialect => dialect.extension

/-- What a component of each dialect comes with. -/
inductive ComesWith : Dialect → String → Prop where
  | unknown : ComesWith .unknown ".jsx"
  | js : ComesWith .js ".js"
  | jsx : ComesWith .jsx ".jsx"
  | ts : ComesWith .ts ".ts"
  | tsx : ComesWith .tsx ".tsx"
  | json : ComesWith .json ".json"

theorem comesWith_componentExtension (dialect : Dialect) :
    dialect.ComesWith dialect.componentExtension := by
  cases dialect <;> constructor

end Dialect

end ComponentProjects
