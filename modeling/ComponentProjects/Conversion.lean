import ComponentProjects.Dialect
import ComponentProjects.Noted

/-! Turning a component's source into text the engine can read. -/
namespace ComponentProjects

structure Conversion where
  text : String
  dialect : Dialect
  ok : Bool
deriving DecidableEq, Repr

/-- How component sources are turned into scripts; failure is part of the answer. -/
abbrev Preprocessor := Path → String → Conversion

/-- A conversion that failed: it keeps its dialect and contributes no text. -/
def Conversion.failed (dialect : Dialect) : Conversion := ⟨"", dialect, false⟩

/-- Run the preprocessor. What a failed run wrote is dropped, and a warning given. -/
def Preprocessor.convert (preprocess : Preprocessor) (path : Path) (source : String) :
    Noted Conversion :=
  let conversion := preprocess path source
  if conversion.ok then pure conversion
  else do
    Noted.warn (.failedConversion path)
    return .failed conversion.dialect

end ComponentProjects
