import ComponentProjects.CommandLine
import ComponentProjects.Inspection
import ComponentProjects.Json.Print
import ComponentProjects.Settings

/-! A whole run of the inspector, from its arguments to what it prints. -/
namespace ComponentProjects

structure Surroundings where
  current : Path
  settingsHome? : Option Path

inductive LaunchError where
  | unreadableSettings (path : Path)
  | invalidSettings (path : Path)
deriving DecidableEq, Repr

def LaunchError.message : LaunchError → String
  | .unreadableSettings path => "Failed to read settings file: " ++ path.toString
  | .invalidSettings path => "Invalid settings file " ++ path.toString

structure Launch where
  workspaceRoot : Path
  settings : Settings
  settingsFile? : Option Path
  logLevel : String
  files : List Path

namespace Launch

/-- The user's own settings file in the directory of settings. -/
def ownSettings (home : Path) : Path :=
  (home.join (.ofString "widget-ls")).join (.ofString "settings.toml")

def readSettings (tree : FileTree) (path : Path) : Noted (Except LaunchError Settings) := do
  return match ← tree.contents? path with
    | none => .error (.unreadableSettings path)
    | some text => (Settings.ofText? text).elim (.error (.invalidSettings path)) .ok

/-- The settings file to read: the one that is named, or the user's own if it is there. -/
def chosenSettings? (tree : FileTree) (place : Surroundings) (arguments : Arguments) :
    Noted (Option Path) :=
  match arguments.settings?, place.settingsHome? with
  | some path, _ => return some path
  | none, none => return none
  | none, some home => tree.file? (ownSettings home)

def ofArguments (tree : FileTree) (place : Surroundings) (arguments : Arguments) :
    Noted (Except LaunchError Launch) := do
  let root := arguments.workspaceRoot?.getD place.current
  let file? ← chosenSettings? tree place arguments
  let settings ← match file? with
    | none => pure (.ok Settings.default)
    | some path => readSettings tree path
  return settings.map fun settings =>
    ⟨root, settings, file?, arguments.logLevel, arguments.files⟩

def reports (launch : Launch) (tree : FileTree) : Noted (List FileReport) :=
  Inspection.inspect ⟨launch.settings, true⟩ tree launch.workspaceRoot launch.files

end Launch

/-- How a run ends: its exit status, what it prints, and its complaint if it has one. -/
structure RunResult where
  status : Nat
  output : String
  complaint : String
  /-- Whether the warnings of the run are to be shown. -/
  showsWarnings : Bool

namespace RunResult

def programName : String := "widget-project"

def version : String := "0.1.0"

def usage : String :=
  "Usage: " ++ programName ++
    " [--workspace-root DIR] [--settings FILE] [--log-level LEVEL] [FILES]\n"

def ofFault : ArgumentFault → RunResult
  | .displayHelp => ⟨0, usage, "", false⟩
  | .displayVersion => ⟨0, programName ++ " " ++ version ++ "\n", "", false⟩
  | _ => ⟨2, "", usage, false⟩

def ofError (error : LaunchError) : RunResult := ⟨1, "", "Error: " ++ error.message ++ "\n", false⟩

/-- The log levels at which warnings are shown. -/
def warningLevels : List String := ["warn", "info", "debug", "trace"]

def ofReports (launch : Launch) (reports : List FileReport) : RunResult :=
  ⟨0, String.ofList ((Json.array (reports.map FileReport.toJson)).pretty 0) ++ "\n", "",
    warningLevels.contains launch.logLevel.toLower⟩

/-- Run the inspector with the arguments behind its name. -/
def run (tree : FileTree) (place : Surroundings) (arguments : List String) : Noted RunResult := do
  match Arguments.parse arguments with
  | .error fault => return ofFault fault
  | .ok arguments =>
    match ← Launch.ofArguments tree place arguments with
    | .error error => return ofError error
    | .ok launch => return ofReports launch (← launch.reports tree)

end RunResult

end ComponentProjects
