import ComponentProjects.Path.Basic

/-! The inspector's arguments. Options take one value, behind an equals sign or as the next
argument, and may be given once; two dashes end them. What an argument says is taken
up when the next one that is not its value has been recognised. -/
namespace ComponentProjects

structure Arguments where
  workspaceRoot? : Option Path
  settings? : Option Path
  logLevel? : Option String
  files : List Path
deriving DecidableEq, Repr

/-- Why there is nothing to run. -/
inductive ArgumentFault where
  | unknownArgument
  | argumentConflict
  | invalidValue
  | tooManyValues
  | displayHelp
  | displayVersion
deriving DecidableEq, Repr

namespace Arguments

def none : Arguments := ⟨.none, .none, .none, []⟩

def defaultLogLevel : String := "info"

def logLevel (a : Arguments) : String := a.logLevel?.getD defaultLogLevel

inductive OptionName where
  | workspaceRoot
  | settings
  | logLevel
deriving DecidableEq, Repr

/-- What a name behind two dashes stands for. -/
inductive LongName where
  | option (name : OptionName)
  | flag (fault : ArgumentFault)
deriving DecidableEq, Repr

def longName? (name : String) : Option LongName :=
  if name = "workspace-root" then some (.option .workspaceRoot)
  else if name = "settings" then some (.option .settings)
  else if name = "log-level" then some (.option .logLevel)
  else if name = "help" then some (.flag .displayHelp)
  else if name = "version" then some (.flag .displayVersion)
  else .none

def shortFault (letter : Char) : ArgumentFault :=
  if letter = 'h' then .displayHelp
  else if letter = 'V' then .displayVersion
  else .unknownArgument

def path? (text : String) : Except ArgumentFault Path :=
  if text = "" then .error .invalidValue else .ok (.ofString text)

def isSet (a : Arguments) : OptionName → Bool
  | .workspaceRoot => a.workspaceRoot?.isSome
  | .settings => a.settings?.isSome
  | .logLevel => a.logLevel?.isSome

/-- Take up an option's value. A path may not be empty. -/
def assign (a : Arguments) (name : OptionName) (value : String) :
    Except ArgumentFault Arguments :=
  if a.isSet name then .error .argumentConflict
  else match name with
    | .workspaceRoot => do return { a with workspaceRoot? := some (← path? value) }
    | .settings => do return { a with settings? := some (← path? value) }
    | .logLevel => .ok { a with logLevel? := some value }

/-- What has been recognised and is not taken up yet. -/
inductive Pending where
  | nothing
  | awaiting (name : OptionName)
  | value (name : OptionName) (value : String)
  | files (values : List String)
deriving DecidableEq, Repr

def takeUp (a : Arguments) : Pending → Except ArgumentFault Arguments
  | .nothing => .ok a
  | .awaiting _ => .error .invalidValue
  | .value name value => a.assign name value
  | .files values => do return { a with files := a.files ++ (← values.mapM path?) }

/-- An argument that is no option. -/
def positional (a : Arguments) (pending : Pending) (value : String) :
    Except ArgumentFault (Arguments × Pending) :=
  match pending with
  | .files values => .ok (a, .files (values ++ [value]))
  | pending => do return (← a.takeUp pending, .files [value])

/-- An argument behind two dashes: its name and what follows an equals sign. -/
def long (a : Arguments) (pending : Pending) (text : List Char) :
    Except ArgumentFault (Arguments × Pending) :=
  let name := String.ofList (text.takeWhile (· ≠ '='))
  let value? := match text.dropWhile (· ≠ '=') with
    | _ :: value => some (String.ofList value)
    | [] => Option.none
  match longName? name, value? with
  | .none, _ => .error .unknownArgument
  | some (.flag _), some _ => .error .tooManyValues
  | some (.flag fault), .none => do
    let _ ← a.takeUp pending
    .error fault
  | some (.option name), some value => do
    return (← (← a.takeUp pending).assign name value, .nothing)
  | some (.option name), .none => do return (← a.takeUp pending, .awaiting name)

/-- A flag of one letter; nothing can follow the first one. -/
def short (a : Arguments) (pending : Pending) (letter : Char) :
    Except ArgumentFault (Arguments × Pending) :=
  match shortFault letter with
  | .unknownArgument => .error .unknownArgument
  | fault => do
    let _ ← a.takeUp pending
    .error fault

def parseFrom (a : Arguments) (pending : Pending) (trailing : Bool) :
    List String → Except ArgumentFault Arguments
  | [] => a.takeUp pending
  | argument :: rest =>
    if trailing then do
      let (a, pending) ← a.positional pending argument
      parseFrom a pending trailing rest
    else match argument.toList with
      | ['-', '-'] => parseFrom a pending true rest
      | '-' :: '-' :: text => do
        let (a, pending) ← a.long pending text
        parseFrom a pending trailing rest
      | '-' :: letter :: _ => do
        let (a, pending) ← a.short pending letter
        parseFrom a pending trailing rest
      | _ =>
        match pending with
        | .awaiting name => parseFrom a (.value name argument) trailing rest
        | pending => do
          let (a, pending) ← a.positional pending argument
          parseFrom a pending trailing rest

/-- The arguments behind the program's name. -/
def parse (arguments : List String) : Except ArgumentFault Arguments :=
  parseFrom .none .nothing false arguments

end Arguments

end ComponentProjects
