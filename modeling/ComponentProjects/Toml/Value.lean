/-! TOML values and the rules by which a document's tables grow. -/
namespace ComponentProjects

inductive Toml.Origin where
  | header
  /-- Only named on the way to another header's table so far. -/
  | implied
  | dottedKey
  /-- An inline table, which is closed for good. -/
  | braces
deriving DecidableEq, Repr

inductive Toml where
  | string (value : String)
  | integer (value : Int)
  | float
  | boolean (value : Bool)
  | moment
  | array (items : List Toml)
  /-- An array of tables grown by headers, the latest first. -/
  | tables (items : List Toml)
  | table (origin : Toml.Origin) (entries : List (String × Toml))
deriving Inhabited

namespace Toml

/-- What a table counts as when a name leads through it, if it is open to that. A dotted key
takes up a table that was only implied and goes into no table that has a header. -/
def Origin.passed? (byDots : Bool) : Origin → Option Origin
  | .header => if byDots then none else some .header
  | .implied => some (if byDots then .dottedKey else .implied)
  | .dottedKey => some .dottedKey
  | .braces => none

/-- A table that is still growing. -/
structure Growing where
  origin : Origin
  entries : List (String × Toml)

namespace Growing

def new (origin : Origin) : Growing := ⟨origin, []⟩

def done (t : Growing) : Toml := .table t.origin t.entries

def get? (t : Growing) (key : String) : Option Toml :=
  (t.entries.find? fun e => e.1 = key).map Prod.snd

def without (t : Growing) (key : String) : Growing :=
  { t with entries := t.entries.filter fun e => e.1 ≠ key }

def put (t : Growing) (key : String) (value : Toml) : Growing :=
  { t with entries := (t.without key).entries ++ [(key, value)] }

/-- Change the table at the end of a path. Missing tables on the way are made; those that are
there must be open to the way they are named, of an array's tables the latest. -/
def change? (byDots : Bool) (f : Growing → Option Growing) : List String → Growing → Option Growing
  | [], t => f t
  | key :: path, t =>
    match t.get? key with
    | none => do
      let inner := new (if byDots then .dottedKey else .implied)
      return t.put key (← change? byDots f path inner).done
    | some (.table origin entries) => do
      let inner : Growing := ⟨← origin.passed? byDots, entries⟩
      return t.put key (← change? byDots f path inner).done
    | some (.tables (.table origin entries :: earlier)) => do
      let latest ← change? byDots f path ⟨origin, entries⟩
      return t.put key (.tables (latest.done :: earlier))
    | some _ => none

/-- A new entry under the last part of a dotted key. Other parts lead to a table of dotted
keys, which an array's table is not. -/
def added? (t : Growing) (path : List String) (key : String) (value : Toml) : Option Growing :=
  t.change? true (fun inner =>
    if !path.isEmpty && inner.origin ≠ .dottedKey then none
    else if (inner.get? key).isSome then none
    else some (inner.put key value)) path

end Growing

/-- A document being read: what is finished, and the table of the last header. -/
structure Document where
  root : Growing
  path : List String
  inArray : Bool
  current : Growing

namespace Document

def new : Document := ⟨.new .header, [], false, .new .header⟩

def place (inArray : Bool) (key : String) (table : Toml) (parent : Growing) : Option Growing :=
  if inArray then
    match parent.get? key with
    | none => some (parent.put key (.tables [table]))
    | some (.tables items) => some (parent.put key (.tables (table :: items)))
    | some _ => none
  else some (parent.put key table)

/-- The document with the current table in its place. -/
def settled? (d : Document) : Option Growing :=
  match d.path.getLast? with
  | none => some d.current
  | some key => d.root.change? false (place d.inArray key d.current.done) d.path.dropLast

/-- What is under a path whose tables are all there. -/
def find? : List String → Growing → Option Toml
  | [], _ => none
  | [key], t => t.get? key
  | key :: path, t =>
    match t.get? key with
    | some (.table origin entries) => find? path ⟨origin, entries⟩
    | some (.tables (.table origin entries :: _)) => find? path ⟨origin, entries⟩
    | _ => none

/-- Begin the table of a header; one that was only implied is taken up again. -/
def header? (d : Document) (path : List String) : Option Document := do
  let key ← path.getLast?
  let root ← d.settled?
  let root ← root.change? false some path.dropLast
  match find? path root with
  | none => return ⟨root, path, false, .new .header⟩
  | some (.table origin entries) =>
    if origin = .implied then
      let root ← root.change? false (fun parent => some (parent.without key)) path.dropLast
      return ⟨root, path, false, ⟨.header, entries⟩⟩
    else none
  | some _ => none

def arrayHeader? (d : Document) (path : List String) : Option Document := do
  let root ← d.settled?
  let root ← root.change? false some path.dropLast
  match find? path root with
  | none | some (.tables _) => return ⟨root, path, true, .new .header⟩
  | some _ => none

def assigned? (d : Document) (keys : List String) (value : Toml) : Option Document := do
  let key ← keys.getLast?
  return { d with current := ← d.current.added? keys.dropLast key value }

end Document

end Toml

end ComponentProjects
