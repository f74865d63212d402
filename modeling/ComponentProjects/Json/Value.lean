import ComponentProjects.Json.Number
import ComponentProjects.Table

/-! JSON values. An object that is read has its members in ascending order of their keys,
each key once; one that is built for printing keeps the order it was built in. -/
namespace ComponentProjects

inductive Json where
  | null
  | bool (value : Bool)
  | number (value : Json.Number)
  | string (value : String)
  | array (items : List Json)
  | object (members : List (String × Json))
deriving Inhabited

namespace Json

def ofTable (members : Table String Json) : Json := .object members.entries

/-- The object of some members; of two with one key the later counts. -/
def ofMembers (members : List (String × Json)) : Json := .ofTable (.ofList members)

def ofInt (n : Int) : Json := .number (.integer n)

def ofNat (n : Nat) : Json := .ofInt n

def strings (texts : List String) : Json := .array (texts.map .string)

def optional (value? : Option Json) : Json := value?.getD .null

def member? (key : String) : Json → Option Json
  | .object members => (members.find? fun m => m.1 = key).map Prod.snd
  | _ => none

def bool? : Json → Option Bool
  | .bool value => some value
  | _ => none

def string? : Json → Option String
  | .string value => some value
  | _ => none

def array? : Json → Option (List Json)
  | .array items => some items
  | _ => none

def int? : Json → Option Int
  | .number (.integer value) => some value
  | _ => none

end Json

end ComponentProjects
