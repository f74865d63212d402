import ComponentProjects.Json.Outline
import ComponentProjects.Json.Value

/-! Values from outlines. Only what is kept is decoded: a lone surrogate, a number out of
range or too deep a nesting is a fault in a value that is kept, and nothing in one
that is skipped. -/
namespace ComponentProjects.Json

def isHighUnit (u : Nat) : Bool := 0xD800 ≤ u && u < 0xDC00
def isLowUnit (u : Nat) : Bool := 0xDC00 ≤ u && u < 0xE000

def pairChar (high low : Nat) : Char := .ofNat (0x10000 + (high - 0xD800) * 0x400 + (low - 0xDC00))

/-- The characters of a string; a surrogate counts only as half of a pair. -/
def chars? : List TextPart → Option (List Char)
  | [] => some []
  | .char c :: rest => (chars? rest).map (c :: ·)
  | .unit u :: rest =>
    if isHighUnit u then
      match rest with
      | .unit v :: rest => if isLowUnit v then (chars? rest).map (pairChar u v :: ·) else none
      | _ => none
    else if isLowUnit u then none
    else (chars? rest).map (Char.ofNat u :: ·)

def text? (parts : List TextPart) : Option String := (chars? parts).map String.ofList

namespace Outline

/-- How deep a kept value may be nested. -/
def greatestDepth : Nat := 127

/-- The value of an outline nested no deeper than a given depth. -/
def value? : Nat → Outline → Option Json
  | _, .null => some .null
  | _, .bool value => some (.bool value)
  | _, .number numeral => (Number.ofNumeral? numeral).map .number
  | _, .text parts => (text? parts).map .string
  | 0, .array _ => none
  | 0, .object _ => none
  | depth + 1, .array items => (items.mapM (value? depth)).map .array
  | depth + 1, .object members =>
    (members.mapM fun (key, value) => do return (← text? key, ← value? depth value)).map ofMembers

def table? (depth : Nat) : Outline → Option (Table String Json)
  | .object members =>
    match depth with
    | 0 => none
    | depth + 1 =>
      (members.mapM fun (key, value) =>
        do return (← text? key, ← value? depth value)).map Table.ofList
  | _ => none

def string? : Outline → Option String
  | .text parts => text? parts
  | _ => none

/-- Nothing or null is nothing; else the value has to be readable. -/
def optional? (read : Outline → Option α) : Option Outline → Option (Option α)
  | none | some .null => some none
  | some value => (read value).map some

def strings? : Outline → Option (List String)
  | .array items => items.mapM string?
  | _ => none

/-- The value of a field; a field that is there twice is a fault. -/
def field? (members : List (String × Outline)) (name : String) : Option (Option Outline) :=
  match members.filter fun m => m.1 = name with
  | [] => some none
  | [m] => some (some m.2)
  | _ => none

/-- The fields of a record, which is written as an object that may have others beside
them, or as an array of all of them in order. -/
def record? (names : List String) : Outline → Option (List (Option Outline))
  | .object members => do
    let members ← members.mapM fun (key, value) => do return (← text? key, value)
    names.mapM (field? members)
  | .array items => if items.length = names.length then some (items.map some) else none
  | _ => none

end Outline

def ofText? (text : List Char) : Option Json := do
  (← Outline.ofText? text).value? Outline.greatestDepth

end ComponentProjects.Json
