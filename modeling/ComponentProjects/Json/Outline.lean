import ComponentProjects.Json.Token

/-! The tree of a JSON text, with its strings and numbers as written. It is built from the
tokens by one fold with a stack of the arrays and objects that are still open. -/
namespace ComponentProjects.Json

inductive Outline where
  | null
  | bool (value : Bool)
  | number (numeral : Numeral)
  | text (parts : List TextPart)
  | array (items : List Outline)
  | object (members : List (List TextPart × Outline))

/-- An array or object that is still open; what it holds is kept latest first. -/
inductive Frame where
  | array (items : List Outline)
  | object (members : List (List TextPart × Outline)) (key : List TextPart)

inductive Expect where
  | value
  | valueOrClose
  | key
  | keyOrClose
  | colon
  | separator
  | nothing (root : Outline)

structure Build where
  frames : List Frame
  expect : Expect

namespace Build

def start : Build := ⟨[], .value⟩

/-- Put a whole value where it belongs. -/
def deliver (frames : List Frame) (value : Outline) : Build :=
  match frames with
  | [] => ⟨[], .nothing value⟩
  | .array items :: rest => ⟨.array (value :: items) :: rest, .separator⟩
  | .object members key :: rest => ⟨.object ((key, value) :: members) key :: rest, .separator⟩

def value? (b : Build) (token : Token) : Option Build :=
  match token with
  | .null => some (deliver b.frames .null)
  | .bool value => some (deliver b.frames (.bool value))
  | .number numeral => some (deliver b.frames (.number numeral))
  | .text parts => some (deliver b.frames (.text parts))
  | .openArray => some ⟨.array [] :: b.frames, .valueOrClose⟩
  | .openObject => some ⟨.object [] [] :: b.frames, .keyOrClose⟩
  | _ => none

def close? (b : Build) (token : Token) : Option Build :=
  match token, b.frames with
  | .closeArray, .array items :: rest => some (deliver rest (.array items.reverse))
  | .closeObject, .object members _ :: rest => some (deliver rest (.object members.reverse))
  | _, _ => none

def key? (b : Build) (token : Token) : Option Build :=
  match token, b.frames with
  | .text parts, .object members _ :: rest => some ⟨.object members parts :: rest, .colon⟩
  | _, _ => none

def step? (b : Build) (token : Token) : Option Build :=
  match b.expect, token with
  | .value, _ => b.value? token
  | .valueOrClose, .closeArray => b.close? token
  | .valueOrClose, _ => b.value? token
  | .key, _ => b.key? token
  | .keyOrClose, .closeObject => b.close? token
  | .keyOrClose, _ => b.key? token
  | .colon, .colon => some { b with expect := .value }
  | .colon, _ => none
  | .separator, .comma =>
    match b.frames with
    | .array _ :: _ => some { b with expect := .value }
    | .object _ _ :: _ => some { b with expect := .key }
    | [] => none
  | .separator, _ => b.close? token
  | .nothing _, _ => none

end Build

/-- The one value that the tokens spell. -/
def Outline.ofTokens? (tokens : List Token) : Option Outline := do
  let b ← tokens.foldlM Build.step? Build.start
  match b.expect with
  | .nothing root => some root
  | _ => none

def Outline.ofText? (text : List Char) : Option Outline := do
  Outline.ofTokens? (← tokens? text)

end ComponentProjects.Json
