import ComponentProjects.Text.CaseData

/-! Lower case by the full Unicode mapping. One letter becomes two, and a capital sigma
becomes a final one at the end of a cased word. -/
namespace ComponentProjects.Text

def inRanges (ranges : List (Nat × Nat)) (c : Char) : Bool :=
  ranges.any fun r => r.1 ≤ c.toNat && c.toNat ≤ r.2

def isCased (c : Char) : Bool := inRanges casedRanges c

def isCaseIgnorable (c : Char) : Bool := inRanges caseIgnorableRanges c

/-- The lower-case letter by the simple mapping. -/
def simpleLower (c : Char) : Char :=
  let n := c.toNat
  match lowercaseRanges.find? fun (first, last, step, _) =>
      first ≤ n && n ≤ last && (n - first) % step == 0 with
  | some (_, _, _, away) => .ofNat (n + away).toNat
  | none => c

/-- Whether the first character that is not ignored has case. -/
def leadsToCased (text : List Char) : Bool :=
  match text.dropWhile isCaseIgnorable with
  | c :: _ => isCased c
  | [] => false

def capitalSigma : Char := .ofNat 0x3a3
def finalSigma : Char := .ofNat 0x3c2
def smallSigma : Char := .ofNat 0x3c3

/-- The capital I with a dot above keeps its dot as a mark of its own. -/
def dottedCapitalI : Char := .ofNat 0x130
def dottedSmallI : List Char := ['i', .ofNat 0x307]

/-- Lower case of a character between what is before it, backwards, and what is after it. -/
def lowerAt (before : List Char) (c : Char) (after : List Char) : List Char :=
  if c = capitalSigma then
    [if leadsToCased before && !leadsToCased after then finalSigma else smallSigma]
  else if c = dottedCapitalI then dottedSmallI
  else [simpleLower c]

def lowerFrom (before : List Char) : List Char → List Char
  | [] => []
  | c :: after => lowerAt before c after ++ lowerFrom (c :: before) after

def lowercase (text : List Char) : List Char := lowerFrom [] text

end ComponentProjects.Text
