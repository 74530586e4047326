import ScriptKernel.Text.Pieces

/-!
Version requirements: alternatives divided by `||`, each a list of constraints
that have to hold together. A constraint relates a release to a version that may
leave its last numbers open.

Releases only are held against a requirement. Of an early version, one with a
label such as `-beta`, it therefore matters only that it comes before its
release.
-/

namespace ScriptKernel

structure Release where
  major : Nat
  minor : Nat
  patch : Nat
deriving Repr, DecidableEq

def Release.render (r : Release) : String :=
  Text.decimal r.major ++ "." ++ Text.decimal r.minor ++ "." ++ Text.decimal r.patch

namespace Requirement

inductive Precision where
  | exact
  | openPatch
  | openMinor
  | anything
deriving Repr, DecidableEq

structure Bound where
  /-- The version as it was written. -/
  written : String
  release : Release
  early : Bool
  precision : Precision
deriving Repr, DecidableEq

inductive Relation where
  | equal
  | notEqual
  | above
  | below
  | atLeast
  | atMost
  /-- Not below, and equal in all numbers given but the last of three. -/
  | near
  /-- Not below, and equal up to the first number that is not zero. -/
  | compatible
deriving Repr, DecidableEq

structure Constraint where
  relation : Relation
  bound : Bound
deriving Repr, DecidableEq

inductive Reason where
  | less
  | lessOrEqual
  | greater
  | greaterOrEqual
  | equal
  | notEqual
  | otherMajor
  | otherMajorOrMinor
  | otherMinor
  | otherMinorOfZero
  | otherPatchOfZero
deriving Repr, DecidableEq

def Reason.message (r : Release) (bound : Bound) (reason : Reason) : String :=
  let (relation, remark) := match reason with
    | .less => ("is less than", "")
    | .lessOrEqual => ("is less than or equal to", "")
    | .greater => ("is greater than", "")
    | .greaterOrEqual => ("is greater than or equal to", "")
    | .equal => ("is equal to", "")
    | .notEqual => ("is not equal to", "")
    | .otherMajor => ("does not have same major version as", "")
    | .otherMajorOrMinor => ("does not have same major and minor version as", "")
    | .otherMinor => ("does not have same minor version as", "")
    | .otherMinorOfZero =>
      ("does not have same minor version as",
        ". Expected minor versions to match when constraint major version is 0")
    | .otherPatchOfZero =>
      ("does not equal",
        ". Expect version and constraint to equal when major and minor versions are 0")
  r.render ++ " " ++ relation ++ " " ++ bound.written ++ remark

def Bound.order (bound : Bound) (r : Release) : Ordering :=
  let low := bound.release
  ((compare r.major low.major).then (compare r.minor low.minor)).then (compare r.patch low.patch)
    |>.then (if bound.early then .gt else .eq)

def demand (holds : Bool) (reason : Reason) : Option Reason :=
  if holds then none else some reason

def near (r : Release) (bound : Bound) : Option Reason :=
  let low := bound.release
  if bound.order r = .lt then some .less
  else if low = ⟨0, 0, 0⟩ ∧ bound.precision ∉ [.openMinor, .openPatch] then none
  else if r.major ≠ low.major then some .otherMajor
  else demand (r.minor = low.minor ∨ bound.precision = .openMinor) .otherMajorOrMinor

def compatible (r : Release) (bound : Bound) : Option Reason :=
  let low := bound.release
  if bound.order r = .lt then some .less
  else if 0 < low.major ∨ bound.precision = .openMinor then demand (r.major = low.major) .otherMajor
  else if 0 < r.major then some .otherMajor
  else if 0 < low.minor ∨ bound.precision = .openPatch then
    demand (r.minor = low.minor) .otherMinorOfZero
  else if 0 < r.minor then some .otherMinor
  else demand (r.patch = low.patch) .otherPatchOfZero

/-- A number left open stands for all numbers, so that a release differs only
in a number that is given. -/
def notEqual (r : Release) (bound : Bound) : Option Reason :=
  let low := bound.release
  match bound.precision with
  | .openMinor => demand (r.major ≠ low.major) .equal
  | .openPatch => demand (r.major ≠ low.major ∨ r.minor ≠ low.minor ∨ bound.early) .equal
  | _ => demand (bound.order r ≠ .eq) .equal

def above (r : Release) (bound : Bound) : Option Reason :=
  let low := bound.release
  let holds : Bool := match bound.precision with
    | .openMinor => low.major < r.major
    | .openPatch => low.major < r.major ∨ (low.major = r.major ∧ low.minor < r.minor)
    | _ => bound.order r = .gt
  demand holds .lessOrEqual

def atMost (r : Release) (bound : Bound) : Option Reason :=
  let high := bound.release
  let holds : Bool := match bound.precision with
    | .exact => bound.order r ≠ .gt
    | .openMinor => r.major ≤ high.major
    | _ => r.major < high.major ∨ (r.major = high.major ∧ r.minor ≤ high.minor)
  demand holds .greater

def Constraint.refusal (r : Release) (c : Constraint) : Option Reason :=
  let bound := c.bound
  match c.relation with
  | .equal =>
    if bound.precision = .exact then demand (bound.order r = .eq) .notEqual else near r bound
  | .notEqual => notEqual r bound
  | .above => above r bound
  | .below => demand (bound.order r = .lt) .greaterOrEqual
  | .atLeast => demand (bound.order r ≠ .lt) .less
  | .atMost => atMost r bound
  | .near => near r bound
  | .compatible => compatible r bound

def isSpace (c : Char) : Bool := c ∈ [' ', '\t', '\n', '\x0c', '\r']

def isNumeral (c : Char) : Bool := c.isDigit || c ∈ ['x', 'X', '*', '|']

def isLabelChar (c : Char) : Bool := c.isAlphanum || c = '-'

structure Spelling where
  written : List Char
  major : List Char
  minor : Option (List Char)
  patch : Option (List Char)
  labels : List (List Char)
deriving Repr, DecidableEq

def dotted (text : List Char) : Option (List Char) × List Char :=
  match text with
  | '.' :: rest =>
    let number := rest.takeWhile isNumeral
    if number.isEmpty then (none, text) else (some number, rest.dropWhile isNumeral)
  | _ => (none, text)

def marked (mark : Char) (text : List Char) : List (List Char) × List Char :=
  match text with
  | c :: rest =>
    if c = mark then
      let pieces := Text.splitAt '.' (rest.takeWhile fun c => isLabelChar c || c = '.')
      let labels := pieces.takeWhile fun piece => !piece.isEmpty
      if labels.isEmpty then ([], text)
      else (labels, rest.drop (List.intercalate ['.'] labels).length)
    else ([], text)
  | [] => ([], text)

def spelling? (text : List Char) : Option (Spelling × List Char) :=
  let start := match text with
    | 'v' :: rest => rest
    | _ => text
  let major := start.takeWhile isNumeral
  if major.isEmpty then none
  else
    let (minor, rest) := dotted (start.dropWhile isNumeral)
    let (patch, rest) := dotted rest
    let (labels, rest) := marked '-' rest
    let (_, rest) := marked '+' rest
    some (⟨text.take (text.length - rest.length), major, minor, patch, labels⟩, rest)

def isWild (number : List Char) : Bool :=
  number ∈ [['x'], ['X'], ['*']]

def number? (digits : List Char) : Option Nat :=
  if digits.all Char.isDigit then
    let n := digits.foldl (fun n c => 10 * n + (c.toNat - '0'.toNat)) 0
    if n < UInt64.size then some n else none
  else none

def isLabel (label : List Char) : Bool :=
  !(label.all Char.isDigit && 1 < label.length && label.head? = some '0')

def Spelling.bound? (s : Spelling) : Option Bound := do
  let bound := fun (release : Release) (precision : Precision) =>
    if s.labels.all isLabel then
      some (⟨String.ofList s.written, release, !s.labels.isEmpty, precision⟩ : Bound)
    else none
  if isWild s.major then bound ⟨0, 0, 0⟩ .anything
  else
    let major ← number? s.major
    match s.minor.filter (!isWild ·), s.patch.filter (!isWild ·) with
    | none, _ => bound ⟨major, 0, 0⟩ .openMinor
    | some minor, none => do bound ⟨major, ← number? minor, 0⟩ .openPatch
    | some minor, some patch => do bound ⟨major, ← number? minor, ← number? patch⟩ .exact

def relation? (symbol : List Char) : Option Relation :=
  [("", Relation.equal), ("=", .equal), ("!=", .notEqual), (">", .above), ("<", .below),
    (">=", .atLeast), ("=>", .atLeast), ("<=", .atMost), ("=<", .atMost), ("~", .near),
    ("~>", .near), ("^", .compatible)].lookup (String.ofList symbol)

def isSymbolChar (c : Char) : Bool := c ∈ ['=', '!', '<', '>', '~', '^']

def constraint? (text : List Char) : Option ((Relation × Spelling) × List Char) := do
  let text := text.dropWhile isSpace
  let relation ← relation? (text.takeWhile isSymbolChar)
  let (spelling, rest) ← spelling? ((text.dropWhile isSymbolChar).dropWhile isSpace)
  some ((relation, spelling), rest)

def constraints? : Nat → List Char → Option (List (Relation × Spelling))
  | 0, _ => none
  | n + 1, text => do
    let (first, rest) ← constraint? text
    match rest.dropWhile isSpace with
    | [] => some [first]
    | ',' :: more => do some (first :: (← constraints? n more))
    | more => if more.length < rest.length then do some (first :: (← constraints? n more)) else none

def range? (text : List Char) : Option (List Char × List Char) := do
  let (low, rest) ← spelling? (text.dropWhile isSpace)
  let hyphen := rest.dropWhile isSpace
  match hyphen with
  | '-' :: rest' =>
    let start := rest'.dropWhile isSpace
    if hyphen.length < rest.length ∧ start.length < rest'.length then
      let (high, rest) ← spelling? start
      some (">= ".toList ++ low.written ++ ", <= ".toList ++ high.written ++ [' '],
        rest.dropWhile isSpace)
    else none
  | _ => none

def expandRanges : Nat → List Char → List Char
  | n + 1, c :: rest =>
    match range? (c :: rest) with
    | some (text, rest) => text ++ expandRanges n rest
    | none => c :: expandRanges n rest
  | _, text => text

def divide : List Char → List (List Char)
  | [] => [[]]
  | '|' :: '|' :: rest => [] :: divide rest
  | c :: rest =>
    match divide rest with
    | first :: others => (c :: first) :: others
    | [] => [[c]]

inductive Fault where
  /-- This alternative is no list of constraints. -/
  | improper (text : String)
  /-- A version has a number or label that none can have. -/
  | badVersion
deriving Repr, DecidableEq

def Fault.message : Fault → String
  | .improper text => "improper constraint: " ++ text
  | .badVersion => "constraint Parser Error"

def alternative (text : List Char) : Except Fault (List Constraint) :=
  match constraints? (text.length + 1) text with
  | none => .error (.improper (String.ofList text))
  | some found => found.mapM fun (relation, spelling) =>
    match spelling.bound? with
    | some bound => .ok ⟨relation, bound⟩
    | none => .error .badVersion

end Requirement

structure Requirement where
  alternatives : List (List Requirement.Constraint)
deriving Repr, DecidableEq

namespace Requirement

def parse (text : String) : Except Fault Requirement := do
  let text := text.toList
  let found ← (divide (expandRanges text.length text)).mapM alternative
  return ⟨found⟩

def refusals (r : Release) (constraints : List Constraint) : List String :=
  constraints.filterMap fun c => (c.refusal r).map (Reason.message r c.bound)

def unmet (req : Requirement) (r : Release) : Option (List String) :=
  let reasons := req.alternatives.map (refusals r)
  if reasons.any List.isEmpty then none else some reasons.flatten

end Requirement

end ScriptKernel
