import ScriptKernel.Project.Requirement
import ScriptKernel.Session.Language
import ScriptKernel.Yaml.Document
import ScriptKernel.Yaml.Writer

/-!
The settings of a project: what its file can say, what makes it acceptable, and
its text.
-/

namespace ScriptKernel

structure Settings where
  package : String := ""
  language : String := ""
  /-- A version requirement on the interpreter. -/
  requires : String := ""
  logLevel : String := ""
  maxDepth : Int := 0
  memoize : Bool := false
  deny : List String := []
  encoding : String := ""
deriving Repr, DecidableEq

inductive SettingsFault where
  | badRequirement (text : String) (fault : Requirement.Fault)
  | unmetRequirement (package requires : String) (reasons : List String)
  | unknownLanguage (name : String)
  | negativeDepth
deriving Repr, DecidableEq

def release : Release := ⟨0, 4, 0⟩

def version : String := release.render

def SettingsFault.message : SettingsFault → String
  | .badRequirement text fault => "invalid Requires " ++ Text.quote text ++ ": " ++ fault.message
  | .unmetRequirement package requires reasons =>
    "package " ++ package ++ " requires lumen " ++ requires ++ ", this is " ++ version ++ ": [" ++
      Text.join " " reasons ++ "]"
  | .unknownLanguage name => "unknown language " ++ Text.quote name
  | .negativeDepth => "MaxDepth must not be negative"

namespace Settings

def checkRequires (s : Settings) : Except SettingsFault Unit :=
  if s.requires = "" then .ok ()
  else match Requirement.parse s.requires with
    | .error fault => .error (.badRequirement s.requires fault)
    | .ok requirement =>
      match requirement.unmet release with
      | none => .ok ()
      | some reasons => .error (.unmetRequirement s.package s.requires reasons)

def checkLanguage (s : Settings) : Except SettingsFault Unit :=
  if s.language = "" ∨ (Language.find? s.language).isSome then .ok ()
  else .error (.unknownLanguage s.language)

def check (s : Settings) : Except SettingsFault Unit := do
  s.checkRequires
  s.checkLanguage
  if s.maxDepth < 0 then .error .negativeDepth else .ok ()

def field (name text : String) : List Char :=
  let start := (name ++ ": ").toList
  start ++ Yaml.scalar start.length text

def field? (name text : String) : List Char :=
  if text = "" then [] else field name text

def line? (shown : Bool) (text : String) : List Char :=
  if shown then text.toList ++ ['\n'] else []

def render (s : Settings) : String :=
  String.ofList (
    field "Package" s.package ++ field? "Language" s.language ++ field? "Requires" s.requires ++
    field? "LogLevel" s.logLevel ++ line? (s.maxDepth ≠ 0) ("MaxDepth: " ++ Text.decimal s.maxDepth) ++
    line? s.memoize "Memoize: true" ++ line? (!s.deny.isEmpty) "Deny:" ++
    s.deny.flatMap (fun text => '-' :: ' ' :: Yaml.scalar 2 text) ++
    field? "Encoding" s.encoding)

inductive Misfit where
  | unknownField (line : Nat) (name : String)
  | repeatedField (line : Nat) (name : String)
  /-- A node of one kind where another is wanted; a scalar is cited. -/
  | mismatch (line : Nat) (tag : String) (cited : Option String) (wanted : String)
deriving Repr, DecidableEq

def cite (text : String) : String :=
  let bytes := Text.Utf8.encode text
  if 10 < bytes.length then String.ofList (Text.Utf8.lossy (bytes.take 7)) ++ "..." else text

def Misfit.message : Misfit → String
  | .unknownField line name =>
    "line " ++ Text.decimal line ++ ": field " ++ name ++ " not found in type interp.Config"
  | .repeatedField line name =>
    "line " ++ Text.decimal line ++ ": field " ++ name ++ " already set in type interp.Config"
  | .mismatch line tag cited wanted =>
    let citation := match cited with
      | some text => " \x60" ++ cite text ++ "\x60"
      | none => ""
    "line " ++ Text.decimal line ++ ": cannot unmarshal " ++ tag ++ citation ++ " into " ++ wanted

open Yaml (Node Meaning Read)

def misfit (node : Node) (wanted : String) : Read Misfit := do
  match node.target with
  | .scalar line tag plain text =>
    let meaning ← Yaml.scalarMeaning tag plain text
    let shown := if tag ≠ "" then Yaml.shortTag tag else meaning.tag
    return .mismatch line shown (some text) wanted
  | .sequence line _ => return .mismatch line "!!seq" none wanted
  | .mapping line _ | .alias line _ => return .mismatch line "!!map" none wanted

def scalarOf {α : Type} (wanted : String) (fit? : Meaning → String → Option α) (node : Node) :
    Read (Except Misfit α) := do
  match node.target with
  | .scalar _ tag plain text =>
    match fit? (← Yaml.scalarMeaning tag plain text) text with
    | some a => return .ok a
    | none => return .error (← misfit node wanted)
  | _ => return .error (← misfit node wanted)

def textOf : Node → Read (Except Misfit String) :=
  scalarOf "string" fun
    | .null, _ => some ""
    | _, text => some text

/-- The integer part of a number; what no integer of 64 bits has for one
becomes the least of them. -/
def wholePart (x : Float) : Int :=
  match Binary64.parts? x with
  | some p =>
    let n : Int := if p.negative then -p.whole else p.whole
    if Int64.minValue.toInt ≤ n ∧ n ≤ Int64.maxValue.toInt then n else Int64.minValue.toInt
  | none => Int64.minValue.toInt

def intOf : Node → Read (Except Misfit Int) :=
  scalarOf "int" fun
    | .null, _ => some 0
    | .int n, _ => if n ≤ Int64.maxValue.toInt then some n else none
    | .float x, _ =>
      if x ≤ Binary64.ofInt (Int64.maxValue.toInt + 1) then some (wholePart x) else none
    | _, _ => none

def boolOf : Node → Read (Except Misfit Bool) :=
  scalarOf "bool" fun
    | .null, _ => some false
    | .bool b, _ => some b
    | _, _ => none

def textsOf (node : Node) : Read (List String × List Misfit) := do
  match node.target with
  | .sequence _ items =>
    let texts ← items.mapM textOf
    return (texts.filterMap (·.toOption), texts.filterMap fun
      | .error m => some m
      | .ok _ => none)
  | _ =>
    match ← scalarOf "[]string" (fun
      | .null, _ => some ()
      | _, _ => none) node with
    | .ok () => return ([], [])
    | .error m => return ([], [m])

/-- Settings read so far, with the fields that were met and all misfits. -/
structure Reading where
  settings : Settings := {}
  met : List String := []
  misfits : List Misfit := []

def Reading.keep {α : Type} (r : Reading) (value : Read (Except Misfit α)) (set : Settings → α → Settings) :
    Read Reading := do
  match ← value with
  | .ok a => return { r with settings := set r.settings a }
  | .error m => return { r with misfits := r.misfits ++ [m] }

def Reading.field (r : Reading) (name : String) (value : Node) : Read Reading :=
  match name with
  | "Package" => r.keep (textOf value) fun s a => { s with package := a }
  | "Language" => r.keep (textOf value) fun s a => { s with language := a }
  | "Requires" => r.keep (textOf value) fun s a => { s with requires := a }
  | "LogLevel" => r.keep (textOf value) fun s a => { s with logLevel := a }
  | "MaxDepth" => r.keep (intOf value) fun s a => { s with maxDepth := a }
  | "Memoize" => r.keep (boolOf value) fun s a => { s with memoize := a }
  | "Deny" => do
    let (texts, misfits) ← textsOf value
    return { r with
      settings := { r.settings with deny := texts }
      misfits := r.misfits ++ misfits }
  | "Encoding" => r.keep (textOf value) fun s a => { s with encoding := a }
  | _ => .ok r

def fields : List String :=
  ["Package", "Language", "Requires", "LogLevel", "MaxDepth", "Memoize", "Deny", "Encoding"]

def Reading.entry (r : Reading) (key value : Node) : Read Reading := do
  match ← textOf key with
  | .error m => return { r with misfits := r.misfits ++ [m] }
  | .ok name =>
    if name ∉ fields then return { r with misfits := r.misfits ++ [.unknownField key.line name] }
    else if name ∈ r.met then
      return { r with misfits := r.misfits ++ [.repeatedField key.line name] }
    else
      let r ← r.field name value
      return { r with met := name :: r.met }

def isMerge : Node → Bool
  | .scalar _ tag plain text => text = "<<" && (plain || Yaml.shortTag tag = "!!merge")
  | _ => false

def merged (value : Node) : Read (List Node) :=
  let unmergeable := .error (.node .unmergeable)
  match value with
  | .sequence _ items =>
    if items.all (·.target.isMapping) then .ok items.reverse else unmergeable
  | node => if node.target.isMapping then .ok [node] else unmergeable

def Reading.mapping : Nat → Reading → Node → Read Reading
  | 0, r, _ => .ok r
  | depth + 1, r, node =>
    match node.target with
    | .mapping _ entries => do
      let own := { r with met := [] }
      let own ← entries.foldlM (fun (r : Reading) (key, value) => do
        if isMerge key then (← merged value).foldlM (Reading.mapping depth) r
        else r.entry key value) own
      return { own with met := r.met }
    | _ => .ok r

def mergeDepth : Nat := 64

def ofNode (node : Node) : Read (Except (List Misfit) Settings) := do
  match node.target with
  | .mapping _ _ =>
    let r ← Reading.mapping mergeDepth {} node
    return if r.misfits.isEmpty then .ok r.settings else .error r.misfits
  | _ =>
    match ← scalarOf "interp.Config" (fun
      | .null, _ => some ({} : Settings)
      | _, _ => none) node with
    | .ok settings => return .ok settings
    | .error m => return .error [m]

inductive Fault where
  | malformed (fault : Yaml.Fault)
  | unfitting (misfits : List Misfit)
deriving Repr, DecidableEq

def Fault.message : Fault → String
  | .malformed fault => "yaml: " ++ fault.message
  | .unfitting misfits =>
    "yaml: unmarshal errors:" ++ String.join (misfits.map fun m => "\n  " ++ m.message)

def parse (bytes : List UInt8) : Except Fault Settings := do
  match ← (Yaml.read bytes).mapError .malformed with
  | none => .ok {}
  | some node => (← (ofNode node).mapError .malformed).mapError .unfitting

end Settings

end ScriptKernel
