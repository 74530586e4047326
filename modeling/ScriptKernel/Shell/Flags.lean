import ScriptKernel.Number.Integer
import ScriptKernel.Text.Blank
import ScriptKernel.Text.Pieces
import ScriptKernel.Text.Quoted

/-!
Flags on a command line: `--name value` or `--name=value`, with one dash or two.
The first argument that is no flag ends them, and so do two dashes alone.
-/

namespace ScriptKernel

inductive FlagKind where
  /-- On when named; a value can only stand behind an equals sign. -/
  | switch
  | text
  | whole
  /-- May be given several times and holds texts with commas between them. -/
  | texts
deriving Repr, DecidableEq

abbrev FlagKinds := List (String × FlagKind)

inductive FlagFault where
  | badForm (argument : String)
  | unknown (name : String)
  | valueMissing (name : String)
  | notASwitch (name value : String)
  | notWhole (name value : String)
deriving Repr, DecidableEq

def FlagFault.message : FlagFault → String
  | .badForm argument => "bad flag syntax: " ++ argument
  | .unknown name => "flag provided but not defined: -" ++ name
  | .valueMissing name => "flag needs an argument: -" ++ name
  | .notASwitch name value =>
    "invalid boolean value " ++ Text.quote value ++ " for -" ++ name ++ ": parse error"
  | .notWhole name value =>
    "invalid value " ++ Text.quote value ++ " for flag -" ++ name ++ ": parse error"

abbrev Flags := List (String × String)

namespace Flags

def switch? (value : String) : Option Bool :=
  if value ∈ ["1", "t", "T", "TRUE", "true", "True"] then some true
  else if value ∈ ["0", "f", "F", "FALSE", "false", "False"] then some false
  else none

def accept (kind : FlagKind) (name value : String) : Except FlagFault Unit :=
  match kind with
  | .switch => if (switch? value).isSome then .ok () else .error (.notASwitch name value)
  | .whole => if (Integer.int64? value.toList).isSome then .ok () else .error (.notWhole name value)
  | _ => .ok ()

def nameAndValue (body : List Char) : String × Option String :=
  match body.dropWhile (· ≠ '=') with
  | _ :: value => (String.ofList (body.takeWhile (· ≠ '=')), some (String.ofList value))
  | [] => (String.ofList body, none)

def body? (argument : String) : Option (List Char) :=
  match argument.toList with
  | '-' :: '-' :: body => some body
  | '-' :: c :: body => some (c :: body)
  | _ => none

def parse (kinds : FlagKinds) : Flags → List String → Except FlagFault (Flags × List String)
  | flags, [] => .ok (flags, [])
  | flags, argument :: rest =>
    match body? argument with
    | none => .ok (flags, argument :: rest)
    | some [] => .ok (flags, rest)
    | some (c :: body) =>
      if c = '-' ∨ c = '=' then .error (.badForm argument)
      else
        let (name, value) := nameAndValue (c :: body)
        match kinds.lookup name with
        | none => .error (.unknown name)
        | some kind =>
          match value with
          | some value => do
            accept kind name value
            parse kinds ((name, value) :: flags) rest
          | none =>
            if kind = .switch then parse kinds ((name, "true") :: flags) rest
            else match rest with
              | [] => .error (.valueMissing name)
              | value :: rest => do
                accept kind name value
                parse kinds ((name, value) :: flags) rest

def isOn (flags : Flags) (name : String) : Bool :=
  (flags.lookup name).any fun value => switch? value = some true

def text? (flags : Flags) (name : String) : Option String := flags.lookup name

def switchGiven? (flags : Flags) (name : String) : Option Bool := flags.lookup name >>= switch?

def whole? (flags : Flags) (name : String) : Option Int :=
  flags.lookup name >>= fun value => Integer.int64? value.toList

def texts? (flags : Flags) (name : String) : Option (List String) :=
  let given := (flags.filter (·.1 = name)).reverse
  if given.isEmpty then none
  else some (given.flatMap fun (_, value) =>
    (Text.splitAt ',' value.toList).map fun piece => String.ofList (Text.trimChars piece))

end Flags

end ScriptKernel
