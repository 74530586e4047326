/-!
Documents as trees. Every node knows the line it starts on.
-/

namespace ScriptKernel.Yaml

inductive Node where
  /-- A scalar with its tag, which is empty when it has none. One that is plain
  means what its text looks like, any other one without a tag is a text. -/
  | scalar (line : Nat) (tag : String) (plain : Bool) (text : String)
  | sequence (line : Nat) (items : List Node)
  | mapping (line : Nat) (entries : List (Node × Node))
  /-- A node that stands for one that was named before. -/
  | alias (line : Nat) (target : Node)
deriving Inhabited

namespace Node

def line : Node → Nat
  | .scalar line _ _ _ => line
  | .sequence line _ => line
  | .mapping line _ => line
  | .alias line _ => line

def nothing (line : Nat) : Node := .scalar line "" true ""

def target : Node → Node
  | .alias _ node => node
  | node => node

def isMapping : Node → Bool
  | .mapping _ _ => true
  | _ => false

end Node

end ScriptKernel.Yaml
