import ScriptKernel.Value.Basic

/-!
The stack of scopes. The global scope is at the bottom and is never dropped;
names are looked up from the innermost scope outwards.
-/

namespace ScriptKernel

abbrev Scope := List (String × Value)

namespace Scope

def set (name : String) (v : Value) : Scope → Scope
  | [] => [(name, v)]
  | (other, w) :: scope =>
    if other = name then (name, v) :: scope else (other, w) :: set name v scope

def find? (name : String) : Scope → Option Value
  | [] => none
  | (other, w) :: scope => if other = name then some w else find? name scope

def binds (name : String) (scope : Scope) : Bool :=
  (Scope.find? name scope).isSome

end Scope

structure Scopes where
  /-- The scopes above the global one, innermost first. -/
  inner : List Scope := []
  globals : Scope := []
deriving DecidableEq

namespace Scopes

def depth (s : Scopes) : Nat :=
  s.inner.length + 1

def push (s : Scopes) : Scopes :=
  { s with inner := [] :: s.inner }

def pop (s : Scopes) : Scopes :=
  { s with inner := s.inner.tail }

def unwind (s : Scopes) (depth : Nat) : Scopes :=
  { s with inner := s.inner.drop (s.inner.length - (depth - 1)) }

def set (name : String) (v : Value) (s : Scopes) : Scopes :=
  match s.inner with
  | [] => { s with globals := Scope.set name v s.globals }
  | scope :: outer => { s with inner := Scope.set name v scope :: outer }

def findIn (name : String) : List Scope → Option Value
  | [] => none
  | scope :: outer =>
    match Scope.find? name scope with
    | some v => some v
    | none => findIn name outer

def find? (name : String) (s : Scopes) : Option Value :=
  match findIn name s.inner with
  | some v => some v
  | none => Scope.find? name s.globals

def assignIn (name : String) (v : Value) : List Scope → Option (List Scope)
  | [] => none
  | scope :: outer =>
    if Scope.binds name scope then some (Scope.set name v scope :: outer)
    else (assignIn name v outer).map (scope :: ·)

def assign? (name : String) (v : Value) (s : Scopes) : Option Scopes :=
  match assignIn name v s.inner with
  | some inner => some { s with inner := inner }
  | none =>
    if Scope.binds name s.globals then some { s with globals := Scope.set name v s.globals }
    else none

/-- Rebinds a name, or binds it in the innermost scope when it is new. -/
def assignOrSet (name : String) (v : Value) (s : Scopes) : Scopes :=
  (s.assign? name v).getD (s.set name v)

end Scopes

end ScriptKernel
